import Outbox.Json.Tree

/-! # Trees and their tokens

A tree is spelled by its tokens: the items and the members of a container stand between its
brackets, a comma between any two of them. The reader goes from the left with a stack of open
containers and knows after every token which tokens it has read (`Reads`). Main statement:
`ofTokens?_eq_some_iff`, what is read as which tree. -/
namespace Outbox.Json.Tree
set_option autoImplicit false

mutual

def tokens : Tree → List Token
  | null => [.null]
  | bool b => [.bool b]
  | number n => [.number n]
  | text s => [.text s]
  | array items => .openArray :: itemTokens items ++ [.closeArray]
  | object members => .openObject :: memberTokens members ++ [.closeObject]

def itemTokens : List Tree → List Token
  | [] => []
  | [t] => tokens t
  | t :: r => tokens t ++ .comma :: itemTokens r

def memberTokens : List (Option String × Tree) → List Token
  | [] => []
  | [(k, t)] => .text k :: .colon :: tokens t
  | (k, t) :: r => .text k :: .colon :: tokens t ++ .comma :: memberTokens r

end

variable {t : Tree} {items : List Tree} {members : List (Option String × Tree)}
  {k : Option String} {fs : List Frame} {ts : List Token} {s s' : State} {tok : Token}

/-- Induction over a tree, with what is known of all items or of all members of a container. -/
@[induction_eliminator]
theorem induct {P : Tree → Prop} (null : P null) (bool : ∀ b, P (bool b))
    (number : ∀ n, P (number n)) (text : ∀ s, P (text s))
    (array : ∀ items, (∀ t ∈ items, P t) → P (array items))
    (object : ∀ members, (∀ m ∈ members, P m.2) → P (object members)) (t : Tree) : P t :=
  @Tree.rec P (fun items => ∀ t ∈ items, P t) (fun members => ∀ m ∈ members, P m.2)
    (fun m => P m.2) null bool number text array object (List.forall_mem_nil _)
    (fun _ _ ht hitems => List.forall_mem_cons.mpr ⟨ht, hitems⟩) (List.forall_mem_nil _)
    (fun _ _ hm hmembers => List.forall_mem_cons.mpr ⟨hm, hmembers⟩) (fun _ _ ht => ht) t

theorem itemTokens_cons_cons (t u : Tree) (items : List Tree) :
    itemTokens (t :: u :: items) = t.tokens ++ .comma :: itemTokens (u :: items) := rfl

theorem memberTokens_cons_cons (k : Option String) (t : Tree) (m : Option String × Tree)
    (members : List (Option String × Tree)) :
    memberTokens ((k, t) :: m :: members) =
      .text k :: .colon :: t.tokens ++ .comma :: memberTokens (m :: members) := rfl

theorem tokens_subset_itemTokens (h : t ∈ items) : t.tokens ⊆ itemTokens items := by
  induction items with
  | nil => exact absurd h List.not_mem_nil
  | cons u r ih =>
    cases r with
    | nil =>
      obtain rfl := List.mem_singleton.mp h
      exact List.Subset.refl _
    | cons w r =>
      rw [itemTokens_cons_cons]
      rcases List.mem_cons.mp h with rfl | h
      · exact List.subset_append_left _ _
      · exact List.subset_append_of_subset_right _ (List.subset_cons_of_subset _ (ih h))

theorem tokens_subset_memberTokens {m : Option String × Tree} (h : m ∈ members) :
    m.2.tokens ⊆ memberTokens members := by
  induction members with
  | nil => exact absurd h List.not_mem_nil
  | cons n r ih =>
    cases r with
    | nil =>
      obtain rfl := List.mem_singleton.mp h
      exact List.subset_cons_of_subset _ (List.subset_cons_self _ _)
    | cons w r =>
      rw [memberTokens_cons_cons]
      rcases List.mem_cons.mp h with rfl | h
      · exact List.subset_append_of_subset_left _
          (List.subset_cons_of_subset _ (List.subset_cons_self _ _))
      · exact List.subset_append_of_subset_right _ (List.subset_cons_of_subset _ (ih h))

/-! ## A tree is read from its tokens -/

/-- The state after some more tokens. -/
def State.run (s : State) (ts : List Token) : Option State := ts.foldlM State.step s

theorem State.run_cons (h : s.step tok = some s') : s.run (tok :: ts) = s'.run ts := by
  rw [run, List.foldlM_cons, h]
  rfl

theorem State.run_append (h : s.run ts = some s') (us : List Token) :
    s.run (ts ++ us) = s'.run us := by
  rw [run, List.foldlM_append]
  exact congrArg (· >>= fun s => s.run us) h

theorem tokens_eq_cons (t : Tree) : ∃ tok r, t.tokens = tok :: r ∧ tok ≠ .closeArray := by
  cases t <;> exact ⟨_, _, rfl, nofun⟩

theorem itemTokens_eq_cons (t : Tree) (items : List Tree) :
    ∃ tok r, itemTokens (t :: items) = tok :: r ∧ tok ≠ .closeArray := by
  obtain ⟨tok, r, ht, hne⟩ := t.tokens_eq_cons
  cases items with
  | nil => exact ⟨tok, r, ht, hne⟩
  | cons u items => exact ⟨tok, _, by rw [itemTokens_cons_cons, ht]; rfl, hne⟩

/-- Only a closing bracket is read as the first item of an array and not as another one. -/
theorem run_firstItem (h : ∃ tok r, ts = tok :: r ∧ tok ≠ .closeArray) :
    State.run ⟨fs, .firstItem⟩ ts = State.run ⟨fs, .value⟩ ts := by
  obtain ⟨tok, r, rfl, hne⟩ := h
  have hstep : State.step ⟨fs, .firstItem⟩ tok = State.step ⟨fs, .value⟩ tok := by
    cases tok <;> first | rfl | exact absurd rfl hne
  rw [State.run, State.run, List.foldlM_cons, List.foldlM_cons, hstep]

/-- The tokens of a tree are read as the tree, whatever container it stands in. -/
def IsRead (t : Tree) : Prop :=
  ∀ fs, State.run ⟨fs, .value⟩ t.tokens = some (.complete t fs)

theorem run_items {t : Tree} {items : List Tree} (h : ∀ u ∈ t :: items, u.IsRead)
    (acc : List Tree) (fs : List Frame) :
    State.run ⟨.array acc :: fs, .value⟩ (itemTokens (t :: items)) =
      some ⟨.array ((t :: items).reverse ++ acc) :: fs, .more⟩ := by
  induction items generalizing t acc with
  | nil => exact h t List.mem_cons_self _
  | cons u r ih =>
    obtain ⟨ht, hr⟩ := List.forall_mem_cons.mp h
    have hcomma : State.step (.complete t (.array acc :: fs)) .comma =
        some ⟨.array (t :: acc) :: fs, .value⟩ := rfl
    rw [itemTokens_cons_cons, State.run_append (ht _), State.run_cons hcomma, ih hr]
    simp

theorem run_members {m : Option String × Tree} {members : List (Option String × Tree)}
    (h : ∀ n ∈ m :: members, n.2.IsRead) (acc : List (Option String × Tree)) (fs : List Frame) :
    ∃ k, State.run ⟨fs, .key acc⟩ (memberTokens (m :: members)) =
      some ⟨.object ((m :: members).reverse ++ acc) k :: fs, .more⟩ := by
  induction members generalizing m acc with
  | nil => exact ⟨m.1, h m List.mem_cons_self (.object acc m.1 :: fs)⟩
  | cons n r ih =>
    obtain ⟨hm, hr⟩ := List.forall_mem_cons.mp h
    obtain ⟨k, t⟩ := m
    obtain ⟨last, hrest⟩ := ih hr ((k, t) :: acc)
    have hkey : State.step ⟨fs, .key acc⟩ (.text k) = some ⟨.object acc k :: fs, .colon⟩ := rfl
    have hcolon : State.step ⟨.object acc k :: fs, .colon⟩ .colon =
        some ⟨.object acc k :: fs, .value⟩ := rfl
    have hcomma : State.step (.complete t (.object acc k :: fs)) .comma =
        some ⟨fs, .key ((k, t) :: acc)⟩ := rfl
    refine ⟨last, ?_⟩
    rw [memberTokens_cons_cons, List.cons_append, List.cons_append, State.run_cons hkey,
      State.run_cons hcolon, State.run_append (hm _), State.run_cons hcomma, hrest]
    simp

theorem isRead (t : Tree) : t.IsRead := by
  intro fs
  induction t generalizing fs with
  | null => rfl
  | bool b => rfl
  | number n => rfl
  | text s => rfl
  | array items ih =>
    match items with
    | [] => rfl
    | u :: r =>
      have hopen : State.step ⟨fs, .value⟩ .openArray = some ⟨.array [] :: fs, .firstItem⟩ := rfl
      have hitems := (run_firstItem (itemTokens_eq_cons u r)).trans (run_items ih [] fs)
      rw [tokens, List.cons_append, State.run_cons hopen, State.run_append hitems]
      simp [State.run, State.step, State.more]
  | object members ih =>
    match members with
    | [] => rfl
    | m :: r =>
      have hopen : State.step ⟨fs, .value⟩ .openObject = some ⟨fs, .firstKey⟩ := rfl
      obtain ⟨last, hmembers⟩ := run_members ih [] fs
      have hfirst : State.run ⟨fs, .firstKey⟩ (memberTokens (m :: r)) =
          State.run ⟨fs, .key []⟩ (memberTokens (m :: r)) := by
        cases r <;> rfl
      rw [tokens, List.cons_append, State.run_cons hopen,
        State.run_append (hfirst.trans hmembers)]
      simp [State.run, State.step, State.more]

theorem ofTokens?_tokens (t : Tree) : ofTokens? t.tokens = some t := by
  have h : t.tokens.foldlM State.step State.start = some (.complete t []) := t.isRead []
  rw [ofTokens?, h]
  rfl

/-! ## Only its tokens are read as a tree -/

/-- Items that are each followed by a comma. -/
def ledItems (items : List Tree) : List Token := items.flatMap fun t => t.tokens ++ [.comma]

def ledMembers (members : List (Option String × Tree)) : List Token :=
  members.flatMap fun (k, t) => .text k :: .colon :: t.tokens ++ [.comma]

/-- The tokens up to a value that goes into the container. -/
def Frame.tokens : Frame → List Token
  | .array items => .openArray :: ledItems items.reverse
  | .object members k => .openObject :: ledMembers members.reverse ++ [.text k, .colon]

/-- The tokens up to a value that goes into the innermost container. -/
def opened (fs : List Frame) : List Token := fs.reverse.flatMap Frame.tokens

/-- The tokens that lead to a state. -/
inductive Reads : State → List Token → Prop
  | value (fs : List Frame) : Reads ⟨fs, .value⟩ (opened fs)
  | firstItem (fs : List Frame) : Reads ⟨.array [] :: fs, .firstItem⟩ (opened (.array [] :: fs))
  | firstKey (fs : List Frame) : Reads ⟨fs, .firstKey⟩ (opened fs ++ [.openObject])
  | key (members : List (Option String × Tree)) (fs : List Frame) :
    Reads ⟨fs, .key members⟩ (opened fs ++ .openObject :: ledMembers members.reverse)
  | colon (members : List (Option String × Tree)) (k : Option String) (fs : List Frame) :
    Reads ⟨.object members k :: fs, .colon⟩
      (opened fs ++ .openObject :: ledMembers members.reverse ++ [.text k])
  | moreItems (t : Tree) (items : List Tree) (fs : List Frame) :
    Reads ⟨.array (t :: items) :: fs, .more⟩ (opened (.array items :: fs) ++ t.tokens)
  | moreMembers (k : Option String) (t : Tree) (members : List (Option String × Tree))
      (last : Option String) (fs : List Frame) :
    Reads ⟨.object ((k, t) :: members) last :: fs, .more⟩
      (opened (.object members k :: fs) ++ t.tokens)
  | finished (t : Tree) : Reads ⟨[], .finished t⟩ t.tokens

theorem opened_cons (f : Frame) (fs : List Frame) : opened (f :: fs) = opened fs ++ f.tokens := by
  simp [opened]

theorem reads_complete (t : Tree) (fs : List Frame) :
    Reads (.complete t fs) (opened fs ++ t.tokens) := by
  match fs with
  | [] => exact .finished t
  | .array items :: fs => exact .moreItems t items fs
  | .object members k :: fs => exact .moreMembers k t members k fs

theorem itemTokens_concat (items : List Tree) (t : Tree) :
    itemTokens (items ++ [t]) = ledItems items ++ t.tokens := by
  induction items with
  | nil => rfl
  | cons u items ih =>
    obtain ⟨v, r, hr⟩ : ∃ v r, items ++ [t] = v :: r := by
      cases items <;> exact ⟨_, _, rfl⟩
    rw [List.cons_append, hr, itemTokens_cons_cons, ← hr, ih]
    simp [ledItems]

theorem memberTokens_concat (members : List (Option String × Tree)) (k : Option String) (t : Tree) :
    memberTokens (members ++ [(k, t)]) = ledMembers members ++ .text k :: .colon :: t.tokens := by
  induction members with
  | nil => rfl
  | cons m members ih =>
    obtain ⟨n, r, hr⟩ : ∃ n r, members ++ [(k, t)] = n :: r := by
      cases members <;> exact ⟨_, _, rfl⟩
    rw [List.cons_append, hr, memberTokens_cons_cons, ← hr, ih]
    simp [ledMembers]

theorem reads_value (h : State.value fs tok = some s) : Reads s (opened fs ++ [tok]) := by
  cases tok with
  | null => cases h; exact reads_complete .null fs
  | bool b => cases h; exact reads_complete (.bool b) fs
  | number n => cases h; exact reads_complete (.number n) fs
  | text k => cases h; exact reads_complete (.text k) fs
  | openArray =>
    cases h
    have hread := Reads.firstItem fs
    rwa [opened_cons] at hread
  | openObject => cases h; exact .firstKey fs
  | _ => cases h

theorem Reads.step (h : Reads s ts) (hs : s.step tok = some s') : Reads s' (ts ++ [tok]) := by
  cases h with
  | value fs => exact reads_value hs
  | firstItem fs =>
    -- Only here does a closing bracket make an empty array.
    by_cases hclose : tok = .closeArray
    · subst hclose
      cases hs
      have hread := reads_complete (.array []) fs
      simpa [opened_cons, Frame.tokens, ledItems, tokens, itemTokens] using hread
    · refine reads_value (Eq.trans ?_ hs)
      cases tok <;> first | rfl | exact absurd rfl hclose
  | firstKey fs =>
    cases tok with
    | closeObject =>
      cases hs
      have hread := reads_complete (.object []) fs
      simpa [tokens, memberTokens] using hread
    | text k => cases hs; exact .colon [] k fs
    | _ => cases hs
  | key members fs =>
    cases tok with
    | text k => cases hs; exact .colon members k fs
    | _ => cases hs
  | colon members k fs =>
    cases tok with
    | colon =>
      cases hs
      have hread := Reads.value (.object members k :: fs)
      simpa [opened_cons, Frame.tokens] using hread
    | _ => cases hs
  | moreItems t items fs =>
    cases tok with
    | comma =>
      cases hs
      have hread := Reads.value (.array (t :: items) :: fs)
      simpa [opened_cons, Frame.tokens, ledItems] using hread
    | closeArray =>
      cases hs
      have hread := reads_complete (.array (t :: items).reverse) fs
      rw [tokens, List.reverse_cons, itemTokens_concat] at hread
      simpa [opened_cons, Frame.tokens] using hread
    | _ => cases hs
  | moreMembers k t members last fs =>
    cases tok with
    | comma =>
      -- The frame of the object is taken off until its next key is there.
      cases hs
      have hread := Reads.key ((k, t) :: members) fs
      simpa [opened_cons, Frame.tokens, ledMembers] using hread
    | closeObject =>
      cases hs
      have hread := reads_complete (.object ((k, t) :: members).reverse) fs
      rw [tokens, List.reverse_cons, memberTokens_concat] at hread
      simpa [opened_cons, Frame.tokens] using hread
    | _ => cases hs
  | finished t => cases hs

theorem Reads.run {us : List Token} (h : Reads s ts) (hs : s.run us = some s') :
    Reads s' (ts ++ us) := by
  induction us generalizing s ts with
  | nil =>
    cases hs
    rwa [List.append_nil]
  | cons tok us ih =>
    rw [State.run, List.foldlM_cons] at hs
    obtain ⟨u, hu, hs⟩ := Option.bind_eq_some_iff.mp hs
    simpa using ih (h.step hu) hs

theorem ofTokens?_eq_some_iff : ofTokens? ts = some t ↔ ts = t.tokens := by
  constructor
  · intro h
    obtain ⟨s, hs, hplace⟩ := Option.bind_eq_some_iff.mp h
    have hread : Reads s ts := (Reads.value []).run hs
    cases hread <;> cases hplace
    rfl
  · rintro rfl
    exact ofTokens?_tokens t

end Outbox.Json.Tree
