import Outbox.MessageUri

/-! # Uris and the ids in them

The path of a uri is what follows its first scheme. A number that was put behind a base is read
back from there, whatever stands in front of the scheme: `ofId_reads_back`. A query or a fragment
leaves the id alone, unless the uri has no scheme and its tail brings one along: then the id is
looked for behind the scheme in the tail. Main statement on tails: `tail_keeps_id_iff`. -/
namespace Outbox.MessageUri
open Text
set_option autoImplicit false

variable {s path a b : List Char}

def HasScheme (s : List Char) : Prop := scheme <:+: s

/-- What follows the first scheme, or all of a text without one. -/
def IsPath (s path : List Char) : Prop :=
  (∃ a, FirstCut scheme s a path) ∨ (¬ HasScheme s ∧ path = s)

theorem IsPath.afterScheme_eq (h : IsPath s path) : afterScheme s = path := by
  rcases h with ⟨a, hcut⟩ | ⟨hs, rfl⟩
  · exact afterScheme_of_cut hcut
  · exact afterScheme_of_uncut hs

/-! ## Numbers behind a base -/

/-- Nothing in the text begins a query or a fragment. -/
def Unmarked (s : List Char) : Prop := '?' ∉ s ∧ '#' ∉ s

theorem Unmarked.isTailMark_eq_false (h : Unmarked s) {c : Char} (hc : c ∈ s) :
    isTailMark c = false := by
  refine Bool.eq_false_iff.mpr fun hm => ?_
  rcases Bool.or_eq_true_iff.mp hm with he | he
  · exact h.1 (beq_iff_eq.mp he ▸ hc)
  · exact h.2 (beq_iff_eq.mp he ▸ hc)

/-- The base without the slashes at its end is `kept`. Only its path has to be free of marks. -/
theorem ofId_reads_back {base : String} {kept : List Char} {slashes : Nat}
    (hbase : base.toList = kept ++ List.replicate slashes '/')
    (hkept : kept.getLast? ≠ some '/') (hpath : IsPath kept path) (hmarks : Unmarked path)
    (id : MessageId) : (ofId base id).messageId = .ok id := by
  have hdrop : dropEnd (· == '/') base.toList = kept := by
    rw [hbase]
    refine dropEnd_append (fun c hc => Bool.eq_false_iff.mpr fun h => hkept ?_) fun c hc => ?_
    · rw [Option.mem_def.mp hc, beq_iff_eq.mp h]
    · exact beq_iff_eq.mpr (List.eq_of_mem_replicate hc)
  refine messageId_ofId (fun c hc => ?_) id
  rw [hdrop, hpath.afterScheme_eq] at hc
  exact hmarks.isTailMark_eq_false hc

/-- A mark in front of the scheme, a second scheme in the path and slashes at the end. -/
theorem marked_base_reads_back :
    IsPath "draft?://a://b".toList "a://b".toList ∧
      (ofId "draft?://a://b//" ⟨18446744073709551615⟩).messageId = .ok ⟨18446744073709551615⟩ := by
  have hpath : IsPath "draft?://a://b".toList "a://b".toList :=
    .inl ⟨"draft?".toList, cutAt?_eq_some_iff.mp rfl⟩
  have hbase : "draft?://a://b//".toList = "draft?://a://b".toList ++ List.replicate 2 '/' := rfl
  exact ⟨hpath, ofId_reads_back hbase (by decide) hpath ⟨by decide, by decide⟩ _⟩

/-! ## Tails -/

/-- A query or a fragment, with whatever comes behind it. -/
def IsTail (t : List Char) : Prop := ∃ c r, t = c :: r ∧ (c = '?' ∨ c = '#')

/-- Neither uri has an id, or both have the same. -/
def SameId (u v : MessageUri) : Prop := ∀ id, u.messageId = .ok id ↔ v.messageId = .ok id

theorem SameId.symm {u v : MessageUri} (h : SameId u v) : SameId v u := fun id => (h id).symm

theorem SameId.trans {u v w : MessageUri} (h : SameId u v) (h' : SameId v w) : SameId u w :=
  fun id => (h id).trans (h' id)

theorem mark_not_mem_scheme {c : Char} (h : c = '?' ∨ c = '#') : c ∉ scheme := by
  rcases h with rfl | rfl <;> decide

theorem IsTail.takeWhile_append {t : List Char} (ht : IsTail t) (s : List Char) :
    (s ++ t).takeWhile (!isTailMark ·) = s.takeWhile (!isTailMark ·) := by
  obtain ⟨c, r, rfl, hc⟩ := ht
  have hmark : isTailMark c = true := by rcases hc with rfl | rfl <;> rfl
  induction s with
  | nil => simp [hmark]
  | cons d s ih => rw [List.cons_append, List.takeWhile_cons, List.takeWhile_cons, ih]

/-- A tail behind the path is cut off again. -/
theorem IsTail.lastSegment_eq {s' t : List Char} (ht : IsTail t)
    (h : afterScheme s' = afterScheme s ++ t) : lastSegment s' = lastSegment s := by
  rw [lastSegment, lastSegment, h, ht.takeWhile_append]

theorem afterScheme_append_of_cut (h : FirstCut scheme s a b) (t : List Char) :
    afterScheme (s ++ t) = afterScheme s ++ t := by
  rw [afterScheme_of_cut (h.append t), afterScheme_of_cut h]

theorem IsTail.afterScheme_append {t : List Char} (ht : IsTail t) (hs : ¬ HasScheme s)
    (hnone : ¬ HasScheme t) : afterScheme (s ++ t) = afterScheme s ++ t := by
  obtain ⟨c, r, rfl, hc⟩ := ht
  rw [afterScheme_of_uncut hs,
    afterScheme_of_uncut (not_infix_append_cons (mark_not_mem_scheme hc) hs hnone)]

/-- The scheme of a tail cuts off the uri along with what stands in front of it. -/
theorem IsTail.afterScheme_of_cut {t : List Char} (ht : IsTail t) (hs : ¬ HasScheme s)
    (h : FirstCut scheme t a b) : afterScheme (s ++ t) = b := by
  obtain ⟨c, r, rfl, hc⟩ := ht
  exact MessageUri.afterScheme_of_cut (h.behind (mark_not_mem_scheme hc) hs)

/-- A tail leaves the id of a uri alone, unless the uri has no scheme, the tail has one and the id
behind that is another. In this case the uri has the id that stands behind its tail's scheme. -/
theorem tail_keeps_id_iff {u t : String} (ht : IsTail t.toList) :
    (SameId ⟨u ++ t⟩ ⟨u⟩ ↔
      ∀ a b, ¬ HasScheme u.toList → FirstCut scheme t.toList a b →
        SameId ⟨"://" ++ String.ofList b⟩ ⟨u⟩) ∧
    ∀ a b, ¬ HasScheme u.toList → FirstCut scheme t.toList a b →
      SameId ⟨u ++ t⟩ ⟨"://" ++ String.ofList b⟩ := by
  have hstray : ∀ a b, ¬ HasScheme u.toList → FirstCut scheme t.toList a b →
      SameId ⟨u ++ t⟩ ⟨"://" ++ String.ofList b⟩ := by
    intro a b hu hcut
    have hfront : FirstCut scheme (scheme ++ b) [] b := ⟨rfl, fun _ _ _ => Nat.zero_le _⟩
    have hb : afterScheme ("://" ++ String.ofList b).toList = b := by
      simp only [String.toList_append, String.toList_ofList]
      exact afterScheme_of_cut hfront
    have hstrayed : afterScheme (u ++ t).toList = b := by
      rw [String.toList_append, ht.afterScheme_of_cut hu hcut]
    exact messageId_congr (by rw [lastSegment, lastSegment, hstrayed, hb])
  refine ⟨⟨fun h a b hu hcut => (hstray a b hu hcut).symm.trans h, fun h => ?_⟩, hstray⟩
  have hkept : afterScheme (u.toList ++ t.toList) = afterScheme u.toList ++ t.toList →
      SameId ⟨u ++ t⟩ ⟨u⟩ := by
    intro heq
    refine messageId_congr ?_
    rw [String.toList_append]
    exact ht.lastSegment_eq heq
  rcases cut_or_uncut u.toList with ⟨a, b, hcut⟩ | hu
  · exact hkept (afterScheme_append_of_cut hcut _)
  rcases cut_or_uncut t.toList with ⟨a, b, hcut⟩ | hnone
  · exact (hstray a b hu hcut).trans (h a b hu hcut)
  · exact hkept (ht.afterScheme_append hu hnone)

/-- The uri of another message in the query of a uri without a scheme. -/
theorem query_brings_other_id :
    IsTail "?next=content://messages/8".toList ∧
      (⟨"messages/7"⟩ : MessageUri).messageId = .ok ⟨7⟩ ∧
      (⟨"messages/7" ++ "?next=content://messages/8"⟩ : MessageUri).messageId = .ok ⟨8⟩ ∧
      ¬ SameId ⟨"messages/7" ++ "?next=content://messages/8"⟩ ⟨"messages/7"⟩ := by
  have htail : IsTail "?next=content://messages/8".toList := ⟨'?', _, rfl, .inl rfl⟩
  have hown : (⟨"messages/7"⟩ : MessageUri).messageId = .ok ⟨7⟩ := rfl
  have hother : (⟨"://" ++ String.ofList "messages/8".toList⟩ : MessageUri).messageId = .ok ⟨8⟩ :=
    rfl
  have hu : ¬ HasScheme "messages/7".toList := cutAt?_eq_none_iff.mp rfl
  have hcut : FirstCut scheme "?next=content://messages/8".toList "?next=content".toList
      "messages/8".toList := cutAt?_eq_some_iff.mp rfl
  obtain ⟨hiff, hstray⟩ := tail_keeps_id_iff (u := "messages/7") htail
  refine ⟨htail, hown, (hstray _ _ hu hcut ⟨8⟩).mpr hother, fun h => ?_⟩
  have hsame := (hiff.mp h _ _ hu hcut ⟨8⟩).mp hother
  cases hown.symm.trans hsame

end Outbox.MessageUri
