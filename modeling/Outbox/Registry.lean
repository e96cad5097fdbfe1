/-! # Registries

An ordered set: a new member goes to the end, a present one stays where it is. Operations answer
whether they changed the set. Members are told apart by equality, so the members of a registry of
listeners are the names of listeners and not what the listeners do. -/
namespace Outbox
set_option autoImplicit false

structure Registry (α : Type) where
  members : List α := []
  deriving DecidableEq, Repr

namespace Registry
variable {α : Type} [DecidableEq α]

def contains (r : Registry α) (a : α) : Bool := decide (a ∈ r.members)

def add (r : Registry α) (a : α) : Bool × Registry α :=
  if a ∈ r.members then (false, r) else (true, ⟨r.members ++ [a]⟩)

def remove (r : Registry α) (a : α) : Bool × Registry α :=
  (decide (a ∈ r.members), ⟨r.members.filter (· ≠ a)⟩)

def size (r : Registry α) : Nat := r.members.length

def isEmpty (r : Registry α) : Bool := r.members.isEmpty

/-! ## What the operations do to membership -/

@[simp] theorem contains_iff (r : Registry α) (a : α) : r.contains a = true ↔ a ∈ r.members := by
  simp [contains]

theorem add_eq_true_iff (r : Registry α) (a : α) : (r.add a).1 = true ↔ a ∉ r.members := by
  unfold add
  split <;> simp_all

theorem mem_add (r : Registry α) (a b : α) :
    b ∈ (r.add a).2.members ↔ b = a ∨ b ∈ r.members := by
  unfold add
  split
  · constructor
    · exact Or.inr
    · rintro (rfl | h) <;> assumption
  · simp [or_comm]

theorem mem_remove (r : Registry α) (a b : α) :
    b ∈ (r.remove a).2.members ↔ b ∈ r.members ∧ b ≠ a := by
  simp [remove]

theorem nodup_add (r : Registry α) (a : α) (h : r.members.Nodup) :
    (r.add a).2.members.Nodup := by
  unfold add
  split
  · exact h
  · rename_i ha
    rw [List.nodup_append]
    refine ⟨h, by simp, ?_⟩
    rintro x hx y hy rfl
    exact ha ((List.mem_singleton.1 hy) ▸ hx)

theorem nodup_remove (r : Registry α) (a : α) (h : r.members.Nodup) :
    (r.remove a).2.members.Nodup :=
  List.Pairwise.filter _ h

/-- Adding a newcomer and removing it again leaves the order of the others alone. -/
theorem remove_add (r : Registry α) (a : α) (h : a ∉ r.members) :
    ((r.add a).2.remove a).2 = r := by
  obtain ⟨ms⟩ := r
  have hf : ms.filter (· ≠ a) = ms := by
    rw [List.filter_eq_self]
    intro b hb
    simpa using fun e : b = a => h (e ▸ hb)
  simp only [ne_eq, decide_not] at hf
  simp_all [add, remove]

end Registry

end Outbox
