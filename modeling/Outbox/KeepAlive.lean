/-! # The keep-alive count

Holds keep a worker from going idle. A release at zero changes nothing. The count is a machine
word: after 2^64 - 1 holds it starts again at zero. -/
namespace Outbox
set_option autoImplicit false

structure KeepAlive where
  count : UInt64 := 0
  deriving DecidableEq, Repr

namespace KeepAlive

def hold (k : KeepAlive) : KeepAlive := ⟨k.count + 1⟩

def release (k : KeepAlive) : KeepAlive :=
  if k.count = 0 then k else ⟨k.count - 1⟩

def isHeld (k : KeepAlive) : Bool := k.count != 0

theorem toNat_hold {k : KeepAlive} (h : k.count.toNat + 1 < UInt64.size) :
    k.hold.count.toNat = k.count.toNat + 1 := by
  rw [hold, UInt64.toNat_add, UInt64.toNat_one, Nat.mod_eq_of_lt h]

theorem toNat_release (k : KeepAlive) : k.release.count.toNat = k.count.toNat - 1 := by
  unfold release
  split
  · rename_i h
    simp [h]
  · rename_i h
    have hlt := k.count.toNat_lt
    have hpos : 1 ≤ k.count.toNat := by
      rcases Nat.eq_zero_or_pos k.count.toNat with h0 | h1
      · exact absurd (UInt64.toNat_inj.1 (by simpa using h0)) h
      · exact h1
    have hle : (1 : UInt64) ≤ k.count := by
      rw [UInt64.le_iff_toNat_le]
      simpa using hpos
    rw [UInt64.toNat_sub_of_le _ _ hle, UInt64.toNat_one]

theorem release_hold {k : KeepAlive} (h : k.count.toNat + 1 < UInt64.size) : k.hold.release = k := by
  have h1 := toNat_release k.hold
  rw [toNat_hold h] at h1
  have : k.hold.release.count = k.count := UInt64.toNat_inj.1 (by omega)
  cases hk : k.hold.release
  cases k
  simp_all

theorem isHeld_iff {k : KeepAlive} : k.isHeld = true ↔ 0 < k.count.toNat := by
  rw [isHeld, bne_iff_ne, Ne, ← UInt64.toNat_inj, Nat.pos_iff_ne_zero]
  rfl

theorem isHeld_of_release {k : KeepAlive} (h : k.release.isHeld = true) : k.isHeld = true := by
  have hpos := isHeld_iff.mp h
  rw [toNat_release] at hpos
  exact isHeld_iff.mpr (by omega)

end KeepAlive

end Outbox
