import Outbox.Text.Unassigned
import Outbox.Text.Extending

/-! # Characters that cannot be seen by themselves

Those that print nothing (controls, format characters, fillers, separators other than the space),
those that no standard gives a shape (unassigned, private use), and the marks that are drawn on
the character before them. -/
namespace Outbox.Text
set_option autoImplicit false

/-- The general categories Cc, Cf, Zl, Zp, Co and Zs without the space, and the fillers, which are
letters to be ignored where they have no use. -/
def hiddenRanges : List (Nat × Nat) := [
  (0x0, 0x1F), (0x7F, 0xA0), (0xAD, 0xAD), (0x600, 0x605), (0x61C, 0x61C), (0x6DD, 0x6DD),
  (0x70F, 0x70F), (0x890, 0x891), (0x8E2, 0x8E2), (0x115F, 0x1160), (0x1680, 0x1680),
  (0x180E, 0x180E), (0x2000, 0x200F), (0x2028, 0x202F), (0x205F, 0x2064), (0x2066, 0x206F),
  (0x3000, 0x3000), (0x3164, 0x3164), (0xE000, 0xF8FF), (0xFEFF, 0xFEFF), (0xFFA0, 0xFFA0),
  (0xFFF9, 0xFFFB), (0x110BD, 0x110BD), (0x110CD, 0x110CD), (0x13430, 0x1343F), (0x1BCA0, 0x1BCA3),
  (0x1D173, 0x1D17A), (0xE0001, 0xE0001), (0xE0020, 0xE007F), (0xF0000, 0xFFFFD),
  (0x100000, 0x10FFFD)]

/-- A quoted text writes these as escapes, so that they can be seen. -/
def isInvisible (c : Char) : Bool :=
  covers hiddenRanges c.toNat || isExtending c || isUnassigned c

example : isInvisible ' ' = false ∧ isInvisible '\u00a0' = true := by decide +kernel
example : isInvisible '\u3164' = true ∧ isInvisible '\u2800' = false := by decide +kernel
example : isInvisible '\u0cc0' = true ∧ isInvisible '\uff9e' = false := by decide +kernel

end Outbox.Text
