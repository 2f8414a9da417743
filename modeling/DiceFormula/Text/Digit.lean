/-!
# Decimal digits

The decimal digits of every script (Unicode 14). Each script sets its ten
digits in a row, zero first, so the code points of the zeros give the class
and the values: `c` is a digit of value `v` when it stands `v` places after a
zero, `v < 10`. Roman numerals, circled and raised figures are not digits.
-/

namespace DiceFormula

/-- The code points of the digits of value zero, in order. -/
def zeros : List Nat :=
  [0x30, 0x660, 0x6f0, 0x7c0, 0x966, 0x9e6, 0xa66, 0xae6, 0xb66, 0xbe6, 0xc66, 0xce6, 0xd66,
   0xde6, 0xe50, 0xed0, 0xf20, 0x1040, 0x1090, 0x17e0, 0x1810, 0x1946, 0x19d0, 0x1a80, 0x1a90,
   0x1b50, 0x1bb0, 0x1c40, 0x1c50, 0xa620, 0xa8d0, 0xa900, 0xa9d0, 0xa9f0, 0xaa50, 0xabf0, 0xff10,
   0x104a0, 0x10d30, 0x11066, 0x110f0, 0x11136, 0x111d0, 0x112f0, 0x11450, 0x114d0, 0x11650,
   0x116c0, 0x11730, 0x118e0, 0x11950, 0x11c50, 0x11d50, 0x11da0, 0x16a60, 0x16ac0, 0x16b50,
   0x1d7ce, 0x1d7d8, 0x1d7e2, 0x1d7ec, 0x1d7f6, 0x1e140, 0x1e2f0, 0x1e950, 0x1fbf0]

/-- The place of `c` in the row of ten that begins at `z`. -/
def placeFrom (c : Char) (z : Nat) : Option Nat :=
  if z ≤ c.toNat ∧ c.toNat < z + 10 then some (c.toNat - z) else none

/-- The value of a digit, `none` for any other character. -/
def digitValue? (c : Char) : Option Nat :=
  zeros.findSome? (placeFrom c)

def isDigit (c : Char) : Bool :=
  (digitValue? c).isSome

theorem placeFrom_eq_some {c : Char} {z v : Nat} (h : placeFrom c z = some v) :
    c.toNat = z + v ∧ v < 10 := by
  unfold placeFrom at h
  split at h
  · cases h
    omega
  · cases h

theorem digitValue?_eq_some {c : Char} {v : Nat} (h : digitValue? c = some v) :
    ∃ z ∈ zeros, c.toNat = z + v ∧ v < 10 := by
  obtain ⟨z, hz, hv⟩ := List.exists_of_findSome?_eq_some h
  exact ⟨z, hz, placeFrom_eq_some hv⟩

theorem digitValue?_lt {c : Char} {v : Nat} (h : digitValue? c = some v) : v < 10 := by
  obtain ⟨_, _, _, hv⟩ := digitValue?_eq_some h
  exact hv

theorem isDigit_iff {c : Char} : isDigit c = true ↔ ∃ v, digitValue? c = some v :=
  Option.isSome_iff_exists

/-- The digits of the basic block (`Char.isDigit`) have their usual values. -/
theorem digitValue?_of_charIsDigit {c : Char} (h : c.isDigit = true) :
    digitValue? c = some (c.toNat - '0'.toNat) := by
  simp only [Char.isDigit, Bool.and_eq_true, decide_eq_true_eq, UInt32.le_iff_toNat_le] at h
  change 48 ≤ c.toNat ∧ c.toNat ≤ 57 at h
  have hp : placeFrom c 0x30 = some (c.toNat - '0'.toNat) := by
    unfold placeFrom
    rw [if_pos ⟨by omega, by omega⟩]
    rfl
  unfold digitValue? zeros
  rw [List.findSome?_cons, hp]

theorem isDigit_of_charIsDigit {c : Char} (h : c.isDigit = true) : isDigit c = true :=
  isDigit_iff.2 ⟨_, digitValue?_of_charIsDigit h⟩

/-- The rows of ten do not overlap, so no character has two values. -/
theorem zeros_apart : zeros.Pairwise fun a b => a + 10 ≤ b := by
  decide

end DiceFormula
