import DiceFormula.Text.Digit

/-!
# Numerals

A numeral is a run of decimal digits, most significant first, read to its
value and written back in the basic figures. Neither direction takes more than
`limit` digits: leading zeros count when reading, the sign does not count when
writing.
-/

namespace DiceFormula.Numeral

/-- The most digits a numeral may have. -/
def limit : Nat := 4300

/-- The value of `ds` written after a numeral of value `n`. -/
def valueFrom (n : Nat) (ds : List Char) : Nat :=
  ds.foldl (fun n c => 10 * n + (digitValue? c).getD 0) n

/-- The value of a run of digits, whatever its length. -/
def value (ds : List Char) : Nat := valueFrom 0 ds

/-- On the digits of the basic block this is the core library's reading. -/
theorem valueFrom_eq_ofDigitChars (n : Nat) :
    ∀ ds : List Char, (∀ c ∈ ds, c.isDigit = true) → valueFrom n ds = Nat.ofDigitChars 10 ds n
  | [], _ => by simp [valueFrom]
  | c :: ds, h => by
    have hc := digitValue?_of_charIsDigit (h c List.mem_cons_self)
    have := valueFrom_eq_ofDigitChars (10 * n + (c.toNat - '0'.toNat)) ds
      fun d hd => h d (List.mem_cons_of_mem c hd)
    simpa [valueFrom, Nat.ofDigitChars_cons, hc] using this

/-- The value of `ds`, if there are at most `limit` of them. -/
def read? (ds : List Char) : Option Nat :=
  if ds.length ≤ limit then some (value ds) else none

theorem read?_eq_none_iff {ds : List Char} : read? ds = none ↔ limit < ds.length := by
  unfold read?
  split <;> simp <;> omega

theorem read?_of_length_le {ds : List Char} (h : ds.length ≤ limit) : read? ds = some (value ds) :=
  if_pos h

/-- `n` has at most `limit` digits. -/
def Writable (n : Int) : Prop := n.natAbs < Nat.pow 10 limit

instance (n : Int) : Decidable (Writable n) := inferInstanceAs (Decidable (_ < _))

/-- The decimal text of `n`, if it is `Writable`. -/
def write? (n : Int) : Option String :=
  if Writable n then some (toString n) else none

/-- The shortest numeral of `n`, without a leading zero. -/
def digits (n : Nat) : List Char := Nat.toDigits 10 n

theorem writable_natCast_iff {n : Nat} : Writable n ↔ (digits n).length ≤ limit := by
  unfold digits Writable
  rw [Nat.length_toDigits_le_iff (by decide) (by decide), Int.natAbs_natCast, Nat.pow_eq]

theorem value_digits (n : Nat) : value (digits n) = n := by
  have h : ∀ c ∈ digits n, c.isDigit = true := fun _ hc =>
    Nat.isDigit_of_mem_toDigits (by decide) (by decide) hc
  rw [value, valueFrom_eq_ofDigitChars 0 _ h]
  exact Nat.ofDigitChars_ten_toDigits

/-- The value of a numeral, behind a minus sign or without one. -/
def signedValue : List Char → Int
  | '-' :: ds => -(value ds : Int)
  | ds => value ds

theorem minus_not_mem_digits (n : Nat) : '-' ∉ digits n := fun h => by
  have hdigit := Nat.isDigit_of_mem_toDigits (by decide) (by decide) h
  revert hdigit
  decide

/-- `signedValue` undoes `toString`. -/
theorem signedValue_toString (n : Int) : signedValue (toString n).toList = n := by
  cases n with
  | ofNat n =>
    have htext : (toString (Int.ofNat n)).toList = digits n := String.toList_ofList
    rw [htext]
    unfold signedValue
    split
    · rename_i ds h
      exact absurd (h ▸ List.mem_cons_self) (minus_not_mem_digits n)
    · rw [value_digits]
      rfl
  | negSucc n =>
    have htext : (toString (Int.negSucc n)).toList = '-' :: digits (n + 1) :=
      String.toList_append.trans (congrArg ('-' :: ·) String.toList_ofList)
    rw [htext, signedValue, value_digits]
    rfl

end DiceFormula.Numeral
