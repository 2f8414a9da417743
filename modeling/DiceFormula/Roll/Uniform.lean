import DiceFormula.Roll.Basic
import DiceFormula.Text.Numeral

/-!
# Uniform draws

A number of a range is drawn from single bytes without favour: a byte at or
above the largest multiple of the span that fits into a byte is rejected and
the next one is tried, so every value is the remainder of equally many bytes.
-/

namespace DiceFormula

/-- The largest multiple of `span` that is at most `byteDomain`. -/
def acceptLimit (span : Nat) : Nat := byteDomain / span * span

theorem acceptLimit_le (span : Nat) : acceptLimit span ≤ byteDomain :=
  Nat.div_mul_le_self byteDomain span

theorem half_lt_acceptLimit {span : Nat} (pos : 0 < span) (le : span ≤ byteDomain) :
    128 < acceptLimit span := by
  have hd := Nat.div_add_mod byteDomain span
  have hm := Nat.mod_lt byteDomain pos
  have hq : 1 ≤ byteDomain / span := (Nat.one_le_div_iff pos).2 le
  have hs : span ≤ acceptLimit span := Nat.le_mul_of_pos_left span hq
  unfold acceptLimit at *
  rw [Nat.mul_comm] at hd
  unfold byteDomain at *
  omega

namespace Roll

/-- The remainder by `span` of the first byte below `acceptLimit span`. -/
def remainderRun (span : Nat) : List Byte → Run Nat
  | [] => ⟨.error .outOfBytes, [], []⟩
  | b :: bytes =>
    if b.val < acceptLimit span then ⟨.ok (b.val % span), bytes, []⟩
    else
      let next := remainderRun span bytes
      { next with log := .rejectedByte b.val span :: next.log }

def remainder (span : Nat) : Roll Nat := ⟨remainderRun span⟩

@[simp] theorem run_remainder_nil (span : Nat) :
    (remainder span).run [] = ⟨.error .outOfBytes, [], []⟩ := rfl

theorem run_remainder_accept {span : Nat} {b : Byte} (h : b.val < acceptLimit span)
    (bytes : List Byte) : (remainder span).run (b :: bytes) = ⟨.ok (b.val % span), bytes, []⟩ :=
  if_pos h

theorem run_remainder_reject {span : Nat} {b : Byte} (h : acceptLimit span ≤ b.val)
    (bytes : List Byte) :
    (remainder span).run (b :: bytes) =
      ⟨((remainder span).run bytes).result, ((remainder span).run bytes).rest,
        .rejectedByte b.val span :: ((remainder span).run bytes).log⟩ :=
  if_neg (Nat.not_lt.2 h)

/-- A number from `minimum` to `maximum`. The range must hold between one value and `byteDomain` of
them; the refusal names its bounds, if they are `Writable`. -/
def uniform (minimum maximum : Int) : Roll Int :=
  let span := maximum - minimum + 1
  if 1 ≤ span ∧ span ≤ byteDomain then
    (fun r : Nat => minimum + r) <$> remainder span.toNat
  else if Numeral.Writable minimum ∧ Numeral.Writable maximum then
    fail (.refused (.invalidRange minimum maximum))
  else fail .unwritable

theorem uniform_of_span {minimum maximum : Int} (lo : 1 ≤ maximum - minimum + 1)
    (hi : maximum - minimum + 1 ≤ byteDomain) :
    uniform minimum maximum =
      (fun r : Nat => minimum + r) <$> remainder (maximum - minimum + 1).toNat :=
  if_pos ⟨lo, hi⟩

/-- The face of a die of `sides` sides. -/
theorem uniform_one {sides : Int} (lo : 1 ≤ sides) (hi : sides ≤ byteDomain) :
    uniform 1 sides = (fun r : Nat => 1 + (r : Int)) <$> remainder sides.toNat := by
  have hspan : sides - 1 + 1 = sides := by omega
  rw [uniform_of_span (by omega) (by omega), hspan]

/-- A range that holds no value or too many fails without a draw. -/
theorem uniform_of_not_span {minimum maximum : Int}
    (h : ¬ (1 ≤ maximum - minimum + 1 ∧ maximum - minimum + 1 ≤ byteDomain)) :
    uniform minimum maximum =
      if Numeral.Writable minimum ∧ Numeral.Writable maximum then
        fail (.refused (.invalidRange minimum maximum))
      else fail .unwritable :=
  if_neg h

end Roll

end DiceFormula
