import DiceFormula.Proofs.Roll.Uniformity
import DiceFormula.Proofs.Text.Cutting

/-!
# One draw

What a draw from a range makes of a stream, for any bounds. A range that holds
no value or too many fails before it draws. Any other range takes the first
byte below the limit, with all bytes before it rejected, or runs out of bytes
(`run_uniform_cases`); and as many bytes stand for each value of it.
-/

namespace DiceFormula

/-! ## Bounds that can be written -/

namespace Numeral

theorem writable_iff_length_digits {n : Int} :
    Writable n ↔ (digits n.natAbs).length ≤ limit := by
  rw [← writable_natCast_iff]
  unfold Writable
  rw [Int.natAbs_natCast]

end Numeral

theorem DiceError.message_invalidRange (minimum maximum : Int) :
    "[INVALID_RANGE]".toList <+: (DiceError.invalidRange minimum maximum).message.toList := by
  unfold message
  simp only [String.toList_append, List.append_assoc]
  have hcode : "[INVALID_RANGE]".toList <+: "[INVALID_RANGE] Cannot draw from [".toList := by decide
  exact hcode.trans (List.prefix_append _ _)

/-! ## The limit -/

theorem acceptLimit_greatest (span : Nat) :
    span ∣ acceptLimit span ∧ acceptLimit span ≤ byteDomain ∧
      ∀ m, span ∣ m → m ≤ byteDomain → m ≤ acceptLimit span := by
  refine ⟨Nat.dvd_mul_left span (byteDomain / span), acceptLimit_le span, ?_⟩
  rintro m ⟨q, rfl⟩ hle
  rcases Nat.eq_zero_or_pos span with rfl | hpos
  · rw [Nat.zero_mul]
    exact Nat.zero_le _
  · have hq : q ≤ byteDomain / span := (Nat.le_div_iff_mul_le hpos).2 (by rwa [Nat.mul_comm])
    rw [Nat.mul_comm]
    exact Nat.mul_le_mul_right span hq

namespace Roll

/-! ## The first byte below the limit -/

/-- What is reported of rejected `bytes`. -/
def rejections (span : Nat) (bytes : List Byte) : List Event :=
  bytes.map fun b => .rejectedByte b.val span

/-- All `bytes` are too high, or `b` is the first that is not. -/
theorem stream_cases (limit : Nat) (bytes : List Byte) :
    (∀ c ∈ bytes, limit ≤ c.val) ∨
      ∃ before b after, bytes = before ++ b :: after ∧ (∀ c ∈ before, limit ≤ c.val) ∧
        b.val < limit := by
  rcases split_cases (fun b : Byte => decide (b.val < limit)) bytes with
    high | ⟨before, b, after, rfl, high, low⟩
  · exact .inl fun c hc => Nat.le_of_not_lt (of_decide_eq_false (high c hc))
  · exact .inr ⟨before, b, after, rfl,
      fun c hc => Nat.le_of_not_lt (of_decide_eq_false (high c hc)), of_decide_eq_true low⟩

theorem run_remainder_first {span : Nat} {before : List Byte} {b : Byte}
    (high : ∀ c ∈ before, acceptLimit span ≤ c.val) (low : b.val < acceptLimit span)
    (after : List Byte) :
    (remainder span).run (before ++ b :: after) =
      ⟨.ok (b.val % span), after, rejections span before⟩ := by
  induction before with
  | nil => exact run_remainder_accept low after
  | cons c before ih =>
    obtain ⟨hc, hbefore⟩ := List.forall_mem_cons.1 high
    rw [List.cons_append, run_remainder_reject hc, ih hbefore]
    rfl

theorem run_remainder_high {span : Nat} {bytes : List Byte}
    (high : ∀ c ∈ bytes, acceptLimit span ≤ c.val) :
    (remainder span).run bytes = ⟨.error .outOfBytes, [], rejections span bytes⟩ := by
  induction bytes with
  | nil => rfl
  | cons c bytes ih =>
    obtain ⟨hc, hbytes⟩ := List.forall_mem_cons.1 high
    rw [run_remainder_reject hc, ih hbytes]
    rfl

/-! ## A range -/

section

variable {minimum maximum : Int}

theorem run_uniform_of_not_span
    (h : ¬ (1 ≤ maximum - minimum + 1 ∧ maximum - minimum + 1 ≤ byteDomain)) (bytes : List Byte) :
    (uniform minimum maximum).run bytes =
      ⟨.error (if Numeral.Writable minimum ∧ Numeral.Writable maximum then
        .refused (.invalidRange minimum maximum) else .unwritable), bytes, []⟩ := by
  rw [uniform_of_not_span h]
  split <;> rfl

theorem run_uniform_of_span (lo : 1 ≤ maximum - minimum + 1)
    (hi : maximum - minimum + 1 ≤ byteDomain) (bytes : List Byte) :
    let span := (maximum - minimum + 1).toNat
    ((∀ c ∈ bytes, acceptLimit span ≤ c.val) ∧
        (uniform minimum maximum).run bytes =
          ⟨.error .outOfBytes, [], rejections span bytes⟩) ∨
      ∃ before b after, bytes = before ++ b :: after ∧ (∀ c ∈ before, acceptLimit span ≤ c.val) ∧
        b.val < acceptLimit span ∧
        (uniform minimum maximum).run bytes =
          ⟨.ok (minimum + (b.val % span : Nat)), after, rejections span before⟩ := by
  intro span
  rw [uniform_of_span lo hi]
  rcases stream_cases (acceptLimit span) bytes with high | ⟨before, b, after, rfl, high, low⟩
  · refine .inl ⟨high, ?_⟩
    rw [run_map, run_remainder_high high]
    rfl
  · refine .inr ⟨before, b, after, rfl, high, low, ?_⟩
    rw [run_map, run_remainder_first high low]
    rfl

theorem card_bytes_of_value {v : Int} (le : minimum ≤ v) (le' : v ≤ maximum) :
    let span := (maximum - minimum + 1).toNat
    (Finset.univ.filter fun b : Byte =>
      b.val < acceptLimit span ∧ minimum + (b.val % span : Nat) = v).card = byteDomain / span := by
  intro span
  have hv : ∀ b : Byte, minimum + (b.val % span : Nat) = v ↔ b.val % span = (v - minimum).toNat :=
    fun b => by omega
  simp only [hv]
  exact card_accepted (by omega)

end

/-- A `span` below one or above `byteDomain` fails without a draw. Any other takes the first byte
below `limit`, its largest multiple, and gives the remainder, counted up from `minimum`; as many
bytes below `limit` give each `v` of the range. -/
theorem run_uniform_cases (minimum maximum : Int) (bytes : List Byte) :
    let span := maximum - minimum + 1
    let limit := acceptLimit span.toNat
    (span < 1 ∨ byteDomain < span →
      (uniform minimum maximum).run bytes =
          ⟨.error (if (Numeral.digits minimum.natAbs).length ≤ Numeral.limit ∧
              (Numeral.digits maximum.natAbs).length ≤ Numeral.limit then
            .refused (.invalidRange minimum maximum) else .unwritable), bytes, []⟩ ∧
        "[INVALID_RANGE]".toList <+: (DiceError.invalidRange minimum maximum).message.toList) ∧
    (1 ≤ span ∧ span ≤ byteDomain →
      (span.toNat ∣ limit ∧ limit ≤ byteDomain ∧
        ∀ m, span.toNat ∣ m → m ≤ byteDomain → m ≤ limit) ∧
      (((∀ c ∈ bytes, limit ≤ c.val) ∧
          (uniform minimum maximum).run bytes =
            ⟨.error .outOfBytes, [], rejections span.toNat bytes⟩) ∨
        ∃ before b after, bytes = before ++ b :: after ∧ (∀ c ∈ before, limit ≤ c.val) ∧
          b.val < limit ∧
          (uniform minimum maximum).run bytes =
            ⟨.ok (minimum + b.val % span), after, rejections span.toNat before⟩ ∧
          minimum ≤ minimum + b.val % span ∧ minimum + b.val % span ≤ maximum) ∧
      ∀ v, minimum ≤ v → v ≤ maximum →
        (Finset.univ.filter fun b : Byte =>
          b.val < limit ∧ minimum + b.val % span = v).card = byteDomain / span.toNat) := by
  intro span limit
  refine ⟨fun h => ?_, ?_⟩
  · simp only [← Numeral.writable_iff_length_digits]
    exact ⟨run_uniform_of_not_span (by omega) bytes, DiceError.message_invalidRange minimum maximum⟩
  · rintro ⟨lo, hi⟩
    have hmod : ∀ b : Byte, (b.val : Int) % span = (b.val % span.toNat : Nat) := fun b => by
      rw [Int.natCast_mod, Int.toNat_of_nonneg (by omega)]
    simp only [hmod]
    refine ⟨acceptLimit_greatest span.toNat, ?_, fun v => card_bytes_of_value⟩
    refine (run_uniform_of_span lo hi bytes).imp_right ?_
    rintro ⟨before, b, after, hbytes, high, low, hrun⟩
    have hlt : b.val % span.toNat < span.toNat := Nat.mod_lt _ (by omega)
    exact ⟨before, b, after, hbytes, high, low, hrun, by omega, by omega⟩

/-- A range around zero and two rejected bytes, and a range without a value. -/
theorem run_uniform_cases_around_zero :
    let bytes : List Byte := [255, 252, 7, 9]
    acceptLimit 6 = 252 ∧ (1 ≤ (4 : Int) - -1 + 1 ∧ (4 : Int) - -1 + 1 ≤ byteDomain) ∧
      (∃ before b after, bytes = before ++ b :: after ∧ (∀ c ∈ before, 252 ≤ c.val) ∧
        b.val < 252 ∧
        (uniform (-1) 4).run bytes = ⟨.ok (-1 + b.val % 6), after, rejections 6 before⟩) ∧
      (Finset.univ.filter fun b : Byte => b.val < 252 ∧ (-1 : Int) + b.val % 6 = 3).card = 42 ∧
      (uniform 6 1).run bytes = ⟨.error (.refused (.invalidRange 6 1)), bytes, []⟩ := by
  intro bytes
  have hlimit : acceptLimit 6 = 252 := by decide
  have hspan : 1 ≤ (4 : Int) - -1 + 1 ∧ (4 : Int) - -1 + 1 ≤ byteDomain := by decide
  have hdigits : (Numeral.digits 6).length ≤ Numeral.limit ∧
      (Numeral.digits 1).length ≤ Numeral.limit := by decide +kernel
  obtain ⟨-, hruns, hcard⟩ := (run_uniform_cases (-1) 4 bytes).2 hspan
  have hrefused := ((run_uniform_cases 6 1 bytes).1 (.inl (by decide))).1
  rcases hruns with ⟨high, -⟩ | ⟨before, b, after, hbytes, high, low, hrun, -⟩
  · exact absurd (high 7 (by decide)) (by decide)
  · refine ⟨hlimit, hspan, ⟨before, b, after, hbytes, high, low, hrun⟩,
      hcard 3 (by decide) (by decide), ?_⟩
    rw [hrefused]
    exact congrArg (fun why => Run.mk (.error why) bytes []) (if_pos hdigits)

end Roll

end DiceFormula
