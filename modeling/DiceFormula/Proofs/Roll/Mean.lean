import DiceFormula.Proofs.Roll.Range
import Mathlib.Algebra.BigOperators.Group.Finset.Basic
import Mathlib.Algebra.BigOperators.Ring.Finset
import Mathlib.Data.Rat.Floor

/-!
# The mean of rolls

The average of dice is the exact mean of what rolling them comes to, rounded up,
over the streams of any one length that the roll uses up. The reason is a
symmetry: with every accepted byte replaced by its `mirror`, each die shows the
face opposite to the one it showed, and the same bytes are rejected. So streams
pair up, and two streams of a pair have the totals of a die that shows
`sides + 1` each time.
-/

namespace DiceFormula

/-! ## Mirrored bytes -/

/-- The accepted byte as far below `acceptLimit span` as `b` is above zero; a rejected byte stays.
-/
def mirror (span : Nat) (b : Byte) : Byte :=
  if b.val < acceptLimit span then
    ⟨acceptLimit span - 1 - b.val, by
      have h : acceptLimit span ≤ 256 := acceptLimit_le span
      omega⟩
  else b

theorem mirror_accept {span : Nat} {b : Byte} (h : b.val < acceptLimit span) :
    (mirror span b).val = acceptLimit span - 1 - b.val := by
  rw [mirror, if_pos h]

theorem mirror_reject {span : Nat} {b : Byte} (h : acceptLimit span ≤ b.val) :
    mirror span b = b :=
  if_neg (Nat.not_lt.2 h)

theorem mirror_mirror (span : Nat) (b : Byte) : mirror span (mirror span b) = b := by
  by_cases h : b.val < acceptLimit span
  · have hb := mirror_accept h
    have hlt : (mirror span b).val < acceptLimit span := by omega
    apply Fin.ext
    rw [mirror_accept hlt, hb]
    omega
  · have hle := Nat.le_of_not_lt h
    rw [mirror_reject hle, mirror_reject hle]

/-- `acceptLimit span` is a multiple of `span`, so the remainders are mirrored too. -/
theorem mirror_mod {span : Nat} {b : Byte} (h : b.val < acceptLimit span) :
    (mirror span b).val % span = span - 1 - b.val % span := by
  have hpos : 0 < span := by
    rcases Nat.eq_zero_or_pos span with rfl | hpos
    · rw [acceptLimit, Nat.mul_zero] at h
      omega
    · exact hpos
  have hdiv : b.val / span < byteDomain / span := (Nat.div_lt_iff_lt_mul hpos).2 h
  have hmod : b.val % span < span := Nat.mod_lt _ hpos
  have hsplit : span * (b.val / span) + b.val % span = b.val := Nat.div_add_mod _ _
  have hlimit : acceptLimit span =
      span * (byteDomain / span - 1 - b.val / span) + span * (b.val / span) + span :=
    calc acceptLimit span
        = span * (byteDomain / span) := Nat.mul_comm _ _
      _ = span * (byteDomain / span - 1 - b.val / span + b.val / span + 1) :=
        congrArg (span * ·) (by omega)
      _ = _ := by rw [Nat.mul_add, Nat.mul_add, Nat.mul_one]
  rw [mirror_accept h]
  have hvalue : acceptLimit span - 1 - b.val =
      span * (byteDomain / span - 1 - b.val / span) + (span - 1 - b.val % span) := by
    omega
  rw [hvalue, Nat.mul_add_mod]
  exact Nat.mod_eq_of_lt (by omega)

/-! ## Mirrored rolls -/

section

variable {bytes rest : List Byte}

theorem gives_remainder_mirror {span r : Nat} (h : (Roll.remainder span).Gives bytes r rest) :
    (Roll.remainder span).Gives (bytes.map (mirror span)) (span - 1 - r)
      (rest.map (mirror span)) := by
  induction bytes with
  | nil => cases h.1
  | cons b bytes ih =>
    rw [List.map_cons]
    by_cases hb : b.val < acceptLimit span
    · obtain ⟨rfl, rfl⟩ := (gives_remainder_accept hb).1 h
      have hlt : (mirror span b).val < acceptLimit span := by
        have := mirror_accept hb
        omega
      exact (gives_remainder_accept hlt).2 ⟨mirror_mod hb, rfl⟩
    · have hle := Nat.le_of_not_lt hb
      rw [mirror_reject hle]
      exact (gives_remainder_reject hle).2 (ih ((gives_remainder_reject hle).1 h))

variable {sides : Int} (lo : 1 ≤ sides) (hi : sides ≤ byteDomain)

include lo hi

/-- Opposite faces add up to `sides + 1`. -/
theorem gives_face_mirror {face : Int} (h : (Roll.uniform 1 sides).Gives bytes face rest) :
    (Roll.uniform 1 sides).Gives (bytes.map (mirror sides.toNat)) (sides + 1 - face)
      (rest.map (mirror sides.toNat)) := by
  obtain ⟨r, hr, rfl⟩ := (gives_face_iff lo hi).1 h
  have hlt := lt_of_gives_remainder (by omega) hr
  apply (gives_face_iff lo hi).2
  exact ⟨_, gives_remainder_mirror hr, by omega⟩

theorem gives_rollTimes_mirror {n : Nat} {total : Int}
    (h : (rollTimes sides n).Gives bytes total rest) :
    (rollTimes sides n).Gives (bytes.map (mirror sides.toNat)) (n * (sides + 1) - total)
      (rest.map (mirror sides.toNat)) := by
  induction n generalizing bytes total with
  | zero =>
    obtain ⟨rfl, rfl⟩ := Roll.gives_pure.1 h
    exact Roll.gives_pure.2 ⟨by simp, rfl⟩
  | succ n ih =>
    obtain ⟨face, mid, hface, hmap⟩ := Roll.gives_bind.1 h
    obtain ⟨later, hlater, rfl⟩ := Roll.gives_map.1 hmap
    have hadd : (sides + 1 - face) + (n * (sides + 1) - later) =
        ((n + 1 : Nat) : Int) * (sides + 1) - (face + later) := by
      rw [Int.natCast_add, Int.add_mul]
      omega
    apply Roll.gives_bind.2
    refine ⟨_, _, gives_face_mirror lo hi hface, ?_⟩
    exact Roll.gives_map.2 ⟨_, ih hlater, hadd⟩

/-- Zero is an accepted byte, and it shows a one. -/
theorem gives_rollTimes_zeros (n : Nat) :
    (rollTimes sides n).Gives (List.replicate n 0) n [] := by
  induction n with
  | zero => exact Roll.gives_pure.2 ⟨rfl, rfl⟩
  | succ n ih =>
    have hpos : (0 : Byte).val < acceptLimit sides.toNat := by
      have h : sides.toNat ≤ byteDomain := by omega
      have := half_lt_acceptLimit (by omega) h
      exact Nat.lt_trans (by decide) this
    have hdraw : (Roll.remainder sides.toNat).Gives (0 :: List.replicate n 0) 0
        (List.replicate n 0) :=
      (gives_remainder_accept hpos).2 ⟨Nat.zero_mod _, rfl⟩
    apply Roll.gives_bind.2
    refine ⟨1, List.replicate n 0, (gives_face_iff lo hi).2 ⟨0, hdraw, rfl⟩, ?_⟩
    exact Roll.gives_map.2 ⟨n, ih, by omega⟩

end

/-! ## Streams that a roll uses up -/

namespace Dice

/-- The total of dice that use up `bytes`. -/
def total? (d : Dice) (bytes : List Byte) : Option Int :=
  if (d.roll.run bytes).rest = [] then (d.roll.run bytes).result.toOption else none

/-- The streams of `n` bytes that rolling `d` uses up. -/
def exhausting (d : Dice) (n : Nat) : Finset (Fin n → Byte) :=
  Finset.univ.filter fun s => (d.total? (List.ofFn s)).isSome

/-- What `d` comes to on a stream that it uses up. -/
def totalOn (d : Dice) {n : Nat} (s : Fin n → Byte) : Int := (d.total? (List.ofFn s)).getD 0

theorem total?_eq_some_iff {d : Dice} {bytes : List Byte} {total : Int} :
    d.total? bytes = some total ↔ d.roll.Gives bytes total [] := by
  unfold total? Roll.Gives
  cases (d.roll.run bytes).result with
  | error why => simp [Except.toOption]
  | ok a => simp [Except.toOption, and_comm]

theorem mem_exhausting {d : Dice} {n : Nat} {s : Fin n → Byte} :
    s ∈ d.exhausting n ↔ ∃ total, d.roll.Gives (List.ofFn s) total [] := by
  rw [exhausting, Finset.mem_filter, Option.isSome_iff_exists]
  simp only [Finset.mem_univ, true_and, total?_eq_some_iff]

theorem gives_totalOn {d : Dice} {n : Nat} {s : Fin n → Byte} (h : s ∈ d.exhausting n) :
    d.roll.Gives (List.ofFn s) (d.totalOn s) [] := by
  obtain ⟨total, ht⟩ := mem_exhausting.1 h
  have htotal := total?_eq_some_iff.2 ht
  rw [totalOn, htotal]
  exact ht

theorem totalOn_eq {d : Dice} {n : Nat} {s : Fin n → Byte} {total : Int}
    (h : d.roll.Gives (List.ofFn s) total []) : d.totalOn s = total := by
  rw [totalOn, total?_eq_some_iff.2 h]
  rfl

theorem exhausting_count_nonempty {d : Dice} (lo : 1 ≤ d.sides) (hi : d.sides ≤ byteDomain) :
    (d.exhausting d.count.toNat).Nonempty := by
  have hzeros := gives_rollTimes_zeros lo hi d.count.toNat
  rw [← List.ofFn_const] at hzeros
  exact ⟨fun _ => 0, mem_exhausting.2 ⟨_, hzeros⟩⟩

section

variable {d : Dice} (hc : 0 ≤ d.count) (lo : 1 ≤ d.sides) (hi : d.sides ≤ byteDomain)

include hc lo hi

theorem gives_roll_mirror {n : Nat} {s : Fin n → Byte} (h : s ∈ d.exhausting n) :
    d.roll.Gives (List.ofFn (mirror d.sides.toNat ∘ s))
      (d.count * (d.sides + 1) - d.totalOn s) [] := by
  have hcount : (d.count.toNat : Int) = d.count := Int.toNat_of_nonneg hc
  have hmirror := gives_rollTimes_mirror lo hi (gives_totalOn h)
  rw [List.map_ofFn, hcount] at hmirror
  exact hmirror

/-- Each stream and its mirror image come to the same two together. -/
theorem sum_totalOn_mirror (n : Nat) :
    ∑ s ∈ d.exhausting n, d.totalOn s =
      ∑ s ∈ d.exhausting n, (d.count * (d.sides + 1) - d.totalOn s) := by
  refine Finset.sum_nbij' (fun s => mirror d.sides.toNat ∘ s) (fun s => mirror d.sides.toNat ∘ s)
    ?_ ?_ ?_ ?_ ?_
  · exact fun s hs => mem_exhausting.2 ⟨_, gives_roll_mirror hc lo hi hs⟩
  · exact fun s hs => mem_exhausting.2 ⟨_, gives_roll_mirror hc lo hi hs⟩
  · exact fun s _ => funext fun i => mirror_mirror _ _
  · exact fun s _ => funext fun i => mirror_mirror _ _
  · intro s hs
    rw [totalOn_eq (gives_roll_mirror hc lo hi hs)]
    omega

theorem two_mul_sum_totalOn (n : Nat) :
    2 * ∑ s ∈ d.exhausting n, d.totalOn s =
      d.count * (d.sides + 1) * (d.exhausting n).card := by
  have h := sum_totalOn_mirror hc lo hi n
  rw [Finset.sum_sub_distrib, Finset.sum_const, nsmul_eq_mul] at h
  have hcomm : (d.count * (d.sides + 1)) * ((d.exhausting n).card : Int) =
      (d.exhausting n).card * (d.count * (d.sides + 1)) := Int.mul_comm _ _
  omega

end

theorem average_eq_ceil (d : Dice) :
    d.average = ⌈((d.count * (d.sides + 1) : Int) : ℚ) / 2⌉ := by
  have h := Rat.ceil_intCast_div_natCast (d.count * (d.sides + 1)) 2
  rw [Nat.cast_two] at h
  rw [h, average]
  omega

/-- Over the streams of `n` bytes that rolling `d` uses up, the totals have a mean of
`d.count * (d.sides + 1) / 2`, which `d.average` rounds up. Some stream of `d.count` bytes is used
up. -/
theorem average_eq_ceil_mean {d : Dice} (hc : 0 ≤ d.count) (lo : 1 ≤ d.sides)
    (hi : d.sides ≤ byteDomain) (n : Nat) :
    2 * ∑ s ∈ d.exhausting n, d.totalOn s =
        d.count * (d.sides + 1) * (d.exhausting n).card ∧
      ((d.exhausting n).Nonempty →
        d.average =
          ⌈((∑ s ∈ d.exhausting n, d.totalOn s : Int) : ℚ) / ((d.exhausting n).card : ℚ)⌉) ∧
      (d.exhausting d.count.toNat).Nonempty := by
  have hsum := two_mul_sum_totalOn hc lo hi n
  refine ⟨hsum, fun hne => ?_, exhausting_count_nonempty lo hi⟩
  have hcard : ((d.exhausting n).card : ℚ) ≠ 0 := Nat.cast_ne_zero.2 (Finset.card_ne_zero.2 hne)
  have hmean : ((∑ s ∈ d.exhausting n, d.totalOn s : Int) : ℚ) / ((d.exhausting n).card : ℚ) =
      ((d.count * (d.sides + 1) : Int) : ℚ) / 2 := by
    have hcast := congrArg (fun z : Int => (z : ℚ)) hsum
    push_cast at hcast ⊢
    rw [div_eq_div_iff hcard two_ne_zero]
    linarith
  rw [hmean, average_eq_ceil]

theorem average_eq_ceil_mean_percentile :
    let d : Dice := ⟨3, 100⟩
    0 ≤ d.count ∧ 1 ≤ d.sides ∧ d.sides ≤ byteDomain ∧
      2 * ∑ s ∈ d.exhausting 4, d.totalOn s =
        d.count * (d.sides + 1) * (d.exhausting 4).card ∧
      ((d.exhausting 4).Nonempty →
        d.average =
          ⌈((∑ s ∈ d.exhausting 4, d.totalOn s : Int) : ℚ) / ((d.exhausting 4).card : ℚ)⌉) ∧
      (d.exhausting d.count.toNat).Nonempty := by
  intro d
  have hc : 0 ≤ d.count := by decide
  have lo : 1 ≤ d.sides := by decide
  have hi : d.sides ≤ byteDomain := by decide
  exact ⟨hc, lo, hi, average_eq_ceil_mean hc lo hi 4⟩

end Dice

end DiceFormula
