import DiceFormula.Proofs.Roll.Singles
import DiceFormula.Proofs.Roll.Uniformity

/-!
# Enough bytes

Every die accepts the low bytes, whatever its sides are, since the limit of a
span lies above them (`half_lt_acceptLimit`). So a stream with a low byte for
each single die is enough, however many bytes are rejected in between, and the
roll does not go on behind the last of these low bytes (`gives_roll_of_lows`).
-/

namespace DiceFormula

/-- How many bytes are low, accepted by dice of any sides. -/
def lows (bytes : List Byte) : Nat := bytes.countP fun b => b.val ≤ 128

theorem lows_cons_of_low {b : Byte} (h : b.val ≤ 128) (bytes : List Byte) :
    lows (b :: bytes) = lows bytes + 1 :=
  List.countP_cons_of_pos (by simpa using h)

theorem lows_cons_of_high {b : Byte} (h : 128 < b.val) (bytes : List Byte) :
    lows (b :: bytes) = lows bytes :=
  List.countP_cons_of_neg (by simpa using h)

theorem lows_cons_le (b : Byte) (bytes : List Byte) : lows (b :: bytes) ≤ lows bytes + 1 := by
  rcases Nat.lt_or_ge 128 b.val with h | h
  · rw [lows_cons_of_high h]
    exact Nat.le_succ _
  · exact Nat.le_of_eq (lows_cons_of_low h bytes)

namespace Roll

variable {α β : Type}

/-- With `n` low bytes in front `x` comes to a value. It draws nothing behind the front, and `n` low
bytes of it at most. -/
def FedBy (n : Nat) (x : Roll α) : Prop :=
  ∀ front back, n ≤ lows front →
    ∃ a left, x.Gives (front ++ back) a (left ++ back) ∧ lows front ≤ n + lows left

theorem fedBy_pure (a : α) : FedBy 0 (pure a) := fun front _ _ =>
  ⟨a, front, gives_pure.2 ⟨rfl, rfl⟩, by omega⟩

/-- The low bytes that `x` has left feed the next roll. -/
theorem FedBy.bind {m n : Nat} {x : Roll α} {f : α → Roll β} (hx : FedBy m x)
    (hf : ∀ a, FedBy n (f a)) : FedBy (m + n) (x >>= f) := by
  intro front back enough
  obtain ⟨a, mid, ha, hspent⟩ := hx front back (by omega)
  obtain ⟨b, left, hb, hspent'⟩ := hf a mid back (by omega)
  exact ⟨b, left, gives_bind.2 ⟨a, _, ha, hb⟩, by omega⟩

theorem FedBy.map {n : Nat} {x : Roll α} (hx : FedBy n x) (g : α → β) : FedBy n (g <$> x) := by
  rw [← bind_pure_comp]
  exact hx.bind fun a => fedBy_pure (g a)

/-- A draw passes over bytes that are rejected, none of which is low. -/
theorem fedBy_remainder {span : Nat} (pos : 0 < span) (le : span ≤ byteDomain) :
    FedBy 1 (remainder span) := by
  have hlimit := half_lt_acceptLimit pos le
  intro front back enough
  induction front with
  | nil => exact absurd enough (by decide)
  | cons b front ih =>
    by_cases hb : b.val < acceptLimit span
    · refine ⟨b.val % span, front, (gives_remainder_accept hb).2 ⟨rfl, rfl⟩, ?_⟩
      have := lows_cons_le b front
      omega
    · have hle := Nat.le_of_not_lt hb
      rw [lows_cons_of_high (by omega)] at enough ⊢
      obtain ⟨r, left, hr, hspent⟩ := ih enough
      exact ⟨r, left, (gives_remainder_reject hle).2 hr, hspent⟩

theorem fedBy_uniform {sides : Int} (lo : 1 ≤ sides) (hi : sides ≤ byteDomain) :
    FedBy 1 (uniform 1 sides) := by
  rw [uniform_one lo hi]
  exact (fedBy_remainder (by omega) (by omega)).map _

end Roll

open Roll

theorem fedBy_rollEach {sides : List Int} (h : ∀ s ∈ sides, 1 ≤ s ∧ s ≤ byteDomain) :
    FedBy sides.length (rollEach sides) := by
  unfold rollEach
  induction sides with
  | nil => exact fedBy_pure []
  | cons s sides ih =>
    obtain ⟨⟨lo, hi⟩, hsides⟩ := List.forall_mem_cons.1 h
    have hfed := (fedBy_uniform lo hi).bind fun face => (ih hsides).map (face :: ·)
    rw [List.mapM_cons, List.length_cons, Nat.add_comm]
    simpa only [bind_pure_comp] using hfed

namespace Formula

variable {f : Formula}

theorem mem_singles {s : Int} (h : s ∈ f.singles) : ∃ d ∈ f.dice, s = d.sides := by
  obtain ⟨d, hd, hs⟩ := List.mem_flatMap.1 h
  exact ⟨d, hd, List.eq_of_mem_replicate hs⟩

theorem fedBy_roll (h : ∀ d ∈ f.dice, 1 ≤ d.sides ∧ d.sides ≤ byteDomain) :
    FedBy f.singles.length f.roll := by
  rw [roll_eq]
  refine (fedBy_rollEach fun s hs => ?_).map _
  obtain ⟨d, hd, rfl⟩ := mem_singles hs
  exact h d hd

/-- `f` is rolled on every stream with as many low bytes as there are dice. It draws nothing behind
a `front` that has so many. -/
theorem gives_roll_of_lows {bytes : List Byte} (nonneg : ∀ d ∈ f.dice, 0 ≤ d.count)
    (sides : ∀ d ∈ f.dice, 1 ≤ d.sides ∧ d.sides ≤ byteDomain)
    (enough : (f.dice.map Dice.count).sum ≤ lows bytes) :
    ∃ total rest, f.roll.Gives bytes total rest ∧
      ∀ front, front <+: bytes → (f.dice.map Dice.count).sum ≤ lows front →
        f.roll.used bytes ≤ front.length := by
  have hfed := fedBy_roll sides
  rw [← length_singles nonneg] at enough ⊢
  obtain ⟨total, rest, hgives, -⟩ := hfed bytes [] (by omega)
  rw [List.append_nil, List.append_nil] at hgives
  refine ⟨total, rest, hgives, ?_⟩
  rintro front ⟨back, rfl⟩ hfront
  obtain ⟨total', left, hgives', -⟩ := hfed front back (by omega)
  rw [used, hgives'.2]
  simp only [List.length_append]
  omega

/-- A percentile die and a die of 129 sides, which rejects most bytes that are not low. The second
low byte is the last one drawn. -/
theorem gives_roll_of_lows_rejecting :
    let f : Formula := ⟨[⟨1, 100⟩, ⟨0, 6⟩, ⟨1, 129⟩], [5]⟩
    let front : List Byte := [201, 0, 255, 130, 128]
    let bytes : List Byte := front ++ [7, 255]
    (∀ d ∈ f.dice, 0 ≤ d.count) ∧ (∀ d ∈ f.dice, 1 ≤ d.sides ∧ d.sides ≤ byteDomain) ∧
      (f.dice.map Dice.count).sum = 2 ∧ lows bytes = 3 ∧ lows front = 2 ∧
      ∃ total rest, f.roll.Gives bytes total rest ∧ f.roll.used bytes ≤ 5 := by
  intro f front bytes
  have hnonneg : ∀ d ∈ f.dice, 0 ≤ d.count := by decide
  have hsides : ∀ d ∈ f.dice, 1 ≤ d.sides ∧ d.sides ≤ byteDomain := by decide
  have hcount : (f.dice.map Dice.count).sum = 2 := by decide
  have hlows : lows bytes = 3 := by decide
  have hfront : lows front = 2 := by decide
  have henough : (f.dice.map Dice.count).sum ≤ lows bytes := by
    rw [hcount, hlows]
    decide
  obtain ⟨total, rest, hgives, hused⟩ := gives_roll_of_lows hnonneg hsides henough
  refine ⟨hnonneg, hsides, hcount, hlows, hfront, total, rest, hgives, ?_⟩
  exact hused front (List.prefix_append _ _) (by rw [hcount, hfront]; decide)

end Formula

end DiceFormula
