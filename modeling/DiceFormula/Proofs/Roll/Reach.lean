import DiceFormula.Proofs.Roll.Causality
import DiceFormula.Proofs.Roll.Range
import DiceFormula.Proofs.Roll.Starving

/-!
# Which totals are rolled

Every face of a die is shown for some byte, and a total between the lowest and
the highest is shared out among the dice, each of which takes what the others
cannot. So the totals of a formula are all numbers from its lowest to its
highest total (`rolled_iff_mem_range`), and its average is one of them.
-/

namespace DiceFormula

namespace Roll

variable {α β : Type}

/-- `x` comes to `a` on some bytes, whatever follows them. -/
def Reaches (x : Roll α) (a : α) : Prop := ∃ drawn log, x.Draws drawn (.ok a) log

theorem reaches_pure (a : α) : Reaches (pure a) a := ⟨[], [], draws_nil (run_pure a)⟩

theorem Reaches.bind {x : Roll α} {f : α → Roll β} {a : α} {b : β} (hx : x.Reaches a)
    (hf : (f a).Reaches b) : (x >>= f).Reaches b := by
  obtain ⟨d, log, hd⟩ := hx
  obtain ⟨e, log', he⟩ := hf
  exact ⟨d ++ e, log ++ log', hd.bind he⟩

theorem Reaches.map {x : Roll α} {a : α} (hx : x.Reaches a) (f : α → β) :
    (f <$> x).Reaches (f a) := by
  rw [← bind_pure_comp]
  exact hx.bind (reaches_pure (f a))

theorem Reaches.exists_gives {x : Roll α} {a : α} (hx : x.Reaches a) :
    ∃ bytes, x.Gives bytes a [] := by
  obtain ⟨d, log, hd⟩ := hx
  have hrun := hd.run_append []
  rw [List.append_nil] at hrun
  exact ⟨d, by rw [hrun], by rw [hrun]⟩

/-- A byte below `span` is accepted and is its own remainder. -/
theorem reaches_remainder {span r : Nat} (lt : r < span) (le : span ≤ byteDomain) :
    (remainder span).Reaches r := by
  have hquot : 0 < byteDomain / span := Nat.div_pos le (by omega)
  have hspan : span ≤ acceptLimit span := Nat.le_mul_of_pos_left span hquot
  have hdraw : (remainder span).Draws [⟨r, Nat.lt_of_lt_of_le lt le⟩] (.ok (r % span)) [] :=
    draws_accept (Nat.lt_of_lt_of_le lt hspan)
  rw [Nat.mod_eq_of_lt lt] at hdraw
  exact ⟨_, _, hdraw⟩

theorem reaches_face {sides face : Int} (one_le : 1 ≤ face) (le : face ≤ sides)
    (hi : sides ≤ byteDomain) : (uniform 1 sides).Reaches face := by
  have hr : (remainder sides.toNat).Reaches (face - 1).toNat :=
    reaches_remainder (by omega) (by omega)
  have hface : 1 + ((face - 1).toNat : Int) = face := by omega
  rw [uniform_one (by omega) hi, ← hface]
  exact hr.map _

end Roll

open Roll

/-! ## Sharing out a total -/

/-- A sum within the sums of two pairs of bounds has summands within the bounds. -/
theorem exists_add_eq {lo hi lo' hi' t : Int} (le : lo ≤ hi) (le' : lo' ≤ hi')
    (ht : lo + lo' ≤ t ∧ t ≤ hi + hi') :
    ∃ a b, (lo ≤ a ∧ a ≤ hi) ∧ (lo' ≤ b ∧ b ≤ hi') ∧ a + b = t := by
  refine ⟨max lo (t - hi'), t - max lo (t - hi'), ?_, ?_, ?_⟩ <;> omega

theorem reaches_rollTimes {sides : Int} (lo : 1 ≤ sides) (hi : sides ≤ byteDomain) {n : Nat}
    {total : Int} (h : n ≤ total ∧ total ≤ n * sides) : (rollTimes sides n).Reaches total := by
  induction n generalizing total with
  | zero =>
    obtain rfl : total = 0 := by omega
    exact reaches_pure 0
  | succ n ih =>
    have hmul : (n : Int) ≤ n * sides := by
      simpa using Int.mul_le_mul_of_nonneg_left lo (Int.natCast_nonneg n)
    have hsplit : ((n + 1 : Nat) : Int) * sides = sides + n * sides := by
      rw [Int.natCast_add, Int.add_mul]
      omega
    rw [hsplit] at h
    obtain ⟨face, later, hface, hlater, rfl⟩ := exists_add_eq lo hmul ⟨by omega, h.2⟩
    exact (reaches_face hface.1 hface.2 hi).bind ((ih hlater).map (face + ·))

theorem Dice.reaches_roll {d : Dice} {total : Int} (hs : d.Sound .simulate)
    (h : d.count ≤ total ∧ total ≤ d.highest) : d.roll.Reaches total := by
  have hcount : (d.count.toNat : Int) = d.count := by have := hs.one_le_count; omega
  refine reaches_rollTimes hs.one_le_sides (hs.sides_le rfl) ?_
  rw [hcount]
  exact h

theorem Dice.count_le_highest {d : Dice} {mode : Mode} (hs : d.Sound mode) :
    d.count ≤ d.highest := by
  have := Dice.average_mem_range hs
  omega

/-- The first dice take what the others cannot. -/
theorem exists_reaches_mapM_roll {ds : List Dice} {total : Int}
    (hs : ∀ d ∈ ds, d.Sound .simulate)
    (h : (ds.map Dice.count).sum ≤ total ∧ total ≤ (ds.map Dice.highest).sum) :
    ∃ totals, (ds.mapM Dice.roll).Reaches totals ∧ totals.sum = total := by
  induction ds generalizing total with
  | nil =>
    obtain rfl : total = 0 := Int.le_antisymm h.2 h.1
    exact ⟨[], reaches_pure [], rfl⟩
  | cons d ds ih =>
    obtain ⟨hd, hds⟩ := List.forall_mem_cons.1 hs
    have hle : (ds.map Dice.count).sum ≤ (ds.map Dice.highest).sum :=
      List.sum_le_sum fun d hd => Dice.count_le_highest (hds d hd)
    simp only [List.map_cons, List.sum_cons] at h
    obtain ⟨first, later, hfirst, hlater, rfl⟩ := exists_add_eq (Dice.count_le_highest hd) hle h
    obtain ⟨totals, htotals, rfl⟩ := ih hds hlater
    refine ⟨first :: totals, ?_, rfl⟩
    rw [List.mapM_cons]
    exact (Dice.reaches_roll hd hfirst).bind (htotals.bind (reaches_pure _))

namespace Formula

variable {f : Formula}

theorem reaches_roll {total : Int} (hs : ∀ d ∈ f.dice, d.Sound .simulate)
    (h : f.lowest ≤ total ∧ total ≤ f.highest) : f.roll.Reaches total := by
  unfold lowest highest at h
  have hdice : (f.dice.map Dice.count).sum ≤ total - f.constants.sum ∧
      total - f.constants.sum ≤ (f.dice.map Dice.highest).sum := by omega
  obtain ⟨totals, htotals, hsum⟩ := exists_reaches_mapM_roll hs hdice
  have htotal : totals.sum + f.constants.sum = total := by omega
  rw [← htotal]
  exact htotals.map _

/-- The totals that `f` is rolled to are the numbers from `f.lowest` to `f.highest`, and `f.average`
is one of them. -/
theorem rolled_iff_mem_range {text : List Char} (h : read .simulate text = .ok f) :
    (∀ total, (∃ bytes rest, (evaluate .simulate text).Gives bytes total rest) ↔
        f.lowest ≤ total ∧ total ≤ f.highest) ∧
      (f.lowest ≤ f.average ∧ f.average ≤ f.highest) ∧
      ∃ bytes, f.roll.Gives bytes f.average [] := by
  have hs := sound_of_read h
  have haverage := average_mem_range hs
  refine ⟨fun total => ⟨?_, fun htotal => ?_⟩, haverage, (reaches_roll hs haverage).exists_gives⟩
  · rintro ⟨bytes, rest, htotal⟩
    obtain ⟨g, hg, hroll⟩ := gives_evaluate_iff.1 htotal
    obtain rfl : f = g := Except.ok.inj (h.symm.trans hg)
    exact roll_mem_range hs hroll
  · obtain ⟨bytes, hroll⟩ := (reaches_roll hs htotal).exists_gives
    exact ⟨bytes, [], gives_evaluate_iff.2 ⟨f, h, hroll⟩⟩

/-- Dice of two kinds and two constants: the totals are the numbers from 8 to 26. -/
theorem rolled_iff_mem_range_mixed :
    let text := ['2', 'd', '6', '+', '4', '+', '1', 'D', '9', '+', '0', '1']
    let f : Formula := ⟨[⟨2, 6⟩, ⟨1, 9⟩], [4, 1]⟩
    read .simulate text = .ok f ∧
      (∀ total, (∃ bytes rest, (evaluate .simulate text).Gives bytes total rest) ↔
        8 ≤ total ∧ total ≤ 26) ∧
      (f.lowest ≤ f.average ∧ f.average ≤ f.highest) ∧ ∃ bytes, f.roll.Gives bytes 17 [] := by
  intro text f
  have hread : read .simulate text = .ok f := by decide +kernel
  exact ⟨hread, rolled_iff_mem_range hread⟩

end Formula

end DiceFormula
