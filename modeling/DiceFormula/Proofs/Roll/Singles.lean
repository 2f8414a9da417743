import DiceFormula.Proofs.Formula.Sums
import DiceFormula.Proofs.Formula.Written

/-!
# Dice one by one

A formula is rolled as the sequence of its single dice, each with its sides,
and it makes no difference which of them were written together (`roll_eq`). So
formulas with the same single dice, in order, and with constants of one sum are
one roll; and a die of `a + b` is the same roll as a die of `a` and a die of `b`
(`run_roll_eq_of_singles`).
-/

namespace DiceFormula

/-- The sides of each die that is rolled. Dice that number none or fewer are not rolled. -/
def Dice.singles (d : Dice) : List Int := List.replicate d.count.toNat d.sides

def Formula.singles (f : Formula) : List Int := f.dice.flatMap Dice.singles

/-- The faces of dice that are rolled one after the other. -/
def rollEach (sides : List Int) : Roll (List Int) := sides.mapM (Roll.uniform 1)

/-! ## Rolls as sequences of single dice -/

theorem rollTimes_eq (sides : Int) (n : Nat) :
    rollTimes sides n = List.sum <$> rollEach (List.replicate n sides) := by
  unfold rollEach
  induction n with
  | zero => rfl
  | succ n ih =>
    rw [rollTimes, ih, List.replicate_succ, List.mapM_cons]
    simp only [map_bind, Functor.map_map, bind_pure_comp, List.sum_cons]

theorem sum_mapM_roll (ds : List Dice) :
    List.sum <$> ds.mapM Dice.roll = List.sum <$> rollEach (ds.flatMap Dice.singles) := by
  induction ds with
  | nil => rfl
  | cons d ds ih =>
    have hd : d.roll = List.sum <$> rollEach d.singles := rollTimes_eq d.sides d.count.toNat
    have hlater : ∀ m : Int, (fun totals => m + totals.sum) <$> ds.mapM Dice.roll =
        (fun faces => m + faces.sum) <$> rollEach (ds.flatMap Dice.singles) := by
      intro m
      have := congrArg ((m + ·) <$> ·) ih
      simpa only [Functor.map_map] using this
    unfold rollEach at *
    rw [List.mapM_cons, List.flatMap_cons, List.mapM_append, hd]
    simp only [map_bind, Functor.map_map, bind_pure_comp, bind_map_left, List.sum_cons,
      List.sum_append, hlater]

namespace Formula

/-- A formula rolls its single dice and adds its constants. -/
theorem roll_eq (f : Formula) :
    f.roll = (fun faces => faces.sum + f.constants.sum) <$> rollEach f.singles := by
  have h := congrArg ((· + f.constants.sum) <$> ·) (sum_mapM_roll f.dice)
  simp only [Functor.map_map] at h
  exact h

theorem roll_eq_of_singles {f g : Formula} (singles : f.singles = g.singles)
    (constants : f.constants.sum = g.constants.sum) : f.roll = g.roll := by
  rw [roll_eq, roll_eq, singles, constants]

theorem length_singles {f : Formula} (nonneg : ∀ d ∈ f.dice, 0 ≤ d.count) :
    (f.singles.length : Int) = (f.dice.map Dice.count).sum := by
  refine Dice.length_flatMap fun d hd => ?_
  rw [Dice.singles, List.length_replicate]
  exact Int.toNat_of_nonneg (nonneg d hd)

end Formula

/-! ## Dice that are written together or apart -/

/-- The text of `count` dice of `sides` sides, in the basic figures. -/
def dieText (count sides : Nat) : List Char := Numeral.digits count ++ 'd' :: Numeral.digits sides

open Summand

section

variable {sides : Nat} (one_le : 1 ≤ sides) (le : sides ≤ byteDomain)

include one_le le

theorem exists_die {count : Nat} (pos : 1 ≤ count) (short : Numeral.Writable count) :
    ∃ s : Summand, s.isDie = true ∧ s.text = dieText count sides ∧ s.constant? = none ∧
      s.dice? .simulate = some ⟨count, sides⟩ ∧ (⟨count, sides⟩ : Dice).Sound .simulate := by
  have hsides : Numeral.Writable sides := by
    have hlength : (Numeral.digits sides).length ≤ 3 := by
      refine (Nat.length_toDigits_le_iff (by decide) (by decide)).2 ?_
      unfold byteDomain at le
      omega
    exact Numeral.writable_natCast_iff.2 (hlength.trans (by decide))
  refine ⟨.die (some (.ofNat count short)) ⟨'d', rfl⟩ (.ofNat sides hsides), rfl, rfl, rfl, ?_, ?_⟩
  · simp [dice?]
  · exact ⟨Int.ofNat_le.2 pos, Int.ofNat_le.2 one_le, fun _ => Int.ofNat_le.2 le⟩

variable {a b : Nat} (ha : 1 ≤ a) (hb : 1 ≤ b) (short : Numeral.Writable (a + b : Nat))

include ha hb short

theorem read_joint :
    Formula.read .simulate (dieText (a + b) sides) = .ok ⟨[⟨(a + b : Nat), sides⟩], []⟩ := by
  obtain ⟨s, hdie, htext, hconstant, hdice, hs⟩ := exists_die one_le le (by omega) short
  have hsound : ∀ r ∈ [s], ∀ d, r.dice? .simulate = some d → d.Sound .simulate :=
    List.forall_mem_singleton.2 fun d hd => by rw [hdice] at hd; cases hd; exact hs
  have hread := read_written_eq .simulate hdie hsound
  rw [written_cons, htext] at hread
  simpa [continued, hdice, hconstant] using hread

theorem read_parted :
    Formula.read .simulate (dieText a sides ++ '+' :: dieText b sides) =
      .ok ⟨[⟨a, sides⟩, ⟨b, sides⟩], []⟩ := by
  have hshort : ∀ {n : Nat}, n ≤ a + b → Numeral.Writable n := fun hn => by
    unfold Numeral.Writable at *
    rw [Int.natAbs_natCast] at *
    exact Nat.lt_of_le_of_lt hn short
  obtain ⟨s, hdie, hs, hsConstant, hsDice, hsSound⟩ := exists_die one_le le ha (hshort (by omega))
  obtain ⟨t, -, ht, htConstant, htDice, htSound⟩ := exists_die one_le le hb (hshort (by omega))
  have hsound : ∀ r ∈ [s, t], ∀ d, r.dice? .simulate = some d → d.Sound .simulate :=
    List.forall_mem_cons.2 ⟨fun d hd => by rw [hsDice] at hd; cases hd; exact hsSound,
      List.forall_mem_singleton.2 fun d hd => by rw [htDice] at hd; cases hd; exact htSound⟩
  have hread := read_written_eq .simulate hdie hsound
  rw [written_cons, hs] at hread
  simpa [continued, ht, hsDice, hsConstant, htDice, htConstant] using hread

end

open Roll

/-- The run of `f.roll` depends on `f.singles` and the sum of the constants alone. So `a + b` dice
of one kind may be written together (`joint`) or apart (`parted`). -/
theorem run_roll_eq_of_singles :
    (∀ f g : Formula, f.singles = g.singles → f.constants.sum = g.constants.sum →
      ∀ bytes, f.roll.run bytes = g.roll.run bytes) ∧
    ∀ a b sides : Nat, 1 ≤ a → 1 ≤ b → 1 ≤ sides → sides ≤ byteDomain →
      (Numeral.digits (a + b)).length ≤ Numeral.limit →
      let joint := dieText (a + b) sides
      let parted := dieText a sides ++ '+' :: dieText b sides
      Formula.read .simulate joint = .ok ⟨[⟨(a + b : Nat), sides⟩], []⟩ ∧
        Formula.read .simulate parted = .ok ⟨[⟨a, sides⟩, ⟨b, sides⟩], []⟩ ∧
        ∀ bytes,
          ((evaluate .simulate joint).run bytes).result =
              ((evaluate .simulate parted).run bytes).result ∧
            (evaluate .simulate joint).used bytes = (evaluate .simulate parted).used bytes := by
  refine ⟨fun f g hsingles hconstants bytes => ?_, fun a b sides ha hb one_le le hdigits => ?_⟩
  · rw [Formula.roll_eq_of_singles hsingles hconstants]
  · have hshort := Numeral.writable_natCast_iff.2 hdigits
    have hjoint := read_joint one_le le ha hb hshort
    have hparted := read_parted one_le le ha hb hshort
    have hsingles : (⟨[⟨(a + b : Nat), sides⟩], []⟩ : Formula).singles =
        (⟨[⟨a, sides⟩, ⟨b, sides⟩], []⟩ : Formula).singles := by
      simp only [Formula.singles, Dice.singles, List.flatMap_cons, List.flatMap_nil,
        List.append_nil, Int.toNat_natCast, List.replicate_add]
    have hroll : (⟨[⟨(a + b : Nat), sides⟩], []⟩ : Formula).total .simulate =
        (⟨[⟨a, sides⟩, ⟨b, sides⟩], []⟩ : Formula).total .simulate :=
      Formula.roll_eq_of_singles hsingles rfl
    have hagree := agree_evaluate_of_read hjoint
    rw [hroll] at hagree
    have hsame := hagree.trans (agree_evaluate_of_read hparted).symm
    refine ⟨hjoint, hparted, fun bytes => ⟨hsame.result_eq bytes, ?_⟩⟩
    rw [used, used, (hsame bytes).rest_eq]

/-- Dice that are not rolled, and a die that is refused behind two that are drawn; and three dice
with a rejected byte. -/
theorem run_roll_eq_of_singles_refused :
    let f : Formula := ⟨[⟨2, 6⟩, ⟨-1, 9⟩, ⟨1, 300⟩], [1, 2]⟩
    let g : Formula := ⟨[⟨1, 6⟩, ⟨0, 0⟩, ⟨1, 6⟩, ⟨1, 300⟩], [3]⟩
    let joint := ['3', 'd', '6']
    let parted := ['1', 'd', '6', '+', '2', 'd', '6']
    f.singles = g.singles ∧ f.constants.sum = g.constants.sum ∧
      (g.roll.run [255, 7, 1, 2]).result = .error (.refused (.invalidRange 1 300)) ∧
      (g.roll.run [255, 7, 1, 2]).rest = [2] ∧
      (Numeral.digits (1 + 2)).length ≤ Numeral.limit ∧
      Formula.read .simulate joint = .ok ⟨[⟨3, 6⟩], []⟩ ∧
      Formula.read .simulate parted = .ok ⟨[⟨1, 6⟩, ⟨2, 6⟩], []⟩ ∧
      ((evaluate .simulate parted).run [252, 0, 1, 2]).result = .ok 6 := by
  intro f g joint parted
  have hsingles : f.singles = g.singles := by decide
  have hconstants : f.constants.sum = g.constants.sum := by decide
  have hresult : (f.roll.run [255, 7, 1, 2]).result = .error (.refused (.invalidRange 1 300)) := by
    decide +kernel
  have hrest : (f.roll.run [255, 7, 1, 2]).rest = [2] := by decide +kernel
  have hdigits : (Numeral.digits (1 + 2)).length ≤ Numeral.limit := by decide +kernel
  have htotal : ((evaluate .simulate joint).run [252, 0, 1, 2]).result = .ok 6 := by decide +kernel
  obtain ⟨hruns, hwritten⟩ := run_roll_eq_of_singles
  obtain ⟨hjoint, hparted, hsame⟩ :=
    hwritten 1 2 6 (by decide) (by decide) (by decide) (by decide) hdigits
  have hrun := hruns f g hsingles hconstants [255, 7, 1, 2]
  rw [hrun] at hresult hrest
  exact ⟨hsingles, hconstants, hresult, hrest, hdigits, hjoint, hparted,
    (hsame [252, 0, 1, 2]).1.symm.trans htotal⟩

end DiceFormula
