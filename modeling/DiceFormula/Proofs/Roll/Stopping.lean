import DiceFormula.Proofs.Roll.Draw
import DiceFormula.Proofs.Roll.Singles

/-!
# Where a roll stops

Dice of any counts and sides are rolled up to the first that are barred: dice
that are to be rolled and that no byte can decide between. Whether these stop
the roll or the want of bytes does depends on the stream. If it begins with a
throw of all single dice before them (`Thrown`), the roll draws this throw and
is refused; if it does not, the roll draws the whole stream and starves
(`roll_cases`).
-/

namespace DiceFormula

/-- Dice of these `sides`, thrown one after the other with `drawn`, show `faces`. Each die takes the
first byte below its limit. -/
inductive Thrown : (sides : List Int) → (drawn : List Byte) → (faces : List Int) → Prop where
  | nil : Thrown [] [] []
  | cons {s : Int} {before : List Byte} {b : Byte} {sides : List Int} {drawn : List Byte}
      {faces : List Int} : (∀ c ∈ before, acceptLimit s.toNat ≤ c.val) →
      b.val < acceptLimit s.toNat → Thrown sides drawn faces →
      Thrown (s :: sides) (before ++ b :: drawn) ((1 + (b.val % s.toNat : Nat)) :: faces)

/-- `bytes` begin with a throw of these dice. -/
def Suffices (bytes : List Byte) (sides : List Int) : Prop :=
  ∃ drawn faces, drawn <+: bytes ∧ Thrown sides drawn faces

namespace Dice

/-- Dice that are to be rolled, of no side or of more than a byte decides between. -/
def Barred (d : Dice) : Prop := 1 ≤ d.count ∧ (d.sides < 1 ∨ byteDomain < d.sides)

instance (d : Dice) : Decidable d.Barred := inferInstanceAs (Decidable (_ ∧ _))

/-- What barred dice fail for. Sides of too many digits cannot be named. -/
def refusal (d : Dice) : Failure :=
  if (Numeral.digits d.sides.natAbs).length ≤ Numeral.limit then
    .refused (.invalidRange 1 d.sides)
  else .unwritable

theorem fair_of_not_barred {ds : List Dice} (h : ∀ d ∈ ds, ¬ d.Barred) :
    ∀ s ∈ ds.flatMap singles, 1 ≤ s ∧ s ≤ byteDomain := by
  intro s hs
  obtain ⟨d, hd, hmem⟩ := List.mem_flatMap.1 hs
  obtain ⟨hcount, rfl⟩ := List.mem_replicate.1 hmem
  have hbarred := h d hd
  unfold Barred at hbarred
  omega

theorem barred_cases (ds : List Dice) :
    (∀ d ∈ ds, ¬ d.Barred) ∨
      ∃ before p after, ds = before ++ p :: after ∧ (∀ d ∈ before, ¬ d.Barred) ∧ p.Barred := by
  rcases split_cases (fun d : Dice => decide d.Barred) ds with
    h | ⟨before, p, after, rfl, h, hp⟩
  · exact .inl fun d hd => of_decide_eq_false (h d hd)
  · exact .inr ⟨before, p, after, rfl, fun d hd => of_decide_eq_false (h d hd),
      of_decide_eq_true hp⟩

end Dice

open Roll

/-! ## Throws -/

section

variable {α β : Type} {x : Roll α} {a : α} {bytes mid : List Byte} (h : x.Gives bytes a mid)

include h

theorem Roll.Gives.run_bind (f : α → Roll β) :
    ((x >>= f).run bytes).result = ((f a).run mid).result ∧
      ((x >>= f).run bytes).rest = ((f a).run mid).rest := by
  obtain ⟨ha, rfl⟩ := h
  rw [Roll.run_bind, ha]
  exact ⟨rfl, rfl⟩

theorem Roll.Gives.starves_bind {f : α → Roll β} (later : (f a).Starves mid) :
    (x >>= f).Starves bytes := by
  obtain ⟨hresult, hrest⟩ := h.run_bind f
  exact ⟨hresult.trans later.1, hrest.trans later.2⟩

end

section

variable {s : Int} (lo : 1 ≤ s) (hi : s ≤ byteDomain)

include lo hi

/-- A die takes the first byte below its limit. -/
theorem gives_face_first {before : List Byte} {b : Byte}
    (high : ∀ c ∈ before, acceptLimit s.toNat ≤ c.val) (low : b.val < acceptLimit s.toNat)
    (after : List Byte) :
    (uniform 1 s).Gives (before ++ b :: after) (1 + (b.val % s.toNat : Nat)) after := by
  have hrun := run_remainder_first high low after
  exact (gives_face_iff lo hi).2 ⟨_, ⟨by rw [hrun], by rw [hrun]⟩, rfl⟩

theorem starves_face {bytes : List Byte} (high : ∀ c ∈ bytes, acceptLimit s.toNat ≤ c.val) :
    (uniform 1 s).Starves bytes := by
  unfold Starves
  rw [uniform_one lo hi, run_map, run_remainder_high high]
  exact ⟨rfl, rfl⟩

end

section

variable {sides : List Int} (fair : ∀ s ∈ sides, 1 ≤ s ∧ s ≤ byteDomain)

include fair

theorem Thrown.gives {drawn : List Byte} {faces : List Int} (h : Thrown sides drawn faces)
    (rest : List Byte) : (rollEach sides).Gives (drawn ++ rest) faces rest := by
  induction h with
  | nil => exact gives_pure.2 ⟨rfl, rfl⟩
  | @cons s before b sides drawn faces high low _ ih =>
    obtain ⟨⟨lo, hi⟩, hsides⟩ := List.forall_mem_cons.1 fair
    have hface := gives_face_first lo hi high low (drawn ++ rest)
    rw [List.append_assoc, List.cons_append]
    exact gives_mapM_cons.2 ⟨_, _, faces, hface, ih hsides, rfl⟩

/-- Fair dice are thrown, or they draw all bytes and starve. -/
theorem starves_or_suffices (bytes : List Byte) :
    (rollEach sides).Starves bytes ∨ Suffices bytes sides := by
  induction sides generalizing bytes with
  | nil => exact .inr ⟨[], [], List.nil_prefix, .nil⟩
  | cons s sides ih =>
    obtain ⟨⟨lo, hi⟩, hsides⟩ := List.forall_mem_cons.1 fair
    rw [rollEach, List.mapM_cons]
    rcases stream_cases (acceptLimit s.toNat) bytes with high | ⟨before, b, after, rfl, high, low⟩
    · exact .inl ((starves_face lo hi high).bind _)
    · rcases ih hsides after with hstarves | ⟨drawn, faces, ⟨rest, rfl⟩, hthrown⟩
      · exact .inl ((gives_face_first lo hi high low after).starves_bind (hstarves.bind _))
      · exact .inr ⟨before ++ b :: drawn, _, ⟨rest, by simp⟩, .cons high low hthrown⟩

theorem starves_rollEach_iff {bytes : List Byte} :
    (rollEach sides).Starves bytes ↔ ¬ Suffices bytes sides := by
  refine ⟨?_, (starves_or_suffices fair bytes).resolve_right⟩
  rintro ⟨hresult, -⟩ ⟨drawn, faces, ⟨rest, rfl⟩, hthrown⟩
  cases hresult.symm.trans (hthrown.gives fair rest).1

end

/-! ## Barred dice -/

theorem Numeral.writable_one : Writable 1 :=
  writable_iff_length_digits.2 (by decide)

/-- Barred dice are refused before they draw, whatever is to be rolled behind them. -/
theorem Dice.Barred.run_rollEach {p : Dice} (h : p.Barred) (later : List Int) (bytes : List Byte) :
    (rollEach (p.singles ++ later)).run bytes = ⟨.error p.refusal, bytes, []⟩ := by
  obtain ⟨hcount, hsides⟩ := h
  have hspan : ¬ (1 ≤ p.sides - 1 + 1 ∧ p.sides - 1 + 1 ≤ byteDomain) := by omega
  have hrun := run_uniform_of_not_span hspan bytes
  have hrefusal : (if Numeral.Writable 1 ∧ Numeral.Writable p.sides then
      Failure.refused (.invalidRange 1 p.sides) else .unwritable) = p.refusal := by
    simp only [Dice.refusal, Numeral.writable_iff_length_digits (n := p.sides),
      Numeral.writable_one, true_and]
  obtain ⟨n, hn⟩ : ∃ n, p.count.toNat = n + 1 := ⟨p.count.toNat - 1, by omega⟩
  rw [hrefusal] at hrun
  rw [rollEach, Dice.singles, hn, List.replicate_succ, List.cons_append, List.mapM_cons,
    run_bind_error hrun]

namespace Formula

section

variable {f : Formula} (fair : ∀ d ∈ f.dice, ¬ d.Barred)

include fair

theorem gives_roll_of_thrown {drawn : List Byte} {faces : List Int}
    (h : Thrown f.singles drawn faces) (rest : List Byte) :
    f.roll.Gives (drawn ++ rest) (faces.sum + f.constants.sum) rest := by
  rw [roll_eq]
  exact gives_map.2 ⟨faces, h.gives (Dice.fair_of_not_barred fair) rest, rfl⟩

theorem starves_roll_of_fair {bytes : List Byte} (h : ¬ Suffices bytes f.singles) :
    f.roll.Starves bytes := by
  have hsingles := (starves_rollEach_iff (Dice.fair_of_not_barred fair)).2 h
  rw [roll_eq, ← bind_pure_comp]
  exact hsingles.bind _

end

section

variable {f : Formula} {before after : List Dice} {p : Dice} (dice : f.dice = before ++ p :: after)
  (first : ∀ d ∈ before, ¬ d.Barred)

include dice

theorem roll_eq_of_dice :
    f.roll = (fun faces => faces.sum + f.constants.sum) <$>
      (rollEach (before.flatMap Dice.singles) >>= fun faces =>
        (faces ++ ·) <$> rollEach (p.singles ++ after.flatMap Dice.singles)) := by
  rw [roll_eq, singles, dice, List.flatMap_append, List.flatMap_cons]
  unfold rollEach
  rw [List.mapM_append]
  simp only [bind_pure_comp]

include first

/-- The dice `before` the barred ones are thrown, and then these are refused. -/
theorem run_roll_of_thrown (barred : p.Barred) {drawn : List Byte} {faces : List Int}
    (h : Thrown (before.flatMap Dice.singles) drawn faces) (rest : List Byte) :
    (f.roll.run (drawn ++ rest)).result = .error p.refusal ∧
      (f.roll.run (drawn ++ rest)).rest = rest := by
  have hbefore := h.gives (Dice.fair_of_not_barred first) rest
  obtain ⟨hresult, hrest⟩ := hbefore.run_bind fun faces =>
    (faces ++ ·) <$> rollEach (p.singles ++ after.flatMap Dice.singles)
  rw [roll_eq_of_dice dice, run_map, hresult, hrest, run_map, barred.run_rollEach]
  exact ⟨rfl, rfl⟩

theorem starves_roll_of_not_suffices {bytes : List Byte}
    (h : ¬ Suffices bytes (before.flatMap Dice.singles)) : f.roll.Starves bytes := by
  have hbefore := (starves_rollEach_iff (Dice.fair_of_not_barred first)).2 h
  rw [roll_eq_of_dice dice, ← bind_pure_comp]
  exact (hbefore.bind _).bind _

end

/-- Dice that number none or fewer are passed over. -/
theorem roll_filter_count (f : Formula) :
    f.roll = (Formula.mk (f.dice.filter fun d => 1 ≤ d.count) f.constants).roll := by
  refine roll_eq_of_singles ?_ rfl
  unfold singles
  induction f.dice with
  | nil => rfl
  | cons d ds ih =>
    by_cases hd : 1 ≤ d.count
    · rw [List.filter_cons_of_pos (by simpa using hd), List.flatMap_cons, List.flatMap_cons, ih]
    · have hnone : d.singles = [] := by
        rw [Dice.singles, Int.toNat_of_nonpos (by omega), List.replicate_zero]
      rw [List.filter_cons_of_neg (by simpa using hd), List.flatMap_cons, hnone, ih]
      rfl

/-- A roll fails for want of bytes or for barred dice. -/
theorem failure_of_roll {f : Formula} {bytes : List Byte} {why : Failure}
    (h : (f.roll.run bytes).result = .error why) :
    why = .outOfBytes ∨ ∃ p ∈ f.dice, p.Barred ∧ why = p.refusal := by
  have starves : f.roll.Starves bytes → why = .outOfBytes := fun hstarves =>
    Except.error.inj (h.symm.trans hstarves.1)
  rcases Dice.barred_cases f.dice with hfair | ⟨before, p, after, hdice, hfirst, hbarred⟩
  · by_cases hs : Suffices bytes f.singles
    · obtain ⟨drawn, faces, ⟨rest, rfl⟩, hthrown⟩ := hs
      cases h.symm.trans (gives_roll_of_thrown hfair hthrown rest).1
    · exact .inl (starves (starves_roll_of_fair hfair hs))
  · by_cases hs : Suffices bytes (before.flatMap Dice.singles)
    · obtain ⟨drawn, faces, ⟨rest, rfl⟩, hthrown⟩ := hs
      have hrun := (run_roll_of_thrown hdice hfirst hbarred hthrown rest).1
      exact .inr ⟨p, hdice ▸ by simp, hbarred, Except.error.inj (h.symm.trans hrun)⟩
    · exact .inl (starves (starves_roll_of_not_suffices hdice hfirst hs))

/-- `f.roll` throws the dice `before` the first barred ones `p`, draws nothing more and fails for
`p.refusal`; without barred dice it throws all `f.singles`. Where the stream does not suffice for
the throw, the roll starves. -/
theorem roll_cases (f : Formula) :
    (∀ before p after, f.dice = before ++ p :: after → (∀ d ∈ before, ¬ d.Barred) → p.Barred →
      (∀ drawn faces rest, Thrown (before.flatMap Dice.singles) drawn faces →
        (f.roll.run (drawn ++ rest)).result = .error p.refusal ∧
          (f.roll.run (drawn ++ rest)).rest = rest) ∧
      ∀ bytes, ¬ Suffices bytes (before.flatMap Dice.singles) → f.roll.Starves bytes) ∧
    ((∀ d ∈ f.dice, ¬ d.Barred) →
      (∀ drawn faces rest, Thrown f.singles drawn faces →
        f.roll.Gives (drawn ++ rest) (faces.sum + f.constants.sum) rest) ∧
      ∀ bytes, ¬ Suffices bytes f.singles → f.roll.Starves bytes) ∧
    (∀ bytes why, (f.roll.run bytes).result = .error why →
      why = .outOfBytes ∨ ∃ p ∈ f.dice, p.Barred ∧ why = p.refusal) ∧
    ∀ bytes, f.roll.run bytes =
      (Formula.mk (f.dice.filter fun d => 1 ≤ d.count) f.constants).roll.run bytes := by
  refine ⟨fun before p after hdice hfirst hbarred => ⟨?_, ?_⟩, fun hfair => ⟨?_, ?_⟩, ?_, ?_⟩
  · exact fun drawn faces rest hthrown => run_roll_of_thrown hdice hfirst hbarred hthrown rest
  · exact fun bytes hs => starves_roll_of_not_suffices hdice hfirst hs
  · exact fun drawn faces rest hthrown => gives_roll_of_thrown hfair hthrown rest
  · exact fun bytes hs => starves_roll_of_fair hfair hs
  · exact fun bytes why h => failure_of_roll h
  · exact fun bytes => congrArg (Roll.run · bytes) (roll_filter_count f)

/-- Two dice, one of them over a rejected byte, dice that are passed over, and dice of too many
sides. The stream of two bytes is too short for the dice in front. -/
theorem roll_cases_refused :
    let before : List Dice := [⟨2, 6⟩, ⟨-1, 0⟩]
    let p : Dice := ⟨1, 300⟩
    let f : Formula := ⟨before ++ p :: [⟨1, 4⟩], [5]⟩
    let g : Formula := ⟨before, [5]⟩
    (∀ d ∈ before, ¬ d.Barred) ∧ p.Barred ∧ p.refusal = .refused (.invalidRange 1 300) ∧
      Thrown (before.flatMap Dice.singles) [255, 7, 1] [2, 2] ∧
      (f.roll.run ([255, 7, 1] ++ [9])).result = .error p.refusal ∧
      (f.roll.run ([255, 7, 1] ++ [9])).rest = [9] ∧
      ¬ Suffices [255, 7] (before.flatMap Dice.singles) ∧ f.roll.Starves [255, 7] ∧
      g.roll.Gives ([255, 7, 1] ++ [9]) 9 [9] := by
  intro before p f g
  have hfirst : ∀ d ∈ before, ¬ d.Barred := by decide
  have hbarred : p.Barred := by decide
  have hrefusal : p.refusal = .refused (.invalidRange 1 300) := by decide +kernel
  have hlast : Thrown [6] [1] [2] := @Thrown.cons 6 [] 1 [] [] [] nofun (by decide) .nil
  have hthrown : Thrown [6, 6] [255, 7, 1] [2, 2] :=
    @Thrown.cons 6 [255] 7 [6] [1] [2] (by decide +kernel) (by decide) hlast
  have hstarves : (rollEach [6, 6]).Starves [255, 7] := ⟨by decide +kernel, by decide +kernel⟩
  have hshort := (starves_rollEach_iff (Dice.fair_of_not_barred hfirst)).1 hstarves
  obtain ⟨hrefused, hwants⟩ := (roll_cases f).1 before p [⟨1, 4⟩] rfl hfirst hbarred
  obtain ⟨hresult, hrest⟩ := hrefused _ _ [9] hthrown
  exact ⟨hfirst, hbarred, hrefusal, hthrown, hresult, hrest, hshort, hwants _ hshort,
    ((roll_cases g).2.1 hfirst).1 _ _ [9] hthrown⟩

end Formula

end DiceFormula
