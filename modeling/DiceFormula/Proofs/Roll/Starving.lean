import DiceFormula.Proofs.Formula.Reading
import DiceFormula.Proofs.Roll.Outcome
import DiceFormula.Roll.Dice

/-!
# What can stop a roll

A roll of dice that have been read stops for want of a byte and for nothing
else: their sides are never out of range when they come to be rolled
(`onlyStarves_total`). So whatever refuses a formula refuses it before its
first draw (`run_evaluate_refused`).
-/

namespace DiceFormula

namespace Roll

variable {α β : Type}

/-- Only the want of a byte stops `x`. -/
def OnlyStarves (x : Roll α) : Prop :=
  ∀ bytes why, (x.run bytes).result = .error why → why = .outOfBytes

theorem onlyStarves_pure (a : α) : OnlyStarves (pure a : Roll α) := by
  intro bytes why h
  cases h

theorem OnlyStarves.map {x : Roll α} (h : OnlyStarves x) (f : α → β) : OnlyStarves (f <$> x) := by
  intro bytes why hr
  rw [run_map] at hr
  cases hx : (x.run bytes).result with
  | error why' =>
    rw [hx] at hr
    cases hr
    exact h bytes why hx
  | ok a => rw [hx] at hr; cases hr

theorem OnlyStarves.bind {x : Roll α} (hx : OnlyStarves x) {f : α → Roll β}
    (hf : ∀ a, OnlyStarves (f a)) : OnlyStarves (x >>= f) := by
  intro bytes why hr
  rw [run_bind] at hr
  cases ha : (x.run bytes).result with
  | error why' =>
    rw [ha] at hr
    cases hr
    exact hx bytes why ha
  | ok a =>
    rw [ha] at hr
    exact hf a _ why hr

theorem OnlyStarves.attempt {x : Roll α} (h : OnlyStarves x) : OnlyStarves x.attempt := by
  intro bytes why hr
  rcases hx : x.run bytes with ⟨why' | a, rest, log⟩
  · obtain rfl : why' = .outOfBytes := h bytes why' (by rw [hx])
    rw [run_attempt_error hx (by simp)] at hr
    cases hr
    rfl
  · rw [run_attempt_ok hx] at hr
    cases hr

theorem onlyStarves_mapM {f : α → Roll β} {xs : List α} (h : ∀ x ∈ xs, OnlyStarves (f x)) :
    OnlyStarves (xs.mapM f) := by
  induction xs with
  | nil => exact onlyStarves_pure []
  | cons x xs ih =>
    obtain ⟨hx, hxs⟩ := List.forall_mem_cons.1 h
    rw [List.mapM_cons]
    exact hx.bind fun y => (ih hxs).bind fun ys => onlyStarves_pure (y :: ys)

theorem onlyStarves_remainder (span : Nat) : OnlyStarves (remainder span) := by
  intro bytes why h
  induction bytes with
  | nil => cases h; rfl
  | cons b bytes ih =>
    by_cases hb : b.val < acceptLimit span
    · rw [run_remainder_accept hb] at h
      cases h
    · rw [run_remainder_reject (Nat.le_of_not_lt hb)] at h
      exact ih h

theorem onlyStarves_uniform {sides : Int} (lo : 1 ≤ sides) (hi : sides ≤ byteDomain) :
    OnlyStarves (uniform 1 sides) := by
  rw [uniform_one lo hi]
  exact (onlyStarves_remainder _).map _

end Roll

open Roll

theorem onlyStarves_rollTimes {sides : Int} (lo : 1 ≤ sides) (hi : sides ≤ byteDomain) (n : Nat) :
    OnlyStarves (rollTimes sides n) := by
  induction n with
  | zero => exact onlyStarves_pure 0
  | succ n ih => exact (onlyStarves_uniform lo hi).bind fun face => ih.map (face + ·)

/-- A formula that has been read has a total, unless the bytes run out. -/
theorem onlyStarves_total {mode : Mode} {text : List Char} {f : Formula}
    (h : Formula.read mode text = .ok f) : OnlyStarves (f.total mode) := by
  cases mode with
  | average => exact onlyStarves_pure _
  | simulate =>
    refine (onlyStarves_mapM fun d hd => ?_).map _
    have hs := Formula.sound_of_read h d hd
    exact onlyStarves_rollTimes hs.one_le_sides (hs.sides_le rfl) _

/-! ## Evaluation -/

section

variable {mode : Mode} {text : List Char}

/-- Reading draws nothing, and what refuses it is refused. -/
theorem Formula.run_parse (mode : Mode) (text : List Char) (bytes : List Byte) :
    (Formula.parse mode text).run bytes =
      ⟨(Formula.read mode text).mapError .refused, bytes, Formula.report mode text⟩ := by
  unfold Formula.parse
  cases Formula.read mode text <;> simp [run_bind]

theorem Formula.gives_parse_iff {f : Formula} {bytes rest : List Byte} :
    (Formula.parse mode text).Gives bytes f rest ↔
      Formula.read mode text = .ok f ∧ bytes = rest := by
  unfold Roll.Gives
  rw [Formula.run_parse]
  cases Formula.read mode text <;> simp

theorem Formula.refused_parse_iff {e : DiceError} {bytes : List Byte} :
    ((Formula.parse mode text).run bytes).result = .error (.refused e) ↔
      Formula.read mode text = .error e := by
  rw [Formula.run_parse]
  cases Formula.read mode text <;> simp

theorem run_evaluate_error {e : DiceError} (h : Formula.read mode text = .error e)
    (bytes : List Byte) :
    (evaluate mode text).run bytes =
      ⟨.error (.refused e), bytes, .startedFormula text mode.name :: Formula.report mode text⟩ := by
  simp [evaluate, Formula.parse, h, run_bind]

theorem run_evaluate_ok {f : Formula} (h : Formula.read mode text = .ok f) (bytes : List Byte) :
    (evaluate mode text).run bytes =
      ⟨((f.total mode).run bytes).result, ((f.total mode).run bytes).rest,
        .startedFormula text mode.name ::
          (Formula.report mode text ++ ((f.total mode).run bytes).log)⟩ := by
  simp [evaluate, Formula.parse, h, run_bind]

theorem onlyStarves_evaluate_of_read {f : Formula} (h : Formula.read mode text = .ok f) :
    OnlyStarves (evaluate mode text) := by
  intro bytes why hr
  rw [run_evaluate_ok h] at hr
  exact onlyStarves_total h bytes why hr

theorem gives_evaluate_iff {bytes rest : List Byte} {total : Int} :
    (evaluate mode text).Gives bytes total rest ↔
      ∃ f, Formula.read mode text = .ok f ∧ (f.total mode).Gives bytes total rest := by
  unfold Roll.Gives
  cases hr : Formula.read mode text with
  | error e => simp [run_evaluate_error hr]
  | ok f => simp [run_evaluate_ok hr]

theorem gives_average_of_read {f : Formula} (h : Formula.read .average text = .ok f)
    (bytes : List Byte) : (evaluate .average text).Gives bytes f.average bytes :=
  gives_evaluate_iff.2 ⟨f, h, gives_pure.2 ⟨rfl, rfl⟩⟩

theorem run_evaluate_refused {e : DiceError} {bytes : List Byte}
    (h : ((evaluate mode text).run bytes).result = .error (.refused e)) :
    Formula.read mode text = .error e ∧ ((evaluate mode text).run bytes).rest = bytes := by
  cases hr : Formula.read mode text with
  | error e' =>
    rw [run_evaluate_error hr] at h ⊢
    cases h
    exact ⟨rfl, rfl⟩
  | ok f => cases onlyStarves_evaluate_of_read hr bytes _ h

end

end DiceFormula
