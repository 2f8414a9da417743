import DiceFormula.Roll.Basic
import Mathlib.Data.List.Forall2

/-!
# Outcomes

What a roll comes to when its log is left aside: `x.Gives bytes a rest` says
that on `bytes` the roll ends in the value `a` and leaves `rest`. A sequence of
rolls gives what its parts give, each on the bytes that the one before has
left.
-/

namespace DiceFormula

@[simp] theorem mapError_ok {ε δ α : Type} (f : ε → δ) (a : α) :
    (Except.ok a : Except ε α).mapError f = .ok a := rfl

@[simp] theorem mapError_error {ε δ α : Type} (f : ε → δ) (e : ε) :
    (Except.error e : Except ε α).mapError f = .error (f e) := rfl

namespace Roll

variable {α β : Type} {bytes rest : List Byte}

def Gives (x : Roll α) (bytes : List Byte) (a : α) (rest : List Byte) : Prop :=
  (x.run bytes).result = .ok a ∧ (x.run bytes).rest = rest

instance [DecidableEq (Except Failure α)] (x : Roll α) (bytes : List Byte) (a : α)
    (rest : List Byte) : Decidable (x.Gives bytes a rest) :=
  inferInstanceAs (Decidable (_ ∧ _))

theorem gives_pure {a b : α} : (pure a : Roll α).Gives bytes b rest ↔ a = b ∧ bytes = rest := by
  simp [Gives]

theorem gives_map {f : α → β} {x : Roll α} {b : β} :
    (f <$> x).Gives bytes b rest ↔ ∃ a, x.Gives bytes a rest ∧ f a = b := by
  refine ⟨?_, ?_⟩
  · rintro ⟨hb, hrest⟩
    rw [run_map] at hb
    cases hx : (x.run bytes).result with
    | error why => rw [hx] at hb; cases hb
    | ok a => rw [hx] at hb; cases hb; exact ⟨a, ⟨hx, hrest⟩, rfl⟩
  · rintro ⟨a, ⟨ha, hrest⟩, rfl⟩
    exact ⟨by rw [run_map, ha]; rfl, hrest⟩

theorem gives_bind {x : Roll α} {f : α → Roll β} {b : β} :
    (x >>= f).Gives bytes b rest ↔ ∃ a mid, x.Gives bytes a mid ∧ (f a).Gives mid b rest := by
  refine ⟨?_, ?_⟩
  · rintro ⟨hb, hrest⟩
    rw [run_bind] at hb hrest
    cases hx : (x.run bytes).result with
    | error why => rw [hx] at hb; cases hb
    | ok a =>
      rw [hx] at hb hrest
      exact ⟨a, _, ⟨hx, rfl⟩, hb, hrest⟩
  · rintro ⟨a, _, ⟨ha, rfl⟩, hb, hrest⟩
    unfold Gives
    rw [run_bind, ha]
    exact ⟨hb, hrest⟩

theorem gives_tell_bind {event : Event} {f : Unit → Roll α} {a : α} :
    (tell event >>= f).Gives bytes a rest ↔ (f ()).Gives bytes a rest := by
  simp [Gives, run_bind]

theorem gives_ofExcept {r : Except DiceError α} {a : α} :
    (ofExcept r).Gives bytes a rest ↔ r = .ok a ∧ bytes = rest := by
  cases r <;> simp [Gives]

theorem gives_attempt {x : Roll α} {outcome : Except DiceError α} :
    x.attempt.Gives bytes outcome rest ↔
      (x.run bytes).result = outcome.mapError .refused ∧ (x.run bytes).rest = rest := by
  rcases hx : x.run bytes with ⟨(e | _ | _ | word) | a, mid, log⟩
  · unfold Gives
    rw [run_attempt_refused hx]
    cases outcome <;> simp
  · unfold Gives
    rw [run_attempt_error hx (by simp)]
    cases outcome <;> simp
  · unfold Gives
    rw [run_attempt_error hx (by simp)]
    cases outcome <;> simp
  · unfold Gives
    rw [run_attempt_error hx (by simp)]
    cases outcome <;> simp
  · unfold Gives
    rw [run_attempt_ok hx]
    cases outcome <;> simp

theorem gives_mapM_nil {f : α → Roll β} {ys : List β} :
    (([] : List α).mapM f).Gives bytes ys rest ↔ [] = ys ∧ bytes = rest := by
  rw [List.mapM_nil, gives_pure]

theorem gives_mapM_cons {f : α → Roll β} {x : α} {xs : List α} {zs : List β} :
    ((x :: xs).mapM f).Gives bytes zs rest ↔
      ∃ y mid ys, (f x).Gives bytes y mid ∧ (xs.mapM f).Gives mid ys rest ∧ y :: ys = zs := by
  rw [List.mapM_cons, gives_bind]
  refine exists_congr fun y => exists_congr fun mid => ?_
  rw [gives_bind]
  refine ⟨?_, ?_⟩
  · rintro ⟨hy, ys, _, hys, hz⟩
    obtain ⟨rfl, rfl⟩ := gives_pure.1 hz
    exact ⟨ys, hy, hys, rfl⟩
  · rintro ⟨ys, hy, hys, rfl⟩
    exact ⟨hy, ys, rest, hys, gives_pure.2 ⟨rfl, rfl⟩⟩

theorem forall₂_of_gives_mapM {f : α → Roll β} {R : α → β → Prop} {xs : List α} {ys : List β}
    (hR : ∀ x ∈ xs, ∀ bytes y rest, (f x).Gives bytes y rest → R x y)
    (h : (xs.mapM f).Gives bytes ys rest) : List.Forall₂ R xs ys := by
  induction xs generalizing bytes ys with
  | nil =>
    obtain ⟨rfl, -⟩ := gives_mapM_nil.1 h
    exact .nil
  | cons x xs ih =>
    obtain ⟨y, mid, ys, hy, hys, rfl⟩ := gives_mapM_cons.1 h
    obtain ⟨hx, hxs⟩ := List.forall_mem_cons.1 hR
    exact .cons (hx _ _ _ hy) (ih hxs hys)

end Roll

end DiceFormula
