import DiceFormula.Roll.Basic
import Mathlib.Data.List.Forall2

/-!
# Rolls that agree

Two rolls agree when, on every stream, they leave the same bytes and come to
values that are related, or fail for the same reason. What they report may
differ. Sequences of rolls that agree step by step agree.
-/

namespace DiceFormula

variable {α β γ δ : Type}

/-- Values that `R` relates, or the same failure. -/
inductive ResultsAgree (R : α → β → Prop) : Except Failure α → Except Failure β → Prop where
  | ok {a : α} {b : β} : R a b → ResultsAgree R (.ok a) (.ok b)
  | error (why : Failure) : ResultsAgree R (.error why) (.error why)

structure Run.Agree (R : α → β → Prop) (x : Run α) (y : Run β) : Prop where
  rest_eq : x.rest = y.rest
  results : ResultsAgree R x.result y.result

theorem resultsAgree_eq_iff {r s : Except Failure α} : ResultsAgree Eq r s ↔ r = s := by
  refine ⟨fun h => ?_, ?_⟩
  · cases h with
    | ok hab => exact congrArg _ hab
    | error why => rfl
  · rintro rfl
    cases r with
    | ok a => exact .ok rfl
    | error why => exact .error why

namespace Roll

def Agree (R : α → β → Prop) (x : Roll α) (y : Roll β) : Prop :=
  ∀ bytes, (x.run bytes).Agree R (y.run bytes)

theorem agree_pure {R : α → β → Prop} {a : α} {b : β} (h : R a b) :
    Agree R (pure a) (pure b) :=
  fun _ => ⟨rfl, .ok h⟩

theorem agree_fail (R : α → β → Prop) (why : Failure) : Agree R (fail why) (fail why) :=
  fun _ => ⟨rfl, .error why⟩

theorem agree_tell (e e' : Event) : Agree Eq (tell e) (tell e') := fun _ => ⟨rfl, .ok rfl⟩

theorem Agree.refl (x : Roll α) : Agree Eq x x := fun _ => ⟨rfl, resultsAgree_eq_iff.2 rfl⟩

theorem Agree.symm {x y : Roll α} (h : Agree Eq x y) : Agree Eq y x := fun bytes =>
  ⟨(h bytes).rest_eq.symm, resultsAgree_eq_iff.2 (resultsAgree_eq_iff.1 (h bytes).results).symm⟩

theorem Agree.trans {R : α → β → Prop} {x y : Roll α} {z : Roll β} (h : Agree Eq x y)
    (h' : Agree R y z) : Agree R x z := by
  intro bytes
  refine ⟨(h bytes).rest_eq.trans (h' bytes).rest_eq, ?_⟩
  rw [resultsAgree_eq_iff.1 (h bytes).results]
  exact (h' bytes).results

theorem Agree.result_eq {x y : Roll α} (h : Agree Eq x y) (bytes : List Byte) :
    (x.run bytes).result = (y.run bytes).result :=
  resultsAgree_eq_iff.1 (h bytes).results

theorem Agree.map {x y : Roll α} (h : Agree Eq x y) (g : α → β) :
    Agree Eq (g <$> x) (g <$> y) := by
  intro bytes
  refine ⟨(h bytes).rest_eq, resultsAgree_eq_iff.2 ?_⟩
  rw [run_map, run_map, h.result_eq]

theorem Agree.bind {R : α → β → Prop} {S : γ → δ → Prop} {x : Roll α} {y : Roll β}
    {f : α → Roll γ} {g : β → Roll δ} (h : Agree R x y)
    (hf : ∀ a b, R a b → Agree S (f a) (g b)) : Agree S (x >>= f) (y >>= g) := by
  intro bytes
  obtain ⟨hrest, hresults⟩ := h bytes
  rcases hx : x.run bytes with ⟨r, rest, log⟩
  rcases hy : y.run bytes with ⟨s, rest', log'⟩
  rw [hx, hy] at hrest hresults
  obtain rfl : rest = rest' := hrest
  cases hresults with
  | ok hab =>
    rw [run_bind_ok hx, run_bind_ok hy]
    exact ⟨(hf _ _ hab rest).rest_eq, (hf _ _ hab rest).results⟩
  | error why =>
    rw [run_bind_error hx, run_bind_error hy]
    exact ⟨rfl, .error why⟩

theorem agree_mapM {R : γ → δ → Prop} {f : α → Roll γ} {g : β → Roll δ} {xs : List α}
    {ys : List β} (h : List.Forall₂ (fun x y => Agree R (f x) (g y)) xs ys) :
    Agree (List.Forall₂ R) (xs.mapM f) (ys.mapM g) := by
  induction h with
  | nil => exact agree_pure .nil
  | cons hxy _ ih =>
    rw [List.mapM_cons, List.mapM_cons]
    refine hxy.bind fun a b hab => ih.bind fun as bs habs => ?_
    exact agree_pure (.cons hab habs)

end Roll

end DiceFormula
