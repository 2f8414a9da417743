import DiceFormula.Proofs.Roll.Agreement
import DiceFormula.Proofs.Roll.Causality
import DiceFormula.Proofs.Roll.Starving

/-!
# One roll after another

What a roll comes to that agrees with two others, the second of them on the
bytes that the first has left. The results are put together; and where nothing
but the want of bytes stops the first, the two use what they use apart, since a
roll that runs out leaves nothing for the next one to draw.
-/

namespace DiceFormula

namespace Roll

variable {α β γ : Type}

theorem Agree.bind_map {x x' : Roll α} {y y' : Roll β} (hx : Agree Eq x x') (hy : Agree Eq y y')
    (g : α → β → γ) :
    Agree Eq (x >>= fun a => g a <$> y) (x' >>= fun a => g a <$> y') := by
  refine hx.bind ?_
  rintro a _ rfl
  exact hy.map (g a)

section

variable {whole : Roll γ} {first : Roll α} {second : Roll β} {g : α → β → γ}
  (h : Agree Eq whole (first >>= fun a => g a <$> second)) (bytes : List Byte)

include h

theorem Agree.result_bind_map :
    (whole.run bytes).result =
      (first.run bytes).result.bind fun a =>
        (second.run (first.run bytes).rest).result.map (g a) := by
  rw [h.result_eq, run_bind]
  cases (first.run bytes).result <;> rfl

variable (hstarves : OnlyStarves first) (hfirst : Causal first) (hsecond : Causal second)

include hstarves hfirst hsecond

/-- What `second` leaves is left, also when `first` has left it no byte. -/
theorem Agree.rest_bind_map :
    (whole.run bytes).rest = (second.run (first.run bytes).rest).rest := by
  rw [(h bytes).rest_eq, run_bind]
  cases hr : (first.run bytes).result with
  | ok a => rfl
  | error why =>
    obtain rfl : why = .outOfBytes := hstarves bytes why hr
    have hnil := (hfirst.starves_of_result hr).2
    show (first.run bytes).rest = (second.run (first.run bytes).rest).rest
    rw [hnil]
    exact (List.suffix_nil.1 (hsecond.suffix [])).symm

theorem Agree.used_bind_map :
    whole.used bytes = first.used bytes + second.used (first.run bytes).rest := by
  have hmid := (hfirst.suffix bytes).length_le
  have hend := (hsecond.suffix (first.run bytes).rest).length_le
  unfold used
  rw [h.rest_bind_map bytes hstarves hfirst hsecond]
  omega

end

end Roll

end DiceFormula
