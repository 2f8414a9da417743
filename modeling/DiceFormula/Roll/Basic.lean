import DiceFormula.Event

/-!
# Rolls

A roll is a computation that draws bytes from a stream, reports events, and
ends in a value or a failure. Its `run` on a stream says all three: the result,
the bytes that are left, and the log. A failure keeps what was drawn and
reported before it; nothing is given back.
-/

namespace DiceFormula

abbrev Byte := Fin 256

/-- What a roll makes of a stream. -/
@[ext] structure Run (α : Type) where
  result : Except Failure α
  rest : List Byte
  log : List Event

@[ext] structure Roll (α : Type) where
  run : List Byte → Run α

namespace Roll

variable {α β γ : Type}

theorem ext_run {x y : Roll α} (h : ∀ bytes, x.run bytes = y.run bytes) : x = y :=
  Roll.ext (funext h)

def done (a : α) : Roll α := ⟨fun bytes => ⟨.ok a, bytes, []⟩⟩

def fail (why : Failure) : Roll α := ⟨fun bytes => ⟨.error why, bytes, []⟩⟩

def tell (event : Event) : Roll Unit := ⟨fun bytes => ⟨.ok (), bytes, [event]⟩⟩

def tellAll (events : List Event) : Roll Unit := ⟨fun bytes => ⟨.ok (), bytes, events⟩⟩

/-- Go on with the value of `x` on the bytes it left; stop if it failed. -/
def andThen (x : Roll α) (f : α → Roll β) : Roll β :=
  ⟨fun bytes =>
    let first := x.run bytes
    match first.result with
    | .error why => ⟨.error why, first.rest, first.log⟩
    | .ok a =>
      let next := (f a).run first.rest
      ⟨next.result, next.rest, first.log ++ next.log⟩⟩

def mapValue (f : α → β) (x : Roll α) : Roll β :=
  ⟨fun bytes =>
    let run := x.run bytes
    ⟨run.result.map f, run.rest, run.log⟩⟩

instance : Monad Roll where
  pure := done
  bind := andThen
  map := mapValue

@[simp] theorem run_pure (a : α) (bytes : List Byte) :
    (pure a : Roll α).run bytes = ⟨.ok a, bytes, []⟩ := rfl

@[simp] theorem run_fail (why : Failure) (bytes : List Byte) :
    (fail why : Roll α).run bytes = ⟨.error why, bytes, []⟩ := rfl

@[simp] theorem run_tell (event : Event) (bytes : List Byte) :
    (tell event).run bytes = ⟨.ok (), bytes, [event]⟩ := rfl

@[simp] theorem run_tellAll (events : List Event) (bytes : List Byte) :
    (tellAll events).run bytes = ⟨.ok (), bytes, events⟩ := rfl

@[simp] theorem run_map (f : α → β) (x : Roll α) (bytes : List Byte) :
    (f <$> x).run bytes =
      ⟨(x.run bytes).result.map f, (x.run bytes).rest, (x.run bytes).log⟩ := rfl

theorem run_bind (x : Roll α) (f : α → Roll β) (bytes : List Byte) :
    (x >>= f).run bytes = match (x.run bytes).result with
      | .error why => ⟨.error why, (x.run bytes).rest, (x.run bytes).log⟩
      | .ok a => ⟨((f a).run (x.run bytes).rest).result, ((f a).run (x.run bytes).rest).rest,
          (x.run bytes).log ++ ((f a).run (x.run bytes).rest).log⟩ := rfl

theorem run_bind_ok {x : Roll α} {a : α} {bytes rest : List Byte} {log : List Event}
    (h : x.run bytes = ⟨.ok a, rest, log⟩) (f : α → Roll β) :
    (x >>= f).run bytes =
      ⟨((f a).run rest).result, ((f a).run rest).rest, log ++ ((f a).run rest).log⟩ := by
  rw [run_bind, h]

theorem run_bind_error {x : Roll α} {why : Failure} {bytes rest : List Byte} {log : List Event}
    (h : x.run bytes = ⟨.error why, rest, log⟩) (f : α → Roll β) :
    (x >>= f).run bytes = ⟨.error why, rest, log⟩ := by
  rw [run_bind, h]

instance : LawfulMonad Roll := LawfulMonad.mk' Roll
  (fun x => ext_run fun bytes => by
    rw [run_map]
    rcases x.run bytes with ⟨why | a, rest, log⟩ <;> rfl)
  (fun a f => ext_run fun bytes => by simp [run_bind])
  (fun x f g => ext_run fun bytes => by
    simp only [run_bind]
    rcases x.run bytes with ⟨why | a, rest, log⟩
    · rfl
    · dsimp only
      rcases (f a).run rest with ⟨why | b, rest', log'⟩
      · rfl
      · simp [List.append_assoc])
  (fun _ _ => rfl)
  (fun _ _ => rfl)
  (fun _ _ => rfl)
  (fun f x => ext_run fun bytes => by
    rw [run_bind, run_map]
    rcases x.run bytes with ⟨why | a, rest, log⟩ <;> simp [Except.map])
  (fun _ _ => rfl)

def ofExcept : Except DiceError α → Roll α
  | .ok a => pure a
  | .error e => fail (.refused e)

@[simp] theorem run_ofExcept_ok (a : α) (bytes : List Byte) :
    (ofExcept (.ok a)).run bytes = ⟨.ok a, bytes, []⟩ := rfl

@[simp] theorem run_ofExcept_error (e : DiceError) (bytes : List Byte) :
    (ofExcept (.error e) : Roll α).run bytes = ⟨.error (.refused e), bytes, []⟩ := rfl

/-- A refusal becomes a value; any other failure stays one. -/
def attempt (x : Roll α) : Roll (Except DiceError α) :=
  ⟨fun bytes =>
    let run := x.run bytes
    match run.result with
    | .ok a => ⟨.ok (.ok a), run.rest, run.log⟩
    | .error (.refused e) => ⟨.ok (.error e), run.rest, run.log⟩
    | .error why => ⟨.error why, run.rest, run.log⟩⟩

theorem run_attempt_ok {x : Roll α} {a : α} {bytes rest : List Byte} {log : List Event}
    (h : x.run bytes = ⟨.ok a, rest, log⟩) : x.attempt.run bytes = ⟨.ok (.ok a), rest, log⟩ := by
  simp [attempt, h]

theorem run_attempt_refused {x : Roll α} {e : DiceError} {bytes rest : List Byte}
    {log : List Event} (h : x.run bytes = ⟨.error (.refused e), rest, log⟩) :
    x.attempt.run bytes = ⟨.ok (.error e), rest, log⟩ := by
  simp [attempt, h]

theorem run_attempt_error {x : Roll α} {why : Failure} {bytes rest : List Byte}
    {log : List Event} (h : x.run bytes = ⟨.error why, rest, log⟩)
    (hw : ∀ e, why ≠ .refused e) : x.attempt.run bytes = ⟨.error why, rest, log⟩ := by
  cases why with
  | refused e => exact absurd rfl (hw e)
  | outOfBytes => simp [attempt, h]
  | unwritable => simp [attempt, h]
  | unknownMode word => simp [attempt, h]

/-- Every failure becomes a value. -/
def settle (x : Roll α) : Roll (Except Failure α) :=
  ⟨fun bytes => ⟨.ok (x.run bytes).result, (x.run bytes).rest, (x.run bytes).log⟩⟩

@[simp] theorem run_settle (x : Roll α) (bytes : List Byte) :
    x.settle.run bytes = ⟨.ok (x.run bytes).result, (x.run bytes).rest, (x.run bytes).log⟩ := rfl

/-- The value of `x` together with what it reported. -/
def logged (x : Roll α) : Roll (α × List Event) :=
  ⟨fun bytes =>
    let run := x.run bytes
    ⟨run.result.map (·, run.log), run.rest, run.log⟩⟩

/-- How many of `bytes` a run of `x` draws. -/
def used (x : Roll α) (bytes : List Byte) : Nat :=
  bytes.length - (x.run bytes).rest.length

end Roll

end DiceFormula
