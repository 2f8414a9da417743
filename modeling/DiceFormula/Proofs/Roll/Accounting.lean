import DiceFormula.Proofs.Formula.Reading
import DiceFormula.Roll.Dice

/-!
# The account of a roll

Every byte that is drawn rolls the die at hand, or it is rejected and reported;
nothing else is drawn and no other byte is reported (`Account`). Rolls that are
put together have their accounts put together, so a roll of dice that have been
read accounts for one accepted byte for each die (`accountsFor_roll`).
-/

namespace DiceFormula

/-- Dice of the sides `spans` are rolled one after the other with the bytes `drawn`; `warnings` are
those of the `log`. -/
inductive Account : (spans : List Nat) → (drawn : List Byte) → (warnings log : List Event) →
    Prop where
  | nil : Account [] [] [] []
  /-- The die at hand is rolled. -/
  | accept {span : Nat} {b : Byte} {spans : List Nat} {drawn : List Byte}
      {warnings log : List Event} : b.val < acceptLimit span →
      Account spans drawn warnings log → Account (span :: spans) (b :: drawn) warnings log
  /-- The die at hand is still to be rolled. -/
  | reject {span : Nat} {b : Byte} {spans : List Nat} {drawn : List Byte}
      {warnings log : List Event} : acceptLimit span ≤ b.val →
      Account (span :: spans) drawn warnings log →
      Account (span :: spans) (b :: drawn) warnings (.rejectedByte b.val span :: log)
  | warn {event : Event} {spans : List Nat} {drawn : List Byte} {warnings log : List Event} :
      event.topic ≠ .drawing → event.level = .warning →
      Account spans drawn warnings log →
      Account spans drawn (event :: warnings) (event :: log)
  | tell {event : Event} {spans : List Nat} {drawn : List Byte} {warnings log : List Event} :
      event.topic ≠ .drawing → event.level ≠ .warning →
      Account spans drawn warnings log → Account spans drawn warnings (event :: log)

/-- Each byte with the sides of the die that is at hand when it is drawn. The next die is taken up
when a byte is accepted. -/
def moments : List Nat → List Byte → List (Nat × Byte)
  | span :: spans, b :: drawn =>
    (span, b) :: moments (if b.val < acceptLimit span then spans else span :: spans) drawn
  | _, _ => []

section

variable {span : Nat} {b : Byte} {spans : List Nat} {drawn : List Byte}

theorem moments_accept (h : b.val < acceptLimit span) :
    moments (span :: spans) (b :: drawn) = (span, b) :: moments spans drawn := by
  rw [moments, if_pos h]

theorem moments_reject (h : acceptLimit span ≤ b.val) :
    moments (span :: spans) (b :: drawn) = (span, b) :: moments (span :: spans) drawn := by
  rw [moments, if_neg (Nat.not_lt.2 h)]

end

namespace Account

variable {spans spans' : List Nat} {drawn drawn' : List Byte}
  {warnings warnings' log log' : List Event}

/-! ## What an account says -/

theorem append (h : Account spans drawn warnings log) (h' : Account spans' drawn' warnings' log') :
    Account (spans ++ spans') (drawn ++ drawn') (warnings ++ warnings') (log ++ log') := by
  induction h with
  | nil => exact h'
  | accept hb _ ih => exact .accept hb ih
  | reject hb _ ih => exact .reject hb ih
  | warn htopic hlevel _ ih => exact .warn htopic hlevel ih
  | tell htopic hlevel _ ih => exact .tell htopic hlevel ih

/-- As many bytes are `drawn` as dice are rolled and bytes are rejected. -/
theorem length_drawn (h : Account spans drawn warnings log) :
    drawn.length = spans.length + (log.filter fun e => e.topic = .drawing).length := by
  induction h with
  | nil => rfl
  | accept _ _ ih =>
    simp only [List.length_cons, ih]
    omega
  | reject _ _ ih =>
    rw [List.filter_cons_of_pos (by rfl)]
    simp only [List.length_cons] at ih ⊢
    omega
  | warn htopic _ _ ih => rw [List.filter_cons_of_neg (by simpa using htopic), ih]
  | tell htopic _ _ ih => rw [List.filter_cons_of_neg (by simpa using htopic), ih]

theorem map_moments (h : Account spans drawn warnings log) :
    (moments spans drawn).map Prod.snd = drawn := by
  induction h with
  | nil => rfl
  | accept hb _ ih => rw [moments_accept hb, List.map_cons, ih]
  | reject hb _ ih => rw [moments_reject hb, List.map_cons, ih]
  | warn _ _ _ ih => exact ih
  | tell _ _ _ ih => exact ih

/-- Each die is rolled with one accepted byte. -/
theorem accepted (h : Account spans drawn warnings log) :
    ((moments spans drawn).filter fun m => m.2.val < acceptLimit m.1).map Prod.fst = spans := by
  induction h with
  | nil => rfl
  | accept hb _ ih =>
    rw [moments_accept hb, List.filter_cons_of_pos (by simpa using hb), List.map_cons, ih]
  | reject hb _ ih =>
    rw [moments_reject hb, List.filter_cons_of_neg (by simpa using hb), ih]
  | warn _ _ _ ih => exact ih
  | tell _ _ _ ih => exact ih

/-- The bytes that are reported are those that are too high for the die at hand. -/
theorem rejected (h : Account spans drawn warnings log) :
    (log.filter fun e => e.topic = .drawing) =
      ((moments spans drawn).filter fun m => acceptLimit m.1 ≤ m.2.val).map
        fun m => .rejectedByte m.2.val m.1 := by
  induction h with
  | nil => rfl
  | accept hb _ ih =>
    rw [moments_accept hb, List.filter_cons_of_neg (by simpa using hb), ih]
  | reject hb _ ih =>
    rw [moments_reject hb, List.filter_cons_of_pos (by rfl),
      List.filter_cons_of_pos (by simpa using hb), List.map_cons, ih]
  | warn htopic _ _ ih => rw [List.filter_cons_of_neg (by simpa using htopic), ih]
  | tell htopic _ _ ih => rw [List.filter_cons_of_neg (by simpa using htopic), ih]

theorem filter_warning (h : Account spans drawn warnings log) :
    (log.filter fun e => e.level = .warning) = warnings := by
  induction h with
  | nil => rfl
  | accept _ _ ih => exact ih
  | reject _ _ ih => rw [List.filter_cons_of_neg (by simp [Event.level]), ih]
  | warn _ hlevel _ ih => rw [List.filter_cons_of_pos (by simpa using hlevel), ih]
  | tell _ hlevel _ ih => rw [List.filter_cons_of_neg (by simpa using hlevel), ih]

theorem of_events {events : List Event}
    (h : ∀ e ∈ events, e.topic ≠ .drawing ∧ e.level ≠ .warning) : Account [] [] [] events := by
  induction events with
  | nil => exact .nil
  | cons e events ih =>
    obtain ⟨⟨htopic, hlevel⟩, hevents⟩ := List.forall_mem_cons.1 h
    exact .tell htopic hlevel (ih hevents)

end Account

namespace Roll

variable {α β : Type}

/-! ## Rolls with an account -/

/-- Where `x` has a value, it has rolled dice of these `spans` and given these `warnings`. -/
def AccountsFor (x : Roll α) (spans : List Nat) (warnings : List Event) : Prop :=
  ∀ bytes a rest log, x.run bytes = ⟨.ok a, rest, log⟩ →
    ∃ drawn, bytes = drawn ++ rest ∧ Account spans drawn warnings log

section

variable {x : Roll α} {f : α → Roll β} {spans spans' : List Nat}
  {warnings warnings' : List Event}

theorem exists_run_of_run_bind {b : β} {bytes rest : List Byte} {log : List Event}
    (h : (x >>= f).run bytes = ⟨.ok b, rest, log⟩) :
    ∃ a mid log₁ log₂, x.run bytes = ⟨.ok a, mid, log₁⟩ ∧ (f a).run mid = ⟨.ok b, rest, log₂⟩ ∧
      log₁ ++ log₂ = log := by
  rcases hx : x.run bytes with ⟨why | a, mid, log₁⟩
  · rw [run_bind_error hx] at h
    cases h
  · rw [run_bind_ok hx] at h
    rcases hf : (f a).run mid with ⟨result, rest', log₂⟩
    rw [hf] at h
    cases h
    exact ⟨a, mid, log₁, log₂, rfl, hf, rfl⟩

theorem AccountsFor.bind (hx : x.AccountsFor spans warnings)
    (hf : ∀ a, (f a).AccountsFor spans' warnings') :
    (x >>= f).AccountsFor (spans ++ spans') (warnings ++ warnings') := by
  intro bytes b rest log h
  obtain ⟨a, mid, log₁, log₂, hrun, hrun', rfl⟩ := exists_run_of_run_bind h
  obtain ⟨drawn, rfl, haccount⟩ := hx _ _ _ _ hrun
  obtain ⟨drawn', rfl, haccount'⟩ := hf _ _ _ _ _ hrun'
  exact ⟨drawn ++ drawn', (List.append_assoc drawn drawn' rest).symm,
    haccount.append haccount'⟩

theorem accountsFor_of_run {a : α} {log : List Event}
    (h : ∀ bytes, x.run bytes = ⟨.ok a, bytes, log⟩) (haccount : Account [] [] warnings log) :
    x.AccountsFor [] warnings := by
  intro bytes a' rest log' hrun
  rw [h bytes] at hrun
  cases hrun
  exact ⟨[], rfl, haccount⟩

theorem accountsFor_pure (a : α) : (pure a : Roll α).AccountsFor [] [] :=
  accountsFor_of_run (run_pure a) .nil

theorem AccountsFor.map (hx : x.AccountsFor spans warnings) (g : α → β) :
    (g <$> x).AccountsFor spans warnings := by
  have h := hx.bind fun a => accountsFor_pure (g a)
  rwa [bind_pure_comp, List.append_nil, List.append_nil] at h

theorem accountsFor_mapM {f : α → Roll β} {xs : List α} {spans : α → List Nat}
    {warnings : α → List Event} (h : ∀ x ∈ xs, (f x).AccountsFor (spans x) (warnings x)) :
    (xs.mapM f).AccountsFor (xs.flatMap spans) (xs.flatMap warnings) := by
  induction xs with
  | nil => exact accountsFor_pure []
  | cons x xs ih =>
    obtain ⟨hx, hxs⟩ := List.forall_mem_cons.1 h
    rw [List.mapM_cons, List.flatMap_cons, List.flatMap_cons]
    refine hx.bind fun y => ?_
    rw [bind_pure_comp]
    exact (ih hxs).map _

/-- Whatever is rejected on the way, one byte is accepted. -/
theorem accountsFor_remainder (span : Nat) : (remainder span).AccountsFor [span] [] := by
  intro bytes
  induction bytes with
  | nil =>
    intro a rest log h
    cases h
  | cons b bytes ih =>
    intro a rest log h
    by_cases hb : b.val < acceptLimit span
    · rw [run_remainder_accept hb] at h
      cases h
      exact ⟨[b], rfl, .accept hb .nil⟩
    · have hle := Nat.le_of_not_lt hb
      rw [run_remainder_reject hle] at h
      rcases hrun : (remainder span).run bytes with ⟨result, rest', log'⟩
      rw [hrun] at h
      cases h
      obtain ⟨drawn, rfl, haccount⟩ := ih _ _ _ hrun
      exact ⟨b :: drawn, rfl, .reject hle haccount⟩

end

end Roll

open Roll

/-! ## Dice -/

/-- The sides of each single die. -/
def Dice.spans (d : Dice) : List Nat := List.replicate d.count.toNat d.sides.toNat

theorem accountsFor_rollTimes {sides : Int} (lo : 1 ≤ sides) (hi : sides ≤ byteDomain) (n : Nat) :
    (rollTimes sides n).AccountsFor (List.replicate n sides.toNat) [] := by
  induction n with
  | zero => exact accountsFor_pure 0
  | succ n ih =>
    have hface : (uniform 1 sides).AccountsFor [sides.toNat] [] := by
      rw [uniform_one lo hi]
      exact (accountsFor_remainder sides.toNat).map _
    exact hface.bind fun face => ih.map (face + ·)

/-- Dice that have been read roll one byte each, and give no warning. -/
theorem Formula.accountsFor_roll {text : List Char} {f : Formula}
    (h : Formula.read .simulate text = .ok f) :
    f.roll.AccountsFor (f.dice.flatMap Dice.spans) [] := by
  have hdice : ∀ d ∈ f.dice, d.roll.AccountsFor d.spans [] := fun d hd => by
    have hs := Formula.sound_of_read h d hd
    exact accountsFor_rollTimes hs.one_le_sides (hs.sides_le rfl) _
  have hall := accountsFor_mapM hdice
  rw [List.flatMap_eq_nil_iff.2 fun d _ => rfl] at hall
  exact hall.map _

theorem Formula.account_report (mode : Mode) (text : List Char) :
    Account [] [] [] (Formula.report mode text) := by
  apply Account.of_events
  intro e he
  have hcases : (∃ n, e = .foundDice n text) ∨ ∃ n, e = .foundAdditions n text := by
    unfold Formula.report at he
    dsimp only at he
    split at he
    · rcases List.mem_cons.1 he with rfl | he
      · exact .inl ⟨_, rfl⟩
      · split at he
        · exact .inr ⟨_, List.mem_singleton.1 he⟩
        · cases he
    · cases he
  rcases hcases with ⟨n, rfl⟩ | ⟨n, rfl⟩
  · exact ⟨nofun, nofun⟩
  · exact ⟨nofun, nofun⟩

end DiceFormula
