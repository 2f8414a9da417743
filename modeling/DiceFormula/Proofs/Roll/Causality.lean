import DiceFormula.Roll.Dice

/-!
# Rolls read their stream byte by byte

A roll decides byte by byte whether it goes on. So the bytes that it draws
settle what it comes to, whatever follows them (`Draws.run_append`), and on
fewer of them it starves, with every byte drawn (`Draws.starves`). All rolls of
this library are of this kind (`Causal`): single draws are, and sequences of
rolls that are.
-/

namespace DiceFormula

namespace Roll

variable {α β : Type}

/-- `x` runs out of `bytes`, and draws all of them. -/
def Starves (x : Roll α) (bytes : List Byte) : Prop :=
  (x.run bytes).result = .error .outOfBytes ∧ (x.run bytes).rest = []

/-- `x` draws `drawn` and no more, and needs all of it. -/
structure Draws (x : Roll α) (drawn : List Byte) (result : Except Failure α)
    (log : List Event) : Prop where
  run_append : ∀ more, x.run (drawn ++ more) = ⟨result, more, log⟩
  starves : ∀ short more, drawn = short ++ more → more ≠ [] → x.Starves short

/-- On every stream `x` draws what it needs from its front, or starves. -/
def Causal (x : Roll α) : Prop :=
  ∀ bytes, x.Starves bytes ∨ ∃ drawn rest result log, bytes = drawn ++ rest ∧
    result ≠ .error .outOfBytes ∧ x.Draws drawn result log

/-! ## Sequences -/

section

variable {x : Roll α} {f : α → Roll β} {a : α} {bytes d e rest : List Byte} {log : List Event}

theorem Starves.bind (h : x.Starves bytes) (f : α → Roll β) : (x >>= f).Starves bytes := by
  obtain ⟨hresult, hrest⟩ := h
  unfold Starves
  rw [run_bind, hresult]
  exact ⟨rfl, hrest⟩

/-- What follows starves on what is left to it. -/
theorem Draws.starves_bind (h : x.Draws d (.ok a) log) (hf : (f a).Starves rest) :
    (x >>= f).Starves (d ++ rest) := by
  unfold Starves
  rw [run_bind_ok (h.run_append rest)]
  exact hf

theorem Draws.bind_error {why : Failure} (h : x.Draws d (.error why) log) (f : α → Roll β) :
    (x >>= f).Draws d (.error why) log where
  run_append more := run_bind_error (h.run_append more) f
  starves short more hd ne := (h.starves short more hd ne).bind f

theorem Draws.bind {r : Except Failure β} {log' : List Event} (h : x.Draws d (.ok a) log)
    (hf : (f a).Draws e r log') : (x >>= f).Draws (d ++ e) r (log ++ log') where
  run_append more := by
    rw [List.append_assoc, run_bind_ok (h.run_append (e ++ more)), hf.run_append]
  starves short more hde ne := by
    -- the stream ends among the bytes of the second roll or among those of the first
    rcases List.append_eq_append_iff.1 hde with ⟨u, rfl, he⟩ | ⟨u, rfl, rfl⟩
    · exact h.starves_bind (hf.starves u more he ne)
    · by_cases hu : u = []
      · subst hu
        rw [List.append_nil] at h
        have hnone := hf.starves [] e rfl ne
        simpa using h.starves_bind hnone
      · exact (h.starves short u rfl hu).bind f

theorem Causal.bind (hx : Causal x) (hf : ∀ a, Causal (f a)) : Causal (x >>= f) := by
  intro bytes
  rcases hx bytes with hstarves | ⟨d, rest, result, log, rfl, hresult, hd⟩
  · exact .inl (hstarves.bind f)
  · cases result with
    | error why =>
      have hwhy : why ≠ .outOfBytes := fun h => hresult (congrArg Except.error h)
      exact .inr ⟨d, rest, .error why, log, rfl, by simpa using hwhy, hd.bind_error f⟩
    | ok a =>
      rcases hf a rest with hstarves | ⟨e, rest, r, log', rfl, hr, he⟩
      · exact .inl (hd.starves_bind hstarves)
      · exact .inr ⟨d ++ e, rest, r, _, (List.append_assoc d e rest).symm, hr, hd.bind he⟩

theorem draws_nil {r : Except Failure α} (h : ∀ bytes, x.run bytes = ⟨r, bytes, log⟩) :
    x.Draws [] r log where
  run_append := h
  starves _ _ hnil ne := absurd (List.append_eq_nil_iff.1 hnil.symm).2 ne

theorem causal_of_run {r : Except Failure α} (hr : r ≠ .error .outOfBytes)
    (h : ∀ bytes, x.run bytes = ⟨r, bytes, log⟩) : Causal x :=
  fun bytes => .inr ⟨[], bytes, r, log, rfl, hr, draws_nil h⟩

theorem causal_pure (a : α) : Causal (pure a : Roll α) := causal_of_run (by simp) (run_pure a)

theorem causal_fail {why : Failure} (h : why ≠ .outOfBytes) : Causal (fail why : Roll α) :=
  causal_of_run (by simpa using h) (run_fail why)

theorem causal_tell (event : Event) : Causal (tell event) :=
  causal_of_run (by simp) (run_tell event)

theorem causal_tellAll (events : List Event) : Causal (tellAll events) :=
  causal_of_run (by simp) (run_tellAll events)

theorem causal_ofExcept (r : Except DiceError α) : Causal (ofExcept r) := by
  cases r with
  | ok a => exact causal_pure a
  | error e => exact causal_fail (by simp)

theorem Causal.map (hx : Causal x) (g : α → β) : Causal (g <$> x) := by
  rw [← bind_pure_comp]
  exact hx.bind fun a => causal_pure (g a)

theorem causal_mapM {g : α → Roll β} {xs : List α} (h : ∀ x ∈ xs, Causal (g x)) :
    Causal (xs.mapM g) := by
  induction xs with
  | nil => exact causal_pure []
  | cons x xs ih =>
    obtain ⟨hx, hxs⟩ := List.forall_mem_cons.1 h
    rw [List.mapM_cons]
    exact hx.bind fun y => (ih hxs).bind fun ys => causal_pure (y :: ys)

/-- Only a refusal becomes a value, so starving stays what it is. -/
theorem Causal.attempt (hx : Causal x) : Causal x.attempt := by
  have hstarves : ∀ {bytes}, x.Starves bytes → x.attempt.Starves bytes := by
    rintro bytes ⟨hresult, hrest⟩
    unfold Starves
    simp [Roll.attempt, hresult, hrest]
  intro bytes
  rcases hx bytes with h | ⟨d, rest, result, log, rfl, hresult, hd⟩
  · exact .inl (hstarves h)
  · have hrun : ∀ {r}, (∀ more, x.attempt.run (d ++ more) = ⟨r, more, log⟩) →
        x.attempt.Draws d r log := fun hr =>
      ⟨hr, fun short more h ne => hstarves (hd.starves short more h ne)⟩
    rcases result with (e | _ | _ | word) | a
    · exact .inr ⟨d, rest, .ok (.error e), log, rfl, by simp,
        hrun fun more => run_attempt_refused (hd.run_append more)⟩
    · exact absurd rfl hresult
    · exact .inr ⟨d, rest, .error .unwritable, log, rfl, by simp,
        hrun fun more => run_attempt_error (hd.run_append more) (by simp)⟩
    · exact .inr ⟨d, rest, .error (.unknownMode word), log, rfl, by simp,
        hrun fun more => run_attempt_error (hd.run_append more) (by simp)⟩
    · exact .inr ⟨d, rest, .ok (.ok a), log, rfl, by simp,
        hrun fun more => run_attempt_ok (hd.run_append more)⟩

end

/-! ## Single draws -/

theorem Draws.cons_reject {span : Nat} {b : Byte} {d : List Byte} {r : Except Failure Nat}
    {log : List Event} (h : (remainder span).Draws d r log) (hb : acceptLimit span ≤ b.val) :
    (remainder span).Draws (b :: d) r (.rejectedByte b.val span :: log) where
  run_append more := by
    rw [List.cons_append, run_remainder_reject hb, h.run_append]
  starves short more hbd ne := by
    cases short with
    | nil => exact ⟨rfl, rfl⟩
    | cons c short =>
      obtain ⟨rfl, hd⟩ := List.cons.inj hbd
      have := h.starves short more hd ne
      unfold Starves
      rw [run_remainder_reject hb]
      exact this

theorem draws_accept {span : Nat} {b : Byte} (hb : b.val < acceptLimit span) :
    (remainder span).Draws [b] (.ok (b.val % span)) [] where
  run_append more := run_remainder_accept hb more
  starves short more h ne := by
    rcases List.append_eq_singleton_iff.1 h.symm with ⟨rfl, -⟩ | ⟨-, rfl⟩
    · exact ⟨rfl, rfl⟩
    · exact absurd rfl ne

/-- A draw ends with the first byte that is accepted. -/
theorem causal_remainder (span : Nat) : Causal (remainder span) := by
  intro bytes
  induction bytes with
  | nil => exact .inl ⟨rfl, rfl⟩
  | cons b bytes ih =>
    by_cases hb : b.val < acceptLimit span
    · exact .inr ⟨[b], bytes, .ok (b.val % span), [], rfl, by simp, draws_accept hb⟩
    · have hle := Nat.le_of_not_lt hb
      rcases ih with hstarves | ⟨d, rest, r, log, rfl, hr, hd⟩
      · refine .inl ?_
        unfold Starves
        rw [run_remainder_reject hle]
        exact hstarves
      · exact .inr ⟨b :: d, rest, r, _, rfl, hr, hd.cons_reject hle⟩

theorem causal_uniform (minimum maximum : Int) : Causal (uniform minimum maximum) := by
  by_cases h : 1 ≤ maximum - minimum + 1 ∧ maximum - minimum + 1 ≤ byteDomain
  · rw [uniform_of_span h.1 h.2]
    exact (causal_remainder _).map _
  · rw [uniform_of_not_span h]
    split
    · exact causal_fail (by simp)
    · exact causal_fail (by simp)

/-! ## What a causal roll gives -/

section

variable {x : Roll α} {bytes : List Byte} {a : α}

theorem Causal.suffix (hx : Causal x) (bytes : List Byte) : (x.run bytes).rest <:+ bytes := by
  rcases hx bytes with ⟨-, hrest⟩ | ⟨d, rest, r, log, rfl, -, hd⟩
  · rw [hrest]
    exact List.nil_suffix
  · rw [hd.run_append]
    exact List.suffix_append d rest

theorem Causal.starves_of_result (hx : Causal x)
    (h : (x.run bytes).result = .error .outOfBytes) : x.Starves bytes := by
  rcases hx bytes with hstarves | ⟨d, rest, r, log, rfl, hr, hd⟩
  · exact hstarves
  · rw [hd.run_append] at h
    exact absurd h hr

/-- A value is settled by the bytes that are used for it. -/
theorem Causal.exists_draws (hx : Causal x) (h : (x.run bytes).result = .ok a) :
    ∃ drawn, bytes = drawn ++ (x.run bytes).rest ∧ x.used bytes = drawn.length ∧
      x.Draws drawn (.ok a) (x.run bytes).log := by
  rcases hx bytes with ⟨hstarves, -⟩ | ⟨d, rest, r, log, rfl, -, hd⟩
  · rw [hstarves] at h
    cases h
  · have hrun := hd.run_append rest
    rw [hrun] at h
    rw [used, hrun]
    obtain rfl : r = .ok a := h
    exact ⟨d, rfl, by rw [List.length_append, Nat.add_sub_cancel], hd⟩

theorem Causal.run_of_take_eq (hx : Causal x) (h : (x.run bytes).result = .ok a)
    {other : List Byte} (same : other.take (x.used bytes) = bytes.take (x.used bytes)) :
    x.run other = ⟨.ok a, other.drop (x.used bytes), (x.run bytes).log⟩ := by
  obtain ⟨drawn, hbytes, hused, hd⟩ := hx.exists_draws h
  have htake : bytes.take (x.used bytes) = drawn := by
    rw [hused, hbytes, List.take_left]
  have hother : other = drawn ++ other.drop (x.used bytes) := by
    rw [← htake, ← same, List.take_append_drop]
  have hrun := hd.run_append (other.drop (x.used bytes))
  rwa [← hother] at hrun

theorem Causal.starves_take (hx : Causal x) (h : (x.run bytes).result = .ok a) {k : Nat}
    (hk : k < x.used bytes) : x.Starves (bytes.take k) := by
  obtain ⟨drawn, hbytes, hused, hd⟩ := hx.exists_draws h
  rw [hused] at hk
  have htake : bytes.take k = drawn.take k := by
    rw [hbytes, List.take_append_of_le_length (Nat.le_of_lt hk)]
  have hne : drawn.drop k ≠ [] := List.ne_nil_of_length_pos (by rw [List.length_drop]; omega)
  rw [htake]
  exact hd.starves _ _ (List.take_append_drop k drawn).symm hne

theorem Starves.used_eq (h : x.Starves bytes) : x.used bytes = bytes.length := by
  rw [used, h.2, List.length_nil, Nat.sub_zero]

theorem used_le (x : Roll α) (bytes : List Byte) : x.used bytes ≤ bytes.length :=
  Nat.sub_le _ _

theorem Causal.used_of_take_eq (hx : Causal x) (h : (x.run bytes).result = .ok a)
    {other : List Byte} (same : other.take (x.used bytes) = bytes.take (x.used bytes)) :
    x.used other = x.used bytes := by
  have hle := x.used_le bytes
  have hlength : x.used bytes ≤ other.length := by
    have := congrArg List.length same
    rw [List.length_take, List.length_take] at this
    omega
  rw [used, hx.run_of_take_eq h same, List.length_drop]
  omega

theorem Causal.used_take (hx : Causal x) (h : (x.run bytes).result = .ok a) {k : Nat}
    (hk : k < x.used bytes) : x.used (bytes.take k) = k := by
  have hle := x.used_le bytes
  rw [(hx.starves_take h hk).used_eq, List.length_take]
  omega

end

end Roll

open Roll

/-! ## Dice -/

theorem causal_rollTimes (sides : Int) (n : Nat) : Causal (rollTimes sides n) := by
  induction n with
  | zero => exact causal_pure 0
  | succ n ih => exact (causal_uniform 1 sides).bind fun face => ih.map (face + ·)

theorem Formula.causal_total (f : Formula) (mode : Mode) : Causal (f.total mode) := by
  cases mode with
  | average => exact causal_pure _
  | simulate => exact (causal_mapM fun d _ => causal_rollTimes d.sides d.count.toNat).map _

theorem causal_evaluate (mode : Mode) (text : List Char) : Causal (evaluate mode text) := by
  refine (causal_tell _).bind fun _ => Causal.bind ?_ fun f => f.causal_total mode
  exact (causal_tellAll _).bind fun _ => causal_ofExcept _

end DiceFormula
