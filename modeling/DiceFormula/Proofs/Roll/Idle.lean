import DiceFormula.Proofs.Roll.Agreement
import DiceFormula.Proofs.Roll.Outcome

/-!
# Idle rolls

An idle roll comes to one value on every stream and leaves the stream as it is.
Wherever it stands in a sequence of rolls it can be left out: the other values
stay as they are, and so do the bytes that are left (`gives_mapM_filter`).
-/

namespace DiceFormula

namespace Roll

variable {α β : Type} {bytes mid rest : List Byte}

/-! ## One roll -/

theorem Agree.gives_iff {x y : Roll α} (h : Agree Eq x y) {a : α} :
    x.Gives bytes a rest ↔ y.Gives bytes a rest := by
  rw [Gives, Gives, h.result_eq, (h bytes).rest_eq]

theorem gives_settle {x : Roll α} {outcome : Except Failure α} :
    x.settle.Gives bytes outcome rest ↔
      (x.run bytes).result = outcome ∧ (x.run bytes).rest = rest := by
  simp [Gives]

theorem Gives.unique {x : Roll α} {a b : α} (h : x.Gives bytes a mid)
    (h' : x.Gives bytes b rest) : a = b ∧ mid = rest :=
  ⟨Except.ok.inj (h.1.symm.trans h'.1), h.2.symm.trans h'.2⟩

def Idle (x : Roll α) : Prop := ∃ a, ∀ bytes, x.Gives bytes a bytes

theorem idle_pure (a : α) : Idle (pure a) := ⟨a, fun _ => gives_pure.2 ⟨rfl, rfl⟩⟩

theorem Idle.map {x : Roll α} (h : x.Idle) (f : α → β) : (f <$> x).Idle := by
  obtain ⟨a, ha⟩ := h
  exact ⟨f a, fun bytes => gives_map.2 ⟨a, ha bytes, rfl⟩⟩

theorem Idle.of_agree {x y : Roll α} (h : Agree Eq x y) (hy : y.Idle) : x.Idle := by
  obtain ⟨a, ha⟩ := hy
  exact ⟨a, fun bytes => h.gives_iff.2 (ha bytes)⟩

theorem Idle.gives {x : Roll α} (h : x.Idle) {a : α} (hx : x.Gives bytes a rest)
    (other : List Byte) : x.Gives other a other := by
  obtain ⟨b, hb⟩ := h
  obtain ⟨rfl, -⟩ := (hb bytes).unique hx
  exact hb other

/-! ## One after another -/

section

variable {f : α → Roll β} {xs : List α} {ys : List β}

/-- Rolls that always come to a value do so one after another. -/
theorem exists_gives_mapM (h : ∀ x ∈ xs, ∀ bytes, ∃ y rest, (f x).Gives bytes y rest)
    (bytes : List Byte) : ∃ ys rest, (xs.mapM f).Gives bytes ys rest := by
  induction xs generalizing bytes with
  | nil => exact ⟨[], bytes, gives_mapM_nil.2 ⟨rfl, rfl⟩⟩
  | cons x xs ih =>
    obtain ⟨y, mid, hy⟩ := h x List.mem_cons_self bytes
    obtain ⟨ys, rest, hys⟩ := ih (fun x hx => h x (List.mem_cons_of_mem _ hx)) mid
    exact ⟨y :: ys, rest, gives_mapM_cons.2 ⟨y, mid, ys, hy, hys, rfl⟩⟩

theorem length_eq_of_gives_mapM (h : (xs.mapM f).Gives bytes ys rest) :
    ys.length = xs.length := by
  have hall : List.Forall₂ (fun _ _ => True) xs ys :=
    forall₂_of_gives_mapM (fun _ _ _ _ _ _ => trivial) h
  exact hall.length_eq.symm

theorem rest_mapM_cons {x : α} {y : β} (h : (f x).Gives bytes y mid) (xs : List α) :
    (((x :: xs).mapM f).run bytes).rest = ((xs.mapM f).run mid).rest := by
  obtain ⟨hy, rfl⟩ := h
  rw [List.mapM_cons, run_bind, hy]
  show ((xs.mapM f >>= fun ys => pure (y :: ys)).run _).rest = _
  rw [run_bind]
  cases ((xs.mapM f).run ((f x).run bytes).rest).result <;> rfl

/-- The value at `i` is that of the roll there, between what is left before it and behind. -/
theorem gives_mapM_getElem? (h : (xs.mapM f).Gives bytes ys rest) {i : Nat} {x : α}
    (hx : xs[i]? = some x) :
    ∃ y, ys[i]? = some y ∧ (f x).Gives (((xs.take i).mapM f).run bytes).rest y
      (((xs.take (i + 1)).mapM f).run bytes).rest := by
  induction xs generalizing bytes ys i with
  | nil => cases hx
  | cons head xs ih =>
    obtain ⟨y, mid, ys, hy, hys, rfl⟩ := gives_mapM_cons.1 h
    rw [List.take_succ_cons, rest_mapM_cons hy]
    cases i with
    | zero =>
      cases hx
      exact ⟨y, rfl, hy⟩
    | succ i =>
      rw [List.take_succ_cons, rest_mapM_cons hy]
      exact ih hys hx

/-! ## Leaving out -/

/-- The members of `ys` that belong to the `xs` to `keep`. -/
def kept (keep : α → Bool) (xs : List α) (ys : List β) : List β :=
  ((xs.zip ys).filter fun p => keep p.1).map Prod.snd

theorem kept_cons_of_pos {keep : α → Bool} {x : α} (h : keep x = true) (y : β) :
    kept keep (x :: xs) (y :: ys) = y :: kept keep xs ys := by
  simp [kept, h]

theorem kept_cons_of_neg {keep : α → Bool} {x : α} (h : keep x = false) (y : β) :
    kept keep (x :: xs) (y :: ys) = kept keep xs ys := by
  simp [kept, h]

/-- Elements whose rolls are idle can be left out. -/
theorem gives_mapM_filter {keep : α → Bool} (idle : ∀ x ∈ xs, keep x = false → (f x).Idle)
    (h : (xs.mapM f).Gives bytes ys rest) :
    ((xs.filter keep).mapM f).Gives bytes (kept keep xs ys) rest := by
  induction xs generalizing bytes ys with
  | nil =>
    obtain ⟨-, rfl⟩ := gives_mapM_nil.1 h
    exact gives_mapM_nil.2 ⟨rfl, rfl⟩
  | cons x xs ih =>
    obtain ⟨y, mid, ys, hy, hys, rfl⟩ := gives_mapM_cons.1 h
    have hkept := ih (fun x hx => idle x (List.mem_cons_of_mem _ hx)) hys
    cases hx : keep x with
    | true =>
      rw [List.filter_cons_of_pos hx, kept_cons_of_pos hx]
      exact gives_mapM_cons.2 ⟨y, mid, _, hy, hkept, rfl⟩
    | false =>
      have hidle := idle x List.mem_cons_self hx
      obtain ⟨-, rfl⟩ := hy.unique (hidle.gives hy bytes)
      rw [List.filter_cons_of_neg (by simp [hx]), kept_cons_of_neg hx]
      exact hkept

theorem rest_eq_of_gives_mapM (idle : ∀ x ∈ xs, (f x).Idle)
    (h : (xs.mapM f).Gives bytes ys rest) : rest = bytes := by
  have hnone : ((xs.filter fun _ => false).mapM f).Gives bytes (kept _ xs ys) rest :=
    gives_mapM_filter (fun x hx _ => idle x hx) h
  rw [List.filter_false] at hnone
  exact (gives_mapM_nil.1 hnone).2.symm

end

end Roll

end DiceFormula
