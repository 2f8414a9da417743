import Mathlib.Data.List.TakeWhile

/-!
# Patterns

Patterns of characters, and the search for them. `fits` lists every way in which
a pattern fits a text from its first character on, in the order in which the
ways are tried: a greedy run is as long as it can be first, a lazy one as short
as it can be. `finds` goes through a text from the left, takes the first way at
the first place that has one, and goes on behind what the pattern has taken.
-/

namespace DiceFormula

/-- One way to fit a text: what the parts of the pattern take (`pieces`), and what they leave. -/
structure Fit where
  pieces : List (List Char)
  rest : List Char
  deriving DecidableEq, Repr

namespace Fit

def text (m : Fit) : List Char := m.pieces.flatten

/-- The character before `rest`, where `prev` is the one before the whole. -/
def last (m : Fit) (prev : Option Char) : Option Char := m.text.getLast?.or prev

def append (m n : Fit) : Fit := ⟨m.pieces ++ n.pieces, n.rest⟩

end Fit

inductive Pattern where
  | one (kind : Char → Bool)
  /-- At least `least` characters, and as many as can be. -/
  | greedy (least : Nat) (kind : Char → Bool)
  /-- Any number of characters, and as few as can be. -/
  | sparing (kind : Char → Bool)
  | seq (p q : Pattern)
  /-- Every way of `p`, then every way of `q`. -/
  | either (p q : Pattern)
  /-- The character before is of the `kind`. -/
  | behind (kind : Char → Bool)
  /-- `p` fits what follows, and leaves it where it is. -/
  | ahead (p : Pattern)
  /-- The end of the text, or the line feed that ends it. -/
  | final

namespace Pattern

/-- Where a run of characters of a `kind` can end, the longest run first. -/
def splits (kind : Char → Bool) : List Char → List (List Char × List Char)
  | [] => [([], [])]
  | c :: cs =>
    if kind c then (splits kind cs).map (fun s => (c :: s.1, s.2)) ++ [([], c :: cs)]
    else [([], c :: cs)]

/-- All ways to fit, where `prev` is the character before the text. -/
def fits : Pattern → Option Char → List Char → List Fit
  | one _, _, [] => []
  | one kind, _, c :: cs => if kind c then [⟨[[c]], cs⟩] else []
  | greedy least kind, _, cs =>
    (splits kind cs).flatMap fun s => if least ≤ s.1.length then [⟨[s.1], s.2⟩] else []
  | sparing kind, _, cs => (splits kind cs).reverse.map fun s => ⟨[s.1], s.2⟩
  | seq p q, prev, cs =>
    (p.fits prev cs).flatMap fun m => (q.fits (m.last prev) m.rest).map m.append
  | either p q, prev, cs => p.fits prev cs ++ q.fits prev cs
  | behind kind, prev, cs => if prev.any kind then [⟨[], cs⟩] else []
  | ahead p, prev, cs => if (p.fits prev cs).isEmpty then [] else [⟨[], cs⟩]
  | final, _, cs => if cs = [] ∨ cs = ['\n'] then [⟨[], cs⟩] else []

def first (p : Pattern) (prev : Option Char) (cs : List Char) : Option Fit :=
  (p.fits prev cs).head?

/-- What is found in a text of which `skip` characters are taken already. -/
def findsFrom (p : Pattern) : Nat → Option Char → List Char → List Fit
  | 0, prev, [] => (p.first prev []).toList
  | 0, prev, c :: cs =>
    match p.first prev (c :: cs) with
    | some m => m :: findsFrom p (m.text.length - 1) (some c) cs
    | none => findsFrom p 0 (some c) cs
  | _ + 1, _, [] => []
  | skip + 1, _, c :: cs => findsFrom p skip (some c) cs

def finds (p : Pattern) (text : List Char) : List Fit := p.findsFrom 0 none text

variable {kind : Char → Bool} {p q : Pattern} {prev : Option Char} {cs : List Char}

/-! ## Runs -/

/-- Where `g` refuses the characters of a run, only the longest run counts. -/
theorem flatMap_splits {β : Type} {g : List Char × List Char → List β}
    (h : ∀ w c cs, kind c = true → g (w, c :: cs) = []) (cs : List Char) :
    (splits kind cs).flatMap g = g (cs.takeWhile kind, cs.dropWhile kind) := by
  induction cs generalizing g with
  | nil => simp [splits]
  | cons c cs ih =>
    rw [splits]
    by_cases hc : kind c = true
    · have hlong := ih (g := fun s => g (c :: s.1, s.2)) fun w d ds hd => h (c :: w) d ds hd
      rw [if_pos hc, List.flatMap_append, List.flatMap_map, hlong, List.flatMap_singleton,
        h [] c cs hc, List.append_nil, List.takeWhile_cons_of_pos hc, List.dropWhile_cons_of_pos hc]
    · rw [if_neg hc, List.flatMap_singleton, List.takeWhile_cons_of_neg hc,
        List.dropWhile_cons_of_neg hc]

theorem splits_eq_cons (kind : Char → Bool) (cs : List Char) :
    ∃ more, splits kind cs = (cs.takeWhile kind, cs.dropWhile kind) :: more := by
  induction cs with
  | nil => exact ⟨[], rfl⟩
  | cons c cs ih =>
    rw [splits]
    by_cases hc : kind c = true
    · obtain ⟨more, hmore⟩ := ih
      rw [if_pos hc, hmore, List.takeWhile_cons_of_pos hc, List.dropWhile_cons_of_pos hc]
      exact ⟨_, rfl⟩
    · rw [if_neg hc, List.takeWhile_cons_of_neg hc, List.dropWhile_cons_of_neg hc]
      exact ⟨[], rfl⟩

theorem fits_greedy {least : Nat} (h : least ≤ (cs.takeWhile kind).length)
    (prev : Option Char) :
    ∃ more, (greedy least kind).fits prev cs =
      ⟨[cs.takeWhile kind], cs.dropWhile kind⟩ :: more := by
  obtain ⟨more, hmore⟩ := splits_eq_cons kind cs
  rw [fits, hmore, List.flatMap_cons, if_pos h]
  exact ⟨_, rfl⟩

theorem fits_greedy_of_nil {least : Nat} (pos : 0 < least) (h : cs.takeWhile kind = []) :
    (greedy least kind).fits prev cs = [] := by
  have hsplits : splits kind cs = [([], cs)] := by
    cases cs with
    | nil => rfl
    | cons c cs =>
      rw [splits, if_neg]
      intro hc
      rw [List.takeWhile_cons_of_pos hc] at h
      cases h
  rw [fits, hsplits, List.flatMap_singleton]
  exact if_neg (Nat.not_le.2 pos)

theorem fits_seq_greedy (least : Nat)
    (h : ∀ prev c cs, kind c = true → q.fits prev (c :: cs) = []) :
    (seq (greedy least kind) q).fits prev cs =
      if least ≤ (cs.takeWhile kind).length then
        (q.fits ((cs.takeWhile kind).getLast?.or prev) (cs.dropWhile kind)).map
          (Fit.append ⟨[cs.takeWhile kind], cs.dropWhile kind⟩)
      else [] := by
  rw [fits, fits, List.flatMap_assoc, flatMap_splits]
  · split <;> simp [Fit.last, Fit.text]
  · intro w c cs hc
    split <;> simp [h _ c cs hc]

theorem fits_seq_of_nil (h : p.fits prev cs = []) : (seq p q).fits prev cs = [] := by
  rw [fits, h]
  rfl

theorem fits_seq_behind : (seq (behind kind) q).fits prev cs =
    if prev.any kind then q.fits prev cs else [] := by
  have happend : Fit.append ⟨[], cs⟩ = id := funext fun m => rfl
  rw [fits, fits]
  split
  · rw [List.flatMap_singleton, happend, List.map_id]
    rfl
  · rfl

/-! ## The way that is taken -/

theorem first_seq : (seq p q).first prev cs =
    (p.fits prev cs).findSome? fun m => (q.first (m.last prev) m.rest).map m.append := by
  rw [first, fits, List.head?_flatMap]
  simp [first]

/-- A greedy run is as long as it can be where `q` fits behind it. -/
theorem first_seq_greedy {least : Nat} {m : Fit} (h : least ≤ (cs.takeWhile kind).length)
    (hq : q.first ((cs.takeWhile kind).getLast?.or prev) (cs.dropWhile kind) = some m) :
    (seq (greedy least kind) q).first prev cs = some ⟨cs.takeWhile kind :: m.pieces, m.rest⟩ := by
  obtain ⟨more, hfits⟩ := fits_greedy h prev
  have hlast : Fit.last ⟨[cs.takeWhile kind], cs.dropWhile kind⟩ prev =
      (cs.takeWhile kind).getLast?.or prev := by
    simp [Fit.last, Fit.text]
  rw [first_seq, hfits, List.findSome?_cons, hlast, hq]
  rfl

/-- The shortest split with an end or a `halt` character behind it. -/
theorem findSome?_splits_reverse {β : Type} {halt : Char → Bool}
    (h : ∀ c, halt c = false → kind c = true) (f : List Char × List Char → β) (cs : List Char) :
    ((splits kind cs).reverse.findSome? fun s => if s.2.head?.all halt then some (f s) else none) =
      some (f (cs.takeWhile fun c => !halt c, cs.dropWhile fun c => !halt c)) := by
  -- a longer split has one character more in front, so the induction is on what becomes of a split
  induction cs generalizing f with
  | nil => rfl
  | cons c cs ih =>
    cases hc : halt c with
    | true =>
      have htake : (c :: cs).takeWhile (fun c => !halt c) = [] := by simp [hc]
      have hdrop : (c :: cs).dropWhile (fun c => !halt c) = c :: cs := by simp [hc]
      rw [splits, htake, hdrop]
      split <;> simp [hc]
    | false =>
      have htake : (c :: cs).takeWhile (fun c => !halt c) =
          c :: cs.takeWhile fun c => !halt c := by simp [hc]
      have hdrop : (c :: cs).dropWhile (fun c => !halt c) =
          cs.dropWhile fun c => !halt c := by simp [hc]
      rw [splits, if_pos (h c hc), htake, hdrop, List.reverse_append, ← List.map_reverse,
        List.reverse_singleton, List.singleton_append, List.findSome?_cons, List.findSome?_map]
      simp only [List.head?_cons, Option.all_some, hc]
      exact ih fun s => f (c :: s.1, s.2)

/-- A sparing run ends where it comes to a `halt` character, or to the end. -/
theorem first_seq_sparing {halt : Char → Bool} (h : ∀ c, halt c = false → kind c = true)
    (hq : ∀ prev cs, q.first prev cs = if cs.head?.all halt then some ⟨[], cs⟩ else none) :
    (seq (sparing kind) q).first prev cs =
      some ⟨[cs.takeWhile fun c => !halt c], cs.dropWhile fun c => !halt c⟩ := by
  rw [first_seq, fits, List.findSome?_map,
    ← findSome?_splits_reverse h (fun s => (⟨[s.1], s.2⟩ : Fit)) cs]
  congr 1
  funext s
  rw [Function.comp_apply, hq]
  split <;> rfl

/-! ## Searching -/

/-- The character before a place, seen from one character earlier. -/
theorem getLast?_cons_or (c : Char) (u : List Char) (prev : Option Char) :
    (c :: u).getLast?.or prev = u.getLast?.or (some c) := by
  rw [List.getLast?_cons]
  cases u.getLast? <;> rfl

theorem findsFrom_skip (w cs : List Char) :
    p.findsFrom w.length prev (w ++ cs) = p.findsFrom 0 (w.getLast?.or prev) cs := by
  induction w generalizing prev with
  | nil => rfl
  | cons c w ih =>
    show p.findsFrom w.length (some c) (w ++ cs) = _
    rw [ih, getLast?_cons_or]

theorem findsFrom_of_none {c : Char} (h : p.first prev (c :: cs) = none) :
    p.findsFrom 0 prev (c :: cs) = p.findsFrom 0 (some c) cs := by
  rw [findsFrom, h]

/-- The search goes on behind what has been found. -/
theorem findsFrom_of_some {m : Fit} (h : p.first prev cs = some m) (ne : m.text ≠ [])
    (whole : m.text ++ m.rest = cs) :
    p.findsFrom 0 prev cs = m :: p.findsFrom 0 m.text.getLast? m.rest := by
  subst whole
  cases ht : m.text with
  | nil => exact absurd ht ne
  | cons c w =>
    rw [ht, List.cons_append] at h
    rw [List.cons_append, findsFrom, h]
    show m :: p.findsFrom (m.text.length - 1) (some c) (w ++ m.rest) = _
    rw [ht, List.length_cons, Nat.add_sub_cancel, findsFrom_skip, ← getLast?_cons_or c w none,
      Option.or_none]

/-- Places where nothing fits are passed over. -/
theorem findsFrom_pass {w : List Char}
    (h : ∀ u c v, w = u ++ c :: v → p.first (u.getLast?.or prev) (c :: (v ++ cs)) = none) :
    p.findsFrom 0 prev (w ++ cs) = p.findsFrom 0 (w.getLast?.or prev) cs := by
  induction w generalizing prev with
  | nil => rfl
  | cons c w ih =>
    have hlater : ∀ u d v, w = u ++ d :: v →
        p.first (u.getLast?.or (some c)) (d :: (v ++ cs)) = none := by
      intro u d v hw
      rw [← getLast?_cons_or c u prev]
      exact h (c :: u) d v (by rw [hw]; rfl)
    have hnow : p.first prev (c :: (w ++ cs)) = none := h [] c w rfl
    rw [List.cons_append, findsFrom_of_none hnow, ih hlater, getLast?_cons_or]

end Pattern

end DiceFormula
