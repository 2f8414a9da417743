import DiceFormula.Proofs.Text.Pattern

/-!
# Where a pattern is found

`Pattern.places` is the search of `Pattern.finds` that also counts the
characters before each find. What is found at a place is what the pattern takes
there (`exists_of_mem_places`), and where nothing is found nothing fits
(`first_eq_none_of_findsFrom`). A find covers as many characters of the text as
it takes (`Pattern.Takes`), and these are what it takes (`map_slice_spans`).
-/

namespace DiceFormula

namespace Pattern

/-- `findsFrom` with the number of characters before each find; `k` stand before the text. -/
def placesFrom (p : Pattern) : Nat → Nat → Option Char → List Char → List (Nat × Fit)
  | 0, k, prev, [] => ((p.first prev []).map fun m => (k, m)).toList
  | 0, k, prev, c :: cs =>
    match p.first prev (c :: cs) with
    | some m => (k, m) :: placesFrom p (m.text.length - 1) (k + 1) (some c) cs
    | none => placesFrom p 0 (k + 1) (some c) cs
  | _ + 1, _, _, [] => []
  | skip + 1, k, _, c :: cs => placesFrom p skip (k + 1) (some c) cs

def places (p : Pattern) (text : List Char) : List (Nat × Fit) := p.placesFrom 0 0 none text

/-- A find of `p` covers the character that has `i` characters before it. -/
def Takes (p : Pattern) (text : List Char) (i : Nat) : Prop :=
  ∃ x ∈ p.places text, x.1 ≤ i ∧ i < x.1 + x.2.text.length

instance (p : Pattern) (text : List Char) (i : Nat) : Decidable (p.Takes text i) :=
  inferInstanceAs (Decidable (∃ x ∈ p.places text, x.1 ≤ i ∧ i < x.1 + x.2.text.length))

/-- The number of characters before each find, and the number of those it takes. -/
def spans (p : Pattern) (text : List Char) : List (Nat × Nat) :=
  (p.places text).map fun x => (x.1, x.2.text.length)

def slice (text : List Char) (span : Nat × Nat) : List Char := (text.drop span.1).take span.2

variable {p : Pattern} {prev : Option Char} {cs : List Char} {m : Fit}

/-- Counting changes nothing of what is found. -/
theorem map_placesFrom (p : Pattern) (skip k : Nat) (prev : Option Char) (cs : List Char) :
    (p.placesFrom skip k prev cs).map Prod.snd = p.findsFrom skip prev cs := by
  fun_induction placesFrom p skip k prev cs with
  | case1 k prev => cases h : p.first prev [] <;> simp [findsFrom, h]
  | case2 k prev c cs m h ih => simp [findsFrom, h, ih]
  | case3 k prev c cs h ih => simp [findsFrom, h, ih]
  | case4 => rfl
  | case5 skip k prev c cs ih => exact ih

theorem map_places (p : Pattern) (text : List Char) :
    (p.places text).map Prod.snd = p.finds text :=
  map_placesFrom p 0 0 none text

/-! ## What is taken -/

theorem mem_splits {kind : Char → Bool} {s : List Char × List Char} (h : s ∈ splits kind cs) :
    s.1 ++ s.2 = cs ∧ ∀ c ∈ s.1, kind c = true := by
  induction cs generalizing s with
  | nil =>
    obtain rfl := List.mem_singleton.1 h
    exact ⟨rfl, List.forall_mem_nil _⟩
  | cons c cs ih =>
    rw [splits] at h
    split at h
    · rename_i hc
      rcases List.mem_append.1 h with h | h
      · obtain ⟨s, hs, rfl⟩ := List.mem_map.1 h
        obtain ⟨hsplit, hall⟩ := ih hs
        exact ⟨congrArg (List.cons c) hsplit, List.forall_mem_cons.2 ⟨hc, hall⟩⟩
      · obtain rfl := List.mem_singleton.1 h
        exact ⟨rfl, List.forall_mem_nil _⟩
    · obtain rfl := List.mem_singleton.1 h
      exact ⟨rfl, List.forall_mem_nil _⟩

theorem mem_fits_greedy {least : Nat} {kind : Char → Bool}
    (h : m ∈ (greedy least kind).fits prev cs) :
    ∃ w, m.pieces = [w] ∧ least ≤ w.length ∧ (∀ c ∈ w, kind c = true) ∧ cs = w ++ m.rest := by
  rw [fits] at h
  obtain ⟨s, hs, hm⟩ := List.mem_flatMap.1 h
  obtain ⟨hsplit, hall⟩ := mem_splits hs
  split at hm
  · rename_i hle
    obtain rfl := List.mem_singleton.1 hm
    exact ⟨s.1, rfl, hle, hall, hsplit.symm⟩
  · cases hm

theorem mem_fits_one {kind : Char → Bool} (h : m ∈ (one kind).fits prev cs) :
    ∃ c, m.pieces = [[c]] ∧ kind c = true ∧ cs = c :: m.rest := by
  cases cs with
  | nil => cases h
  | cons c cs =>
    rw [fits] at h
    split at h
    · rename_i hc
      obtain rfl := List.mem_singleton.1 h
      exact ⟨c, rfl, hc, rfl⟩
    · cases h

theorem mem_fits_seq {q : Pattern} (h : m ∈ (seq p q).fits prev cs) :
    ∃ m₁ ∈ p.fits prev cs, ∃ m₂ ∈ q.fits (m₁.last prev) m₁.rest, m = m₁.append m₂ := by
  rw [fits] at h
  obtain ⟨m₁, h₁, hm⟩ := List.mem_flatMap.1 h
  obtain ⟨m₂, h₂, rfl⟩ := List.mem_map.1 hm
  exact ⟨m₁, h₁, m₂, h₂, rfl⟩

/-- What a pattern takes and what it leaves are the text. -/
theorem text_append_rest_of_mem_fits (h : m ∈ p.fits prev cs) : m.text ++ m.rest = cs := by
  induction p generalizing prev cs m with
  | one kind =>
    obtain ⟨c, hpieces, -, hcs⟩ := mem_fits_one h
    rw [Fit.text, hpieces, hcs]
    rfl
  | greedy least kind =>
    obtain ⟨w, hpieces, -, -, hcs⟩ := mem_fits_greedy h
    rw [Fit.text, hpieces, hcs, List.flatten_singleton]
  | sparing kind =>
    rw [fits] at h
    obtain ⟨s, hs, rfl⟩ := List.mem_map.1 h
    rw [Fit.text, List.flatten_singleton, (mem_splits (List.mem_reverse.1 hs)).1]
  | seq p q ihp ihq =>
    obtain ⟨m₁, h₁, m₂, h₂, rfl⟩ := mem_fits_seq h
    rw [← ihp h₁, ← ihq h₂]
    simp [Fit.append, Fit.text]
  | either p q ihp ihq =>
    rw [fits] at h
    exact (List.mem_append.1 h).elim ihp ihq
  | behind kind | ahead p _ | final =>
    -- these take nothing
    rw [fits] at h
    split at h
    all_goals simp only [List.mem_singleton, List.not_mem_nil] at h
    all_goals rw [h]; rfl

theorem mem_fits_of_first (h : p.first prev cs = some m) : m ∈ p.fits prev cs :=
  List.mem_of_head? h

/-! ## Places -/

/-- A find of `placesFrom` is what `p.first` takes behind the characters `u` before it. -/
theorem exists_of_mem_placesFrom {skip k : Nat} {x : Nat × Fit}
    (h : x ∈ p.placesFrom skip k prev cs) :
    ∃ u v, cs = u ++ v ∧ x.1 = k + u.length ∧ p.first (u.getLast?.or prev) v = some x.2 := by
  -- a place behind the first character is one of the rest, one character further on
  have hcons : ∀ {c : Char} {cs : List Char} {k : Nat} {prev : Option Char},
      (∃ u v, cs = u ++ v ∧ x.1 = k + 1 + u.length ∧
        p.first (u.getLast?.or (some c)) v = some x.2) →
      ∃ u v, c :: cs = u ++ v ∧ x.1 = k + u.length ∧
        p.first (u.getLast?.or prev) v = some x.2 := by
    rintro c cs k prev ⟨u, v, rfl, hk, hfirst⟩
    refine ⟨c :: u, v, rfl, ?_, ?_⟩
    · rw [hk, List.length_cons]
      omega
    · rw [getLast?_cons_or, hfirst]
  fun_induction placesFrom p skip k prev cs with
  | case1 k prev =>
    obtain ⟨m, hm, rfl⟩ := Option.map_eq_some_iff.1 (Option.mem_toList.1 h)
    exact ⟨[], [], rfl, rfl, hm⟩
  | case2 k prev c cs m hm ih =>
    rcases List.mem_cons.1 h with rfl | h
    · exact ⟨[], c :: cs, rfl, rfl, hm⟩
    · exact hcons (ih h)
  | case3 k prev c cs hm ih => exact hcons (ih h)
  | case4 => cases h
  | case5 skip k prev c cs ih => exact hcons (ih h)

theorem exists_of_mem_places {text : List Char} {x : Nat × Fit} (h : x ∈ p.places text) :
    ∃ u v, text = u ++ v ∧ x.1 = u.length ∧ p.first u.getLast? v = some x.2 := by
  obtain ⟨u, v, htext, hk, hfirst⟩ := exists_of_mem_placesFrom h
  rw [Nat.zero_add] at hk
  rw [Option.or_none] at hfirst
  exact ⟨u, v, htext, hk, hfirst⟩

/-- The finds are the slices of the text in their spans. -/
theorem map_slice_spans (p : Pattern) (text : List Char) :
    (p.spans text).map (slice text) = (p.finds text).map Fit.text := by
  rw [← map_places, spans, List.map_map, List.map_map]
  refine List.map_congr_left fun x hx => ?_
  obtain ⟨u, v, rfl, hu, hfirst⟩ := exists_of_mem_places hx
  have hv := text_append_rest_of_mem_fits (mem_fits_of_first hfirst)
  simp [slice, hu, ← hv]

theorem exists_places_of_first {text : List Char} (h : p.first none text = some m) :
    ∃ more, p.places text = (0, m) :: more := by
  cases text with
  | nil => exact ⟨[], by simp [places, placesFrom, h]⟩
  | cons c cs => exact ⟨_, by rw [places, placesFrom, h]⟩

/-- Where nothing is found nothing fits. -/
theorem first_eq_none_of_findsFrom (h : p.findsFrom 0 prev cs = []) {u v : List Char}
    (hcs : cs = u ++ v) : p.first (u.getLast?.or prev) v = none := by
  induction u generalizing prev cs with
  | nil =>
    rw [List.nil_append] at hcs
    subst hcs
    cases cs with
    | nil => simpa [findsFrom] using h
    | cons c cs =>
      cases hfirst : p.first prev (c :: cs) with
      | none => exact hfirst
      | some m =>
        rw [findsFrom, hfirst] at h
        cases h
  | cons c u ih =>
    subst hcs
    rw [List.cons_append, findsFrom] at h
    cases hfirst : p.first prev (c :: (u ++ v)) with
    | some m => rw [hfirst] at h; cases h
    | none =>
      rw [hfirst] at h
      rw [getLast?_cons_or]
      exact ih h rfl

end Pattern

end DiceFormula
