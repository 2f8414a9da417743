import DiceFormula.Proofs.Text.Cutting
import DiceFormula.Proofs.Text.Places
import DiceFormula.Text.Numeral
import Mathlib.Data.List.Forall2

/-!
# Characters that are alike

Characters are alike when they are digits of one value, or both die letters,
plus signs, spaces or line feeds, or both nothing of this (`CharKind`). Each
kind has a sample, and a text is alike to the text of its samples (`plain`).
What looks at kinds alone goes along with `plain`: numerals that are alike have
one value (`read?_eq_of_alike`), and a pattern whose parts are classes of kinds
is found in the same spans (`spans_eq_of_alike`).
-/

namespace DiceFormula

/-- What a character can be, as far as dice are concerned. -/
inductive CharKind where
  | digit (value : Nat)
  | mark
  | plus
  | space
  | newline
  | other
  deriving DecidableEq, Repr

/-- `c` is of the kind. -/
def CharKind.Holds (c : Char) : CharKind → Prop
  | digit v => digitValue? c = some v
  | mark => isMark c = true
  | plus => c = '+'
  | space => c = ' '
  | newline => c = '\n'
  | other => isDigit c = false ∧ isMark c = false ∧ c ≠ '+' ∧ c ≠ ' ' ∧ c ≠ '\n'

/-- `a` and `b` are of one kind. -/
def Alike (a b : Char) : Prop := ∃ k : CharKind, k.Holds a ∧ k.Holds b

/-- `a` and `b` have one length and are `Alike` character by character. -/
def AlikeTexts (a b : List Char) : Prop := List.Forall₂ Alike a b

/-- Where `f` decides `R`, `List.map f` decides it for lists. -/
theorem forall₂_iff_map_eq {α β : Type} {R : α → α → Prop} {f : α → β}
    (h : ∀ x y, R x y ↔ f x = f y) (xs ys : List α) :
    List.Forall₂ R xs ys ↔ xs.map f = ys.map f := by
  have hrel : R = fun x y => f x = f y := funext fun x => funext fun y => propext (h x y)
  rw [hrel, ← List.forall₂_eq_eq_eq, List.forall₂_map_left_iff, List.forall₂_map_right_iff]

/-! ## Kinds -/

def charKind (c : Char) : CharKind :=
  match digitValue? c with
  | some v => .digit v
  | none =>
    if isMark c then .mark
    else if c = '+' then .plus
    else if c = ' ' then .space
    else if c = '\n' then .newline
    else .other

theorem holds_charKind (c : Char) : (charKind c).Holds c := by
  unfold charKind
  split
  · assumption
  · rename_i hdigit
    have hd : isDigit c = false := by rw [isDigit, hdigit]; rfl
    repeat' split
    all_goals simp_all [CharKind.Holds]

theorem charKind_eq_iff {c : Char} {k : CharKind} : charKind c = k ↔ k.Holds c := by
  refine ⟨fun h => h ▸ holds_charKind c, fun h => ?_⟩
  cases k with
  | digit v => rw [charKind, show digitValue? c = some v from h]
  | mark =>
    simp only [CharKind.Holds, isMark, Bool.or_eq_true, beq_iff_eq] at h
    obtain rfl | rfl := h <;> decide
  | plus => obtain rfl : c = '+' := h; decide
  | space => obtain rfl : c = ' ' := h; decide
  | newline => obtain rfl : c = '\n' := h; decide
  | other =>
    obtain ⟨hdigit, hmark, hplus, hspace, hnewline⟩ := h
    have hnone : digitValue? c = none :=
      Option.isNone_iff_eq_none.1 (Option.isSome_eq_false_iff.1 hdigit)
    simp [charKind, hnone, hmark, hplus, hspace, hnewline]

theorem alike_iff_charKind {a b : Char} : Alike a b ↔ charKind a = charKind b := by
  constructor
  · rintro ⟨k, ha, hb⟩
    rw [charKind_eq_iff.2 ha, charKind_eq_iff.2 hb]
  · intro h
    exact ⟨charKind a, holds_charKind a, h ▸ holds_charKind b⟩

/-! ## Samples -/

def CharKind.sample : CharKind → Char
  | digit v => Nat.digitChar v
  | mark => 'd'
  | plus => '+'
  | space => ' '
  | newline => '\n'
  | other => '_'

/-- The `sample` of the kind of `c`. -/
def plain (c : Char) : Char := (charKind c).sample

theorem charKind_digitChar : ∀ v < 10, charKind (Nat.digitChar v) = .digit v := by
  decide

theorem charKind_plain (c : Char) : charKind (plain c) = charKind c := by
  unfold plain
  cases hk : charKind c with
  | digit v => exact charKind_digitChar v (digitValue?_lt (charKind_eq_iff.1 hk))
  | _ => decide

theorem holds_plain_iff {c : Char} (k : CharKind) : k.Holds (plain c) ↔ k.Holds c := by
  rw [← charKind_eq_iff, charKind_plain, charKind_eq_iff]

theorem alike_iff {a b : Char} : Alike a b ↔ plain a = plain b := by
  rw [alike_iff_charKind]
  refine ⟨fun h => congrArg CharKind.sample h, fun h => ?_⟩
  rw [← charKind_plain a, h, charKind_plain]

theorem alikeTexts_iff {a b : List Char} : AlikeTexts a b ↔ a.map plain = b.map plain :=
  forall₂_iff_map_eq @alike_iff a b

instance (a b : List Char) : Decidable (AlikeTexts a b) := decidable_of_iff _ alikeTexts_iff.symm

theorem AlikeTexts.slice {a b : List Char} (h : AlikeTexts a b) (span : Nat × Nat) :
    AlikeTexts (Pattern.slice a span) (Pattern.slice b span) :=
  List.forall₂_take _ (List.forall₂_drop _ h)

/-! ## What looks at kinds alone -/

theorem digitValue?_plain (c : Char) : digitValue? (plain c) = digitValue? c :=
  Option.ext fun v => holds_plain_iff (.digit v)

theorem isDigit_plain (c : Char) : isDigit (plain c) = isDigit c := by
  rw [isDigit, digitValue?_plain, isDigit]

theorem isMark_plain (c : Char) : isMark (plain c) = isMark c :=
  Bool.eq_iff_iff.2 (holds_plain_iff .mark)

theorem beq_plain {x : Char} (h : ∀ c, plain c = x ↔ c = x) (c : Char) :
    (plain c == x) = (c == x) := by
  rw [Bool.eq_iff_iff, beq_iff_eq, beq_iff_eq, h]

namespace Numeral

theorem value_map_plain (ds : List Char) : value (ds.map plain) = value ds := by
  rw [value, valueFrom, List.foldl_map]
  simp only [digitValue?_plain]
  rfl

theorem read?_eq_of_alike {ds es : List Char} (h : AlikeTexts ds es) : read? ds = read? es := by
  rw [read?, read?, List.Forall₂.length_eq h, ← value_map_plain ds, alikeTexts_iff.1 h,
    value_map_plain]

end Numeral

/-! ## Patterns -/

/-- What a fit takes and leaves, with `g` applied to every character. -/
def Fit.map (g : Char → Char) (m : Fit) : Fit := ⟨m.pieces.map (List.map g), m.rest.map g⟩

theorem Fit.text_map (g : Char → Char) (m : Fit) : (m.map g).text = m.text.map g := by
  rw [text, text, List.map_flatten]
  rfl

namespace Pattern

/-- No part of the pattern tells `c` from `g c`. -/
def Blind (g : Char → Char) : Pattern → Prop
  | one kind => ∀ c, kind (g c) = kind c
  | greedy _ kind => ∀ c, kind (g c) = kind c
  | sparing kind => ∀ c, kind (g c) = kind c
  | seq p q => p.Blind g ∧ q.Blind g
  | either p q => p.Blind g ∧ q.Blind g
  | behind kind => ∀ c, kind (g c) = kind c
  | ahead p => p.Blind g
  | final => ∀ c, g c = '\n' ↔ c = '\n'

variable {g : Char → Char} {p : Pattern}

theorem splits_map {kind : Char → Bool} (h : ∀ c, kind (g c) = kind c) (cs : List Char) :
    splits kind (cs.map g) = (splits kind cs).map fun s => (s.1.map g, s.2.map g) := by
  induction cs with
  | nil => rfl
  | cons c cs ih =>
    rw [List.map_cons, splits, splits, h c, ih]
    split <;> simp

theorem last_map (m : Fit) (prev : Option Char) :
    (m.map g).last (prev.map g) = (m.last prev).map g := by
  rw [Fit.last, Fit.last, Fit.text_map, List.getLast?_map]
  cases m.text.getLast? <;> rfl

/-- A pattern that is `Blind` to `g` fits `cs.map g` as it fits `cs`. -/
theorem fits_map (h : p.Blind g) (prev : Option Char) (cs : List Char) :
    p.fits (prev.map g) (cs.map g) = (p.fits prev cs).map (Fit.map g) := by
  induction p generalizing prev cs with
  | one kind =>
    cases cs with
    | nil => rfl
    | cons c cs =>
      rw [List.map_cons, fits, fits, h c]
      split <;> rfl
  | greedy least kind =>
    rw [fits, fits, splits_map h, List.flatMap_map, List.map_flatMap]
    refine List.flatMap_congr fun s _ => ?_
    rw [List.length_map]
    split <;> rfl
  | sparing kind =>
    rw [fits, fits, splits_map h, ← List.map_reverse, List.map_map, List.map_map]
    rfl
  | seq p q ihp ihq =>
    rw [fits, fits, ihp h.1, List.flatMap_map, List.map_flatMap]
    refine List.flatMap_congr fun m _ => ?_
    rw [last_map, Fit.map, ihq h.2, List.map_map, List.map_map]
    refine List.map_congr_left fun n _ => ?_
    simp [Fit.map, Fit.append]
  | either p q ihp ihq => rw [fits, fits, ihp h.1, ihq h.2, List.map_append]
  | behind kind =>
    have hprev : (prev.map g).any kind = prev.any kind := by
      cases prev with
      | none => rfl
      | some c => exact h c
    rw [fits, fits, hprev]
    split <;> rfl
  | ahead p ih =>
    rw [fits, fits, ih h, List.isEmpty_map]
    split <;> rfl
  | final =>
    have hend : (cs.map g = [] ∨ cs.map g = ['\n']) ↔ (cs = [] ∨ cs = ['\n']) := by
      rcases cs with _ | ⟨c, _ | ⟨d, cs⟩⟩
      · simp
      · simpa using h c
      · simp
    rw [fits, fits]
    simp only [hend]
    split <;> rfl

theorem first_map (h : p.Blind g) (prev : Option Char) (cs : List Char) :
    p.first (prev.map g) (cs.map g) = (p.first prev cs).map (Fit.map g) := by
  rw [first, fits_map h, List.head?_map, first]

theorem placesFrom_map (h : p.Blind g) (skip k : Nat) (prev : Option Char) (cs : List Char) :
    p.placesFrom skip k (prev.map g) (cs.map g) =
      (p.placesFrom skip k prev cs).map fun x => (x.1, x.2.map g) := by
  fun_induction placesFrom p skip k prev cs with
  | case1 k prev =>
    have hfirst := first_map h prev []
    rw [List.map_nil] at hfirst
    rw [List.map_nil, placesFrom, hfirst]
    cases p.first prev [] <;> rfl
  | case2 k prev c cs m hm ih =>
    have hfirst := first_map h prev (c :: cs)
    rw [hm, List.map_cons] at hfirst
    rw [List.map_cons, placesFrom, hfirst]
    simp [Fit.text_map, ← ih]
  | case3 k prev c cs hm ih =>
    have hfirst := first_map h prev (c :: cs)
    rw [hm, List.map_cons] at hfirst
    rw [List.map_cons, placesFrom, hfirst]
    simpa using ih
  | case4 => rfl
  | case5 skip k prev c cs ih => exact ih

theorem places_map (h : p.Blind g) (text : List Char) :
    p.places (text.map g) = (p.places text).map fun x => (x.1, x.2.map g) :=
  placesFrom_map h 0 0 none text

/-- A pattern that is `Blind plain` has its finds in the same spans of both texts. -/
theorem spans_eq_of_alike (h : p.Blind plain) {a b : List Char} (alike : AlikeTexts a b) :
    p.spans a = p.spans b := by
  have hplain : ∀ text : List Char, p.spans (text.map plain) = p.spans text := by
    intro text
    rw [spans, spans, places_map h, List.map_map]
    simp only [Function.comp_def, Fit.text_map, List.length_map]
  rw [← hplain a, alikeTexts_iff.1 alike, hplain b]

theorem alike_pieces (h : p.Blind plain) {a b : List Char} (alike : AlikeTexts a b) :
    List.Forall₂ (List.Forall₂ AlikeTexts) ((p.finds a).map Fit.pieces)
      ((p.finds b).map Fit.pieces) := by
  have hplain : ∀ text : List Char, (p.finds (text.map plain)).map Fit.pieces =
      ((p.finds text).map Fit.pieces).map (List.map (List.map plain)) := by
    intro text
    rw [← map_places, ← map_places, places_map h]
    simp only [List.map_map, Function.comp_def, Fit.map]
  rw [forall₂_iff_map_eq (forall₂_iff_map_eq @alikeTexts_iff), ← hplain, ← hplain,
    alikeTexts_iff.1 alike]

end Pattern

end DiceFormula
