import DiceFormula.Page.Evaluation
import DiceFormula.Proofs.Formula.Words
import DiceFormula.Proofs.Roll.Outcome
import DiceFormula.Proofs.Roll.Starving

/-!
# Pages, formula by formula

The entries of a page are those of its formulas, each evaluated alone on the
bytes that the formulas before it have left (`Threaded`). A formula that is
refused leaves the bytes as they were, so a page that holds nothing but the
other formulas has the same totals on the same stream.
-/

namespace DiceFormula

namespace Page

/-- `e` says what becomes of `formula` when it is evaluated alone on `bytes`. -/
structure Reports (mode : Mode) (formula : List Char) (bytes : List Byte) (e : Entry) : Prop where
  formula_eq : e.formula = formula
  mode_eq : e.mode = mode
  total_iff : ∀ n, e.total = some n ↔ ((evaluate mode formula).run bytes).result = .ok n
  error_iff : ∀ err,
    e.error = some err ↔ ((evaluate mode formula).run bytes).result = .error (.refused err)
  total_or_error : e.total.isSome = !e.error.isSome
  rest_of_error : e.error.isSome → ((evaluate mode formula).run bytes).rest = bytes

/-- What of `bytes` the formulas `fs` leave when they are evaluated alone, one after the other. -/
def left (mode : Mode) (bytes : List Byte) (fs : List (List Char)) : List Byte :=
  fs.foldl (fun rest formula => ((evaluate mode formula).run rest).rest) bytes

/-- Entries of formulas, each on the bytes that the ones before have left. -/
inductive Threaded (mode : Mode) : List Byte → List (List Char) → List Entry → Prop where
  | nil (bytes : List Byte) : Threaded mode bytes [] []
  | cons {bytes : List Byte} {f : List Char} {fs : List (List Char)} {e : Entry}
      {es : List Entry} : Reports mode f bytes e →
      Threaded mode ((evaluate mode f).run bytes).rest fs es →
      Threaded mode bytes (f :: fs) (e :: es)

section

variable {mode : Mode} {f : List Char} {fs : List (List Char)} {bytes rest : List Byte}
  {e : Entry} {es : List Entry}

/-! ## One formula -/

def entryOf (mode : Mode) (f : List Char) : Except DiceError Int → Entry
  | .ok total => ⟨f, mode, some total, none⟩
  | .error err => ⟨f, mode, none, some err⟩

theorem gives_record {outcome : Except DiceError Int} :
    (record mode f outcome).Gives bytes e rest ↔ entryOf mode f outcome = e ∧ bytes = rest := by
  cases outcome with
  | ok total => exact Roll.gives_pure
  | error err => exact Roll.gives_tell_bind.trans Roll.gives_pure

theorem reports_entryOf {outcome : Except DiceError Int}
    (h : ((evaluate mode f).run bytes).result = outcome.mapError .refused) :
    Reports mode f bytes (entryOf mode f outcome) := by
  cases outcome with
  | ok total =>
    constructor <;> simp [entryOf, h]
  | error err =>
    constructor
    case rest_of_error => exact fun _ => (run_evaluate_refused h).2
    all_goals simp [entryOf, h]

theorem Reports.exists_outcome (h : Reports mode f bytes e) :
    ∃ outcome, ((evaluate mode f).run bytes).result = outcome.mapError .refused ∧
      entryOf mode f outcome = e := by
  obtain ⟨formula, mode', total, error⟩ := e
  obtain ⟨rfl, rfl, htotal, herror, hone, -⟩ := h
  cases error with
  | some err =>
    cases total with
    | some n => cases hone
    | none => exact ⟨.error err, (herror err).1 rfl, rfl⟩
  | none =>
    cases total with
    | some n => exact ⟨.ok n, (htotal n).1 rfl, rfl⟩
    | none => cases hone

theorem gives_entry_iff :
    (entry mode f).Gives bytes e rest ↔
      Reports mode f bytes e ∧ ((evaluate mode f).run bytes).rest = rest := by
  unfold entry
  rw [Roll.gives_bind]
  refine ⟨?_, ?_⟩
  · rintro ⟨outcome, mid, hout, hrecord⟩
    obtain ⟨hresult, rfl⟩ := Roll.gives_attempt.1 hout
    obtain ⟨rfl, rfl⟩ := gives_record.1 hrecord
    exact ⟨reports_entryOf hresult, rfl⟩
  · rintro ⟨h, rfl⟩
    obtain ⟨outcome, hresult, rfl⟩ := h.exists_outcome
    exact ⟨outcome, _, Roll.gives_attempt.2 ⟨hresult, rfl⟩, gives_record.2 ⟨rfl, rfl⟩⟩

/-! ## All formulas -/

theorem gives_entries_iff :
    (fs.mapM (entry mode)).Gives bytes es rest ↔
      Threaded mode bytes fs es ∧ left mode bytes fs = rest := by
  induction fs generalizing bytes es with
  | nil =>
    rw [Roll.gives_mapM_nil]
    refine ⟨?_, ?_⟩
    · rintro ⟨rfl, rfl⟩
      exact ⟨.nil bytes, rfl⟩
    · rintro ⟨h, rfl⟩
      cases h
      exact ⟨rfl, rfl⟩
  | cons f fs ih =>
    rw [Roll.gives_mapM_cons]
    refine ⟨?_, ?_⟩
    · rintro ⟨e, mid, es, he, hes, rfl⟩
      obtain ⟨hreports, rfl⟩ := gives_entry_iff.1 he
      obtain ⟨hthreaded, hleft⟩ := ih.1 hes
      exact ⟨.cons hreports hthreaded, hleft⟩
    · rintro ⟨h, hleft⟩
      cases h with
      | cons hreports hthreaded =>
        exact ⟨_, _, _, gives_entry_iff.2 ⟨hreports, rfl⟩, ih.2 ⟨hthreaded, hleft⟩, rfl⟩

/-- The entry at `i` is that of the formula there, on what the formulas before have left. -/
theorem Threaded.reports (h : Threaded mode bytes fs es) {i : Nat} (hf : fs[i]? = some f)
    (he : es[i]? = some e) : Reports mode f (left mode bytes (fs.take i)) e := by
  induction h generalizing i with
  | nil => cases hf
  | cons hreports hthreaded ih =>
    cases i with
    | zero =>
      cases hf
      cases he
      exact hreports
    | succ i => exact ih hf he

/-- Formulas without a total can be left out. -/
theorem Threaded.filter_ok (h : Threaded mode bytes fs es) :
    Threaded mode bytes ((es.filter Entry.ok).map Entry.formula) (es.filter Entry.ok) ∧
      left mode bytes ((es.filter Entry.ok).map Entry.formula) = left mode bytes fs := by
  induction h with
  | nil bytes => exact ⟨.nil bytes, rfl⟩
  | @cons bytes f fs e es hreports hthreaded ih =>
    obtain ⟨hkept, hleft⟩ := ih
    cases hok : e.ok with
    | true =>
      rw [List.filter_cons_of_pos hok, List.map_cons, hreports.formula_eq]
      exact ⟨.cons hreports hkept, hleft⟩
    | false =>
      have hrest : ((evaluate mode f).run bytes).rest = bytes := by
        refine hreports.rest_of_error ?_
        rw [Entry.ok] at hok
        cases he : e.error with
        | none => rw [he] at hok; cases hok
        | some err => rfl
      rw [List.filter_cons_of_neg (by rw [hok]; decide)]
      rw [hrest] at hkept hleft
      exact ⟨hkept, by rw [hleft, left, left, List.foldl_cons, hrest]⟩

theorem Threaded.forall₂ (h : Threaded mode bytes fs es) :
    List.Forall₂ (fun f e => ∃ bytes, Reports mode f bytes e) fs es := by
  induction h with
  | nil => exact .nil
  | cons hreports _ ih => exact .cons ⟨_, hreports⟩ ih

theorem Threaded.exists_reports (h : Threaded mode bytes fs es) (he : e ∈ es) :
    ∃ f ∈ fs, ∃ bytes, Reports mode f bytes e :=
  exists_of_mem_forall₂ h.forall₂ he

theorem Threaded.length_eq (h : Threaded mode bytes fs es) : es.length = fs.length :=
  h.forall₂.length_eq.symm

theorem Threaded.formula_mem (h : Threaded mode bytes fs es) :
    ∀ e ∈ es, e.formula ∈ fs := by
  intro e he
  obtain ⟨f, hf, bytes, hreports⟩ := h.exists_reports he
  rw [hreports.formula_eq]
  exact hf

theorem gives_found_iff {text : List Char} :
    (found text).Gives bytes fs rest ↔ discover text = .ok fs ∧ bytes = rest := by
  unfold found
  rw [Roll.gives_bind]
  refine ⟨?_, ?_⟩
  · rintro ⟨gs, mid, hgs, hfs⟩
    obtain ⟨hd, rfl⟩ := Roll.gives_ofExcept.1 hgs
    have hpure := Roll.gives_tell_bind.1 hfs
    obtain ⟨rfl, rfl⟩ := Roll.gives_pure.1 hpure
    exact ⟨hd, rfl⟩
  · rintro ⟨hd, rfl⟩
    exact ⟨fs, bytes, Roll.gives_ofExcept.2 ⟨hd, rfl⟩,
      Roll.gives_tell_bind.2 (Roll.gives_pure.2 ⟨rfl, rfl⟩)⟩

theorem run_entries_of_found {text : List Char} (h : discover text = .ok fs)
    (bytes : List Byte) :
    (entries mode text).run bytes =
      ⟨((fs.mapM (entry mode)).run bytes).result, ((fs.mapM (entry mode)).run bytes).rest,
        .foundFormulas fs.length :: .startedPage fs.length ::
          ((fs.mapM (entry mode)).run bytes).log⟩ := by
  simp [entries, found, h, Roll.run_bind]

theorem run_entries_refused {text : List Char} {err : DiceError} (h : discover text = .error err)
    (bytes : List Byte) : (entries mode text).run bytes = ⟨.error (.refused err), bytes, []⟩ := by
  simp [entries, found, h, Roll.run_bind]

/-- A page gives the entries of the formulas that are found in it. -/
theorem gives_page_iff {text : List Char} :
    (entries mode text).Gives bytes es rest ↔
      ∃ fs, discover text = .ok fs ∧ Threaded mode bytes fs es ∧ left mode bytes fs = rest := by
  unfold entries
  rw [Roll.gives_bind]
  refine ⟨?_, ?_⟩
  · rintro ⟨fs, mid, hfound, hes⟩
    obtain ⟨hd, rfl⟩ := gives_found_iff.1 hfound
    exact ⟨fs, hd, gives_entries_iff.1 (Roll.gives_tell_bind.1 hes)⟩
  · rintro ⟨fs, hd, h⟩
    exact ⟨fs, bytes, gives_found_iff.2 ⟨hd, rfl⟩,
      Roll.gives_tell_bind.2 (gives_entries_iff.2 h)⟩

theorem gives_page_filter_ok {text : List Char} (h : (entries mode text).Gives bytes es rest)
    (hok : ∃ e ∈ es, e.ok = true) :
    (entries mode (unwords ((es.filter Entry.ok).map Entry.formula))).Gives bytes
      (es.filter Entry.ok) rest := by
  obtain ⟨fs, hd, hthreaded, hleft⟩ := gives_page_iff.1 h
  obtain ⟨rfl, -⟩ := discover_eq_ok_iff.1 hd
  obtain ⟨hkept, hsame⟩ := hthreaded.filter_ok
  have hmem : ∀ f ∈ (es.filter Entry.ok).map Entry.formula, f ∈ formulas text := by
    intro f hf
    obtain ⟨e, he, rfl⟩ := List.mem_map.1 hf
    exact hthreaded.formula_mem e (List.mem_of_mem_filter he)
  have hne : (es.filter Entry.ok).map Entry.formula ≠ [] := by
    obtain ⟨e, he, hoke⟩ := hok
    have := List.mem_filter.2 ⟨he, hoke⟩
    exact List.ne_nil_of_mem (List.mem_map_of_mem this)
  have hfound : discover (unwords ((es.filter Entry.ok).map Entry.formula)) =
      .ok ((es.filter Entry.ok).map Entry.formula) := by
    apply discover_eq_ok_iff.2
    exact ⟨formulas_unwords hmem, hne⟩
  apply gives_page_iff.2
  exact ⟨_, hfound, hkept, hsame.trans hleft⟩

/-- `es` has an entry for each formula of the page: what it comes to alone, on the bytes that the
formulas before it have `left`. A page of the formulas that have a total gives their entries again,
and leaves the same `rest`. -/
theorem entries_threaded {text : List Char} (h : (entries mode text).Gives bytes es rest) :
    ∃ fs, discover text = .ok fs ∧ es.length = fs.length ∧
      (∀ i f e, fs[i]? = some f → es[i]? = some e →
        Reports mode f (left mode bytes (fs.take i)) e) ∧
      left mode bytes fs = rest ∧
      ((∃ e ∈ es, e.ok = true) →
        (entries mode (unwords ((es.filter Entry.ok).map Entry.formula))).Gives bytes
          (es.filter Entry.ok) rest) := by
  obtain ⟨fs, hd, hthreaded, hleft⟩ := gives_page_iff.1 h
  exact ⟨fs, hd, hthreaded.length_eq, fun i f e hf he => hthreaded.reports hf he, hleft,
    gives_page_filter_ok h⟩

end

/-- A die that rolls over a rejected byte, a formula that is refused, and another die. -/
theorem entries_threaded_mixed :
    let text := ['1', 'd', '6', ' ', '0', 'd', '4', '\n', '1', 'd', '8', '+', '2']
    let bytes : List Byte := [254, 3, 7, 1]
    let es : List Entry :=
      [⟨['1', 'd', '6'], .simulate, some 4, none⟩,
        ⟨['0', 'd', '4'], .simulate, none, some (.malformed ['0', 'd', '4'] .noDie)⟩,
        ⟨['1', 'd', '8', '+', '2'], .simulate, some 10, none⟩]
    (entries .simulate text).Gives bytes es [1] ∧
      ∃ fs, discover text = .ok fs ∧ es.length = fs.length ∧
        (∀ i f e, fs[i]? = some f → es[i]? = some e →
          Reports .simulate f (left .simulate bytes (fs.take i)) e) ∧
        left .simulate bytes fs = [1] ∧
        ((∃ e ∈ es, e.ok = true) →
          (entries .simulate (unwords ((es.filter Entry.ok).map Entry.formula))).Gives bytes
            (es.filter Entry.ok) [1]) := by
  intro text bytes es
  have h : (entries .simulate text).Gives bytes es [1] := by decide +kernel
  exact ⟨h, entries_threaded h⟩

end Page

end DiceFormula
