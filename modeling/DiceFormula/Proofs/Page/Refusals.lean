import DiceFormula.Proofs.Formula.Discovered
import DiceFormula.Proofs.Page.Notices

/-!
# Refusals

What a formula and a page can be refused for. Dice that have been read are never
out of range when they come to be rolled, so a formula is refused for what is
written in it or not at all (`refusals_of_page`). On a page, whose formulas all
begin with a die, an average never wants for dice, and a roll wants for them
just where no die is written with a count (`noDice_of_page`).
-/

namespace DiceFormula

/-! ## Codes -/

def noDiceCode : String := "[NO_DICE_IN_FORMULA]"

def invalidRangeCode : String := "[INVALID_RANGE]"

namespace DiceError

/-- The message of `e` begins with `code`. -/
def HasCode (code : String) (e : DiceError) : Prop := code.toList <+: e.message.toList

/-- Whether a message begins with `code` is seen in its `head`. -/
theorem hasCode_iff {code head : String} {e : DiceError}
    (h : ∃ rest, e.message.toList = head.toList ++ rest)
    (short : code.toList.length ≤ head.toList.length) :
    e.HasCode code ↔ code.toList <+: head.toList := by
  obtain ⟨rest, hrest⟩ := h
  have hhead : head.toList <+: e.message.toList := hrest ▸ List.prefix_append _ _
  exact ⟨fun hcode => List.prefix_of_prefix_length_le hcode hhead short,
    fun hcode => hcode.trans hhead⟩

theorem hasCode_noDice (formula : List Char) :
    (noDice formula).HasCode noDiceCode ∧ ¬ (noDice formula).HasCode invalidRangeCode := by
  have h : ∃ rest, (noDice formula).message.toList =
      "[NO_DICE_IN_FORMULA] No dice term found in '".toList ++ rest := by
    unfold message
    simp only [String.toList_append, List.append_assoc]
    exact ⟨_, rfl⟩
  rw [hasCode_iff h (by decide), hasCode_iff h (by decide)]
  decide

theorem not_hasCode_malformed (term : List Char) (reason : Reason) :
    ¬ (malformed term reason).HasCode noDiceCode ∧
      ¬ (malformed term reason).HasCode invalidRangeCode := by
  have h : ∃ rest, (malformed term reason).message.toList =
      "[MALFORMED_TERM] Term '".toList ++ rest := by
    unfold message
    simp only [String.toList_append, List.append_assoc]
    exact ⟨_, rfl⟩
  rw [hasCode_iff h (by decide), hasCode_iff h (by decide)]
  decide

variable {mode : Mode} {text : List Char} {e : DiceError}

theorem not_hasCode_invalidRange (h : Formula.read mode text = .error e) :
    ¬ e.HasCode invalidRangeCode := by
  rcases refusal_of_read h with rfl | ⟨term, reason, rfl⟩
  · exact (hasCode_noDice text).2
  · exact (not_hasCode_malformed term reason).2

theorem hasCode_noDice_iff (h : Formula.read mode text = .error e) :
    e.HasCode noDiceCode ↔ mode.terms (lex text) = [] := by
  rcases refusal_of_read h with rfl | ⟨term, reason, rfl⟩
  · exact ⟨fun _ => (read_eq_noDice_iff.1 h).1, fun _ => (hasCode_noDice text).1⟩
  · refine ⟨fun hcode => absurd hcode (not_hasCode_malformed term reason).1, fun hnil => ?_⟩
    rw [read_eq_noDice_iff.2 ⟨hnil, rfl⟩] at h
    cases h

end DiceError

def Entry.HasCode (code : String) (e : Entry) : Prop := ∃ err, e.error = some err ∧ err.HasCode code

/-! ## One formula -/

/-- A formula has a total, or its reading is refused, or the bytes run out. -/
theorem evaluate_cases (mode : Mode) (text : List Char) (bytes : List Byte) :
    (∃ total, ((evaluate mode text).run bytes).result = .ok total) ∨
      (∃ e, Formula.read mode text = .error e ∧
        ((evaluate mode text).run bytes).result = .error (.refused e)) ∨
      ((evaluate mode text).run bytes).result = .error .outOfBytes := by
  cases hr : Formula.read mode text with
  | error e =>
    rw [run_evaluate_error hr]
    exact .inr (.inl ⟨e, rfl, rfl⟩)
  | ok f =>
    cases ht : ((evaluate mode text).run bytes).result with
    | ok total => exact .inl ⟨total, rfl⟩
    | error why =>
      obtain rfl := onlyStarves_evaluate_of_read hr bytes why ht
      exact .inr (.inr rfl)

namespace Page

variable {mode : Mode} {text f : List Char} {fs : List (List Char)} {bytes rest : List Byte}
  {e : Entry} {es : List Entry}

theorem Reports.error_eq_some_iff (h : Reports mode f bytes e) {err : DiceError} :
    e.error = some err ↔ Formula.read mode f = .error err := by
  rw [h.error_iff]
  refine ⟨fun hresult => (run_evaluate_refused hresult).1, fun hread => ?_⟩
  rw [run_evaluate_error hread]

theorem Reports.not_hasCode_invalidRange (h : Reports mode f bytes e) :
    ¬ e.HasCode invalidRangeCode := by
  rintro ⟨err, herr, hcode⟩
  exact DiceError.not_hasCode_invalidRange (h.error_eq_some_iff.1 herr) hcode

theorem Reports.hasCode_noDice_iff (h : Reports mode f bytes e) :
    e.HasCode noDiceCode ↔ mode.terms (lex f) = [] := by
  refine ⟨?_, fun hnil => ?_⟩
  · rintro ⟨err, herr, hcode⟩
    exact (DiceError.hasCode_noDice_iff (h.error_eq_some_iff.1 herr)).1 hcode
  · have hread := read_eq_noDice_iff.2 ⟨hnil, rfl⟩
    exact ⟨_, h.error_eq_some_iff.2 hread, (DiceError.hasCode_noDice f).1⟩

/-! ## All formulas -/

theorem run_entries_of_error {err : DiceError} (h : discover text = .error err)
    (bytes : List Byte) :
    ((entries mode text).run bytes).result = .error (.refused err) := by
  rw [run_entries_refused h]

/-- Whatever `Formula.parse` gives is within bounds, in simulate mode those of a byte. So `evaluate`
ends in a total or is refused for `noDice` or `malformed` or starves, and `entries` fails only for
`noFormula` or starves; no entry is refused for a range. -/
theorem refusals_of_page (mode : Mode) (text : List Char) (bytes : List Byte) :
    (∀ f rest, (Formula.parse mode text).Gives bytes f rest →
      (∀ d ∈ f.dice, 1 ≤ d.count ∧ 1 ≤ d.sides ∧ (mode = .simulate → d.sides ≤ 256)) ∧
        ∀ k ∈ f.constants, 0 ≤ k) ∧
      ((∃ total, ((evaluate .simulate text).run bytes).result = .ok total) ∨
        ((evaluate .simulate text).run bytes).result = .error (.refused (.noDice text)) ∨
        (∃ term reason, ((evaluate .simulate text).run bytes).result =
          .error (.refused (.malformed term reason))) ∨
        ((evaluate .simulate text).run bytes).result = .error .outOfBytes) ∧
      ((∃ es, ((entries mode text).run bytes).result = .ok es ∧
          ∀ e ∈ es, ¬ e.HasCode invalidRangeCode) ∨
        ((entries mode text).run bytes).result = .error (.refused .noFormula) ∨
        ((entries mode text).run bytes).result = .error .outOfBytes) := by
  refine ⟨fun f rest hparse => ?_, ?_, ?_⟩
  · obtain ⟨hread, -⟩ := Formula.gives_parse_iff.1 hparse
    refine ⟨fun d hd => ?_, Formula.constants_nonneg hread⟩
    have hsound := Formula.sound_of_read hread d hd
    exact ⟨hsound.one_le_count, hsound.one_le_sides, hsound.sides_le⟩
  · rcases evaluate_cases .simulate text bytes with htotal | ⟨e, hread, hresult⟩ | hbytes
    · exact .inl htotal
    · rcases refusal_of_read hread with rfl | ⟨term, reason, rfl⟩
      · exact .inr (.inl hresult)
      · exact .inr (.inr (.inl ⟨term, reason, hresult⟩))
    · exact .inr (.inr (.inr hbytes))
  · cases hfound : discover text with
    | error err =>
      obtain ⟨-, rfl⟩ := discover_eq_error_iff.1 hfound
      exact .inr (.inl (run_entries_of_error hfound bytes))
    | ok fs =>
      cases hresult : ((entries mode text).run bytes).result with
      | error why =>
        obtain rfl := onlyStarves_entries hfound bytes why hresult
        exact .inr (.inr rfl)
      | ok es =>
        obtain ⟨fs, -, hthreaded, -⟩ := gives_page_iff.1 ⟨hresult, rfl⟩
        refine .inl ⟨es, rfl, fun e he => ?_⟩
        obtain ⟨f, -, bytes, hreports⟩ := hthreaded.exists_reports he
        exact hreports.not_hasCode_invalidRange

/-- A page on which one formula is refused for its dice, one for want of them, and one is rolled as
far as the bytes go. -/
theorem refusals_of_page_mixed :
    let text := ['2', 'd', '6', '+', '1', ' ', '1', 'd', '0', ' ', 'd', '6']
    let bytes : List Byte := [255, 4, 5]
    let f : Formula := ⟨[⟨2, 6⟩], [1]⟩
    let es : List Entry :=
      [⟨['2', 'd', '6', '+', '1'], .simulate, some 12, none⟩,
        ⟨['1', 'd', '0'], .simulate, none, some (.malformed ['1', 'd', '0'] .noSide)⟩,
        ⟨['d', '6'], .simulate, none, some (.noDice ['d', '6'])⟩]
    (Formula.parse .simulate ['2', 'd', '6', '+', '1']).Gives bytes f bytes ∧
      (∀ d ∈ f.dice, 1 ≤ d.count ∧ 1 ≤ d.sides ∧ (Mode.simulate = .simulate → d.sides ≤ 256)) ∧
      ((entries .simulate text).run bytes).result = .ok es ∧
      ((entries .simulate text).run [255, 4]).result = .error .outOfBytes ∧
      ∀ e ∈ es, ¬ e.HasCode invalidRangeCode := by
  intro text bytes f es
  have hparse : (Formula.parse .simulate ['2', 'd', '6', '+', '1']).Gives bytes f bytes := by
    decide +kernel
  have hes : ((entries .simulate text).run bytes).result = .ok es := by decide +kernel
  refine ⟨hparse, ((refusals_of_page .simulate _ bytes).1 f bytes hparse).1, hes,
    by decide +kernel, ?_⟩
  rcases (refusals_of_page .simulate text bytes).2.2 with ⟨es', hes', hcode⟩ | h | h
  · obtain rfl := Except.ok.inj (hes.symm.trans hes')
    exact hcode
  · cases hes.symm.trans h
  · cases hes.symm.trans h

/-! ## The want of dice -/

theorem Reports.not_hasCode_noDice (h : Reports .average f bytes e) (hf : f ∈ formulas text) :
    ¬ e.HasCode noDiceCode := fun hcode =>
  diceTerms_ne_nil hf (h.hasCode_noDice_iff.1 hcode)

theorem Reports.hasCode_noDice_iff_not_hasCountedDie (h : Reports .simulate f bytes e) :
    e.HasCode noDiceCode ↔ ¬ HasCountedDie f :=
  h.hasCode_noDice_iff.trans (countedTerms_eq_nil_iff f)

/-- Average mode has a find at the beginning of every formula of `fs`, so it never wants for dice
and has its page on any bytes. Simulate mode wants for dice where no die is counted. -/
theorem noDice_of_page (found : discover text = .ok fs) :
    (∀ f ∈ fs, (∃ m more, Mode.average.dicePattern.places f = (0, m) :: more) ∧
      ∀ bytes g, ((Formula.parse .average f).run bytes).result ≠ .error (.refused (.noDice g))) ∧
      (∀ bytes, ∃ es, (entries .average text).Gives bytes es bytes ∧
        List.Forall₂ (fun f e => Reports .average f bytes e ∧ ¬ e.HasCode noDiceCode) fs es) ∧
      ∀ bytes es rest, (entries .simulate text).Gives bytes es rest →
        List.Forall₂ (fun f e => e.HasCode noDiceCode ↔ ¬ HasCountedDie f) fs es := by
  obtain ⟨hformulas, -⟩ := discover_eq_ok_iff.1 found
  have hmem : ∀ f ∈ fs, f ∈ formulas text := fun f hf => hformulas ▸ hf
  refine ⟨fun f hf => ⟨exists_places_of_mem_formulas (hmem f hf), fun bytes g h => ?_⟩,
    fun bytes => ⟨_, gives_entries_average found bytes, ?_⟩, fun bytes es rest h => ?_⟩
  · obtain ⟨hnil, -⟩ := read_eq_noDice_iff.1 (Formula.refused_parse_iff.1 h)
    exact diceTerms_ne_nil (hmem f hf) hnil
  · rw [List.forall₂_map_right_iff, List.forall₂_same]
    intro f hf
    obtain ⟨hreports, -⟩ := gives_entry_iff.1 (gives_entry_average f bytes)
    exact ⟨hreports, hreports.not_hasCode_noDice (hmem f hf)⟩
  · obtain ⟨gs, hgs, hthreaded, -⟩ := gives_page_iff.1 h
    obtain rfl : fs = gs := Except.ok.inj (found.symm.trans hgs)
    exact hthreaded.forall₂.imp fun f e ⟨_, hreports⟩ =>
      hreports.hasCode_noDice_iff_not_hasCountedDie

/-- A die without a count, which average mode takes, behind a letter that neither mode takes, and a
die that both take. -/
theorem noDice_of_page_mixed :
    let text := ['d', 'd', '6', ' ', '2', 'd', '6']
    let fs := [['d', '6'], ['2', 'd', '6']]
    let es : List Entry :=
      [⟨['d', '6'], .simulate, none, some (.noDice ['d', '6'])⟩,
        ⟨['2', 'd', '6'], .simulate, some 5, none⟩]
    discover text = .ok fs ∧
      (∀ f ∈ fs, ∃ m more, Mode.average.dicePattern.places f = (0, m) :: more) ∧
      (entries .simulate text).Gives [2, 1] es [] ∧
      List.Forall₂ (fun f e => e.HasCode noDiceCode ↔ ¬ HasCountedDie f) fs es := by
  intro text fs es
  have hfound : discover text = .ok fs := by decide +kernel
  have hes : (entries .simulate text).Gives [2, 1] es [] := by decide +kernel
  obtain ⟨hfirst, -, hrolled⟩ := noDice_of_page hfound
  exact ⟨hfound, fun f hf => (hfirst f hf).1, hes, hrolled _ _ _ hes⟩

end Page

end DiceFormula
