import DiceFormula.Proofs.Page.Refusals

/-!
# Reading notices back

A notice says what became of a formula, and nothing else has the same notice
(`Page.entry_eq_of_notice_eq`). Its first letter tells an average, a roll and an
error apart. The formula behind the first words ends at the first space, since no
formula that is found in a text holds one; so neither a colon in a formula nor a
formula that an error quotes once more can be taken for anything else. What is
left is a number, which its digits determine, or the message of an error, which
tells the errors that a reading can meet apart.
-/

namespace DiceFormula

/-- A list is cut at its first `a` in one way. -/
theorem append_cons_inj_of_not_mem {α : Type} {a : α} {x y z w : List α} (hx : a ∉ x)
    (hy : a ∉ y) : x ++ a :: z = y ++ a :: w ↔ x = y ∧ z = w := by
  refine ⟨fun h => ?_, ?_⟩
  · rcases List.append_eq_append_iff.1 h with ⟨more, rfl, hz⟩ | ⟨more, rfl, hw⟩
    · cases more with
      | nil => exact ⟨(List.append_nil x).symm, List.tail_eq_of_cons_eq hz⟩
      | cons b more =>
        cases hz
        exact absurd (by simp) hy
    · cases more with
      | nil => exact ⟨List.append_nil y, (List.tail_eq_of_cons_eq hw).symm⟩
      | cons b more =>
        cases hw
        exact absurd (by simp) hx
  · rintro ⟨rfl, rfl⟩
    rfl

/-! ## Errors -/

/-- The reasons that have words of their own. -/
def Reason.fixed : List Reason := [.tooLong, .noDie, .noSide, .tooManySides]

/-- What a message says from the end of the term to the end of `reason`. -/
def Reason.behindTerm (reason : Reason) : List Char := "' ".toList ++ reason.text.toList

/-- No reason ends like another. -/
theorem Reason.eq_of_behindTerm_suffix : ∀ reason ∈ fixed, ∀ reason' ∈ fixed,
    reason.behindTerm <:+ reason'.behindTerm → reason = reason' := by
  decide +kernel

theorem Term.reason_mem_of_fault? {mode : Mode} {t : Term} {reason : Reason}
    (h : t.fault? mode = some reason) : reason ∈ Reason.fixed :=
  List.mem_of_find?_eq_some h

namespace DiceError

/-- The errors that the reading of `text` can meet. -/
inductive OfReading (text : List Char) : DiceError → Prop
  | noDice : OfReading text (.noDice text)
  | malformed (term : List Char) {reason : Reason} (mem : reason ∈ Reason.fixed) :
    OfReading text (.malformed term reason)

theorem ofReading_of_read {mode : Mode} {text : List Char} {e : DiceError}
    (h : Formula.read mode text = .error e) : OfReading text e := by
  cases read_eq_iff.1 h with
  | term _ hfault => exact .malformed _ (Term.reason_mem_of_fault? hfault)
  | empty _ => exact .noDice
  | constant _ _ _ => exact .malformed _ (by decide)

theorem malformed_eq_of_message_eq {term term' : List Char} {reason reason' : Reason}
    (mem : reason ∈ Reason.fixed) (mem' : reason' ∈ Reason.fixed)
    (h : (malformed term reason).message = (malformed term' reason').message) :
    malformed term reason = malformed term' reason' := by
  -- the words in front of the term and behind the reason are the same in all messages
  have hsaid : term ++ reason.behindTerm = term' ++ reason'.behindTerm := by
    unfold message at h
    have hlist := congrArg String.toList h
    simp only [String.toList_append, String.toList_ofList] at hlist
    have hfront := List.append_cancel_right hlist
    simp only [List.append_assoc] at hfront
    exact List.append_cancel_left hfront
  obtain rfl : reason = reason' := by
    have hleft := List.suffix_append term reason.behindTerm
    have hright := List.suffix_append term' reason'.behindTerm
    rw [← hsaid] at hright
    rcases List.suffix_or_suffix_of_suffix hleft hright with hs | hs
    · exact Reason.eq_of_behindTerm_suffix _ mem _ mem' hs
    · exact (Reason.eq_of_behindTerm_suffix _ mem' _ mem hs).symm
  rw [List.append_cancel_right hsaid]

theorem OfReading.eq_of_message_eq {text : List Char} {e e' : DiceError} (h : OfReading text e)
    (h' : OfReading text e') (hm : e.message = e'.message) : e = e' := by
  have hcode : e.HasCode noDiceCode ↔ e'.HasCode noDiceCode := by
    rw [HasCode, HasCode, hm]
  cases h with
  | noDice =>
    cases h' with
    | noDice => rfl
    | malformed term' mem' =>
      exact absurd (hcode.1 (hasCode_noDice text).1) (not_hasCode_malformed term' _).1
  | malformed term mem =>
    cases h' with
    | noDice => exact absurd (hcode.2 (hasCode_noDice text).1) (not_hasCode_malformed term _).1
    | malformed term' mem' => exact malformed_eq_of_message_eq mem mem' hm

end DiceError

/-! ## Notices -/

namespace Page

/-- What the first words of a notice tell: the `mode` of a total, or that there is none. -/
def kindOf (mode : Mode) : Except DiceError Int → Option Mode
  | .ok _ => some mode
  | .error _ => none

def opening : Option Mode → String
  | some mode => Entry.heading mode
  | none => "Could not evaluate "

/-- What a notice tells behind the formula. -/
def told : Except DiceError Int → String
  | .ok total => toString total
  | .error err => err.message

/-- Openings begin with different letters. -/
theorem eq_of_opening_append_eq {kind kind' : Option Mode} {x y : List Char}
    (h : (opening kind).toList ++ x = (opening kind').toList ++ y) : kind = kind' := by
  have hletter := congrArg List.head? h
  rcases kind with _ | _ | _ <;> rcases kind' with _ | _ | _ <;>
    first | rfl | simp [opening, Entry.heading] at hletter

section

variable {mode mode' : Mode} {f : List Char} {bytes bytes' : List Byte}
  {outcome outcome' : Except DiceError Int}

theorem toList_of_notice_entryOf {line : String}
    (h : (entryOf mode f outcome).notice = .ok line) :
    line.toList = (opening (kindOf mode outcome)).toList ++
      ((f ++ [':']) ++ ' ' :: (told outcome).toList) := by
  cases outcome with
  | error err =>
    cases h
    simp [kindOf, opening, told, entryOf]
  | ok n =>
    have hn : Numeral.Writable n := by
      by_contra hn
      cases h.symm.trans (Entry.notice_eq_error_iff.2 ⟨rfl, rfl, n, rfl, hn⟩)
    have hwrite : Numeral.write? n = some (toString n) := if_pos hn
    simp only [Entry.notice, entryOf, hwrite] at h
    cases h
    simp [kindOf, opening, told]

theorem eq_of_told_eq (h : ((evaluate mode f).run bytes).result = outcome.mapError .refused)
    (h' : ((evaluate mode' f).run bytes').result = outcome'.mapError .refused)
    (kind : kindOf mode outcome = kindOf mode' outcome') (same : told outcome = told outcome') :
    outcome = outcome' := by
  cases outcome with
  | ok n =>
    cases outcome' with
    | ok n' =>
      have hvalue := congrArg (fun s => Numeral.signedValue s.toList) same
      simp only [told, Numeral.signedValue_toString] at hvalue
      rw [hvalue]
    | error err' => cases kind
  | error err =>
    cases outcome' with
    | ok n' => cases kind
    | error err' =>
      have hread := DiceError.ofReading_of_read (run_evaluate_refused h).1
      have hread' := DiceError.ofReading_of_read (run_evaluate_refused h').1
      rw [hread.eq_of_message_eq hread' same]

end

/-- The first space of a notice behind its `opening` stands behind the colon. -/
theorem space_not_mem_append_colon {text f : List Char} (found : f ∈ formulas text) :
    ' ' ∉ f ++ [':'] := by
  have hformula : ' ' ∉ f := blank_not_mem_of_mem_formulas found rfl
  simp [hformula]

theorem exists_outcome_of_gives {mode : Mode} {text : List Char} {bytes rest : List Byte}
    {es : List Entry} {e : Entry} (h : (entries mode text).Gives bytes es rest) (mem : e ∈ es) :
    ∃ f b outcome, f ∈ formulas text ∧ entryOf mode f outcome = e ∧
      ((evaluate mode f).run b).result = outcome.mapError .refused := by
  obtain ⟨fs, hfound, hthreaded, -⟩ := gives_page_iff.1 h
  obtain ⟨rfl, -⟩ := discover_eq_ok_iff.1 hfound
  obtain ⟨f, hf, b, hreports⟩ := hthreaded.exists_reports mem
  obtain ⟨outcome, hresult, he⟩ := hreports.exists_outcome
  exact ⟨f, b, outcome, hf, he, hresult⟩

/-- Entries `e` and `e'` of any two pages that have the same notice have the same formula and the
same total or error; a total is then of the same mode. -/
theorem entry_eq_of_notice_eq {mode mode' : Mode} {text text' : List Char}
    {bytes rest bytes' rest' : List Byte} {es es' : List Entry} {e e' : Entry} {line : String}
    (h : (entries mode text).Gives bytes es rest)
    (h' : (entries mode' text').Gives bytes' es' rest') (mem : e ∈ es) (mem' : e' ∈ es')
    (notice : e.notice = .ok line) (notice' : e'.notice = .ok line) :
    e.formula = e'.formula ∧ e.ok = e'.ok ∧ e.total = e'.total ∧ e.error = e'.error ∧
      (e.ok = true → e.mode = e'.mode) := by
  obtain ⟨f, b, outcome, found, rfl, hresult⟩ := exists_outcome_of_gives h mem
  obtain ⟨f', b', outcome', found', rfl, hresult'⟩ := exists_outcome_of_gives h' mem'
  have hline := toList_of_notice_entryOf notice
  rw [toList_of_notice_entryOf notice'] at hline
  have hkind : kindOf mode outcome = kindOf mode' outcome' := (eq_of_opening_append_eq hline).symm
  rw [hkind] at hline
  obtain ⟨hcolon, htold⟩ := (append_cons_inj_of_not_mem (space_not_mem_append_colon found')
    (space_not_mem_append_colon found)).1 (List.append_cancel_left hline)
  obtain rfl : f' = f := List.append_cancel_right hcolon
  obtain rfl : outcome' = outcome :=
    (eq_of_told_eq hresult hresult' hkind (String.toList_injective htold.symm)).symm
  cases outcome' with
  | ok n => exact ⟨rfl, rfl, rfl, rfl, fun _ => Option.some.inj hkind⟩
  | error err => exact ⟨rfl, rfl, rfl, rfl, nofun⟩

/-- The same roll of a formula that has a colon, from other bytes and on another page. -/
theorem entry_eq_of_notice_eq_colon :
    let text := ['1', 'd', '6', ':', '7']
    let text' := ['0', 'd', '4', '\n', 'a', '1', 'd', '6', ':', '7']
    let e : Entry := ⟨['1', 'd', '6', ':', '7'], .simulate, some 4, none⟩
    let refused : Entry :=
      ⟨['0', 'd', '4'], .simulate, none, some (.malformed ['0', 'd', '4'] .noDie)⟩
    let e' : Entry := ⟨['1', 'd', '6', ':', '7'], .simulate, some 4, none⟩
    (entries .simulate text).Gives [3] [e] [] ∧
      (entries .simulate text').Gives [255, 9] [refused, e'] [] ∧
      e.notice = .ok "Simulated 1d6:7: 4" ∧ e'.notice = .ok "Simulated 1d6:7: 4" ∧
      e.formula = e'.formula ∧ e.ok = e'.ok ∧ e.total = e'.total ∧ e.error = e'.error ∧
      (e.ok = true → e.mode = e'.mode) := by
  intro text text' e refused e'
  have h : (entries .simulate text).Gives [3] [e] [] := by decide +kernel
  have h' : (entries .simulate text').Gives [255, 9] [refused, e'] [] := by decide +kernel
  have hnotice : e.notice = .ok "Simulated 1d6:7: 4" := by decide +kernel
  have hmem : e ∈ [e] := List.mem_singleton_self e
  have hmem' : e' ∈ [refused, e'] := List.mem_cons_of_mem refused (List.mem_singleton_self e')
  exact ⟨h, h', hnotice, hnotice, entry_eq_of_notice_eq h h' hmem hmem' hnotice hnotice⟩

-- an error does not tell the mode
example (f : List Char) (err : DiceError) : (Entry.mk f .average none (some err)).notice =
    (Entry.mk f .simulate none (some err)).notice := rfl

end Page

end DiceFormula
