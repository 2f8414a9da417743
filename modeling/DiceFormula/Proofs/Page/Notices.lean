import DiceFormula.Proofs.Formula.Size
import DiceFormula.Proofs.Formula.Written
import DiceFormula.Proofs.Page.Threading

/-!
# The notices of a page

A page in which formulas are found has an entry for each of them, whatever is
wrong with any (`onlyStarves_entries`), and an average page has them on any
bytes. Its notices are those of its entries, one for one, as long as every total
can be written; a single total of too many digits leaves the whole page without
notices (`notices_of_discover`). That takes a formula of more than
`Numeral.limit` characters.
-/

namespace DiceFormula

/-! ## One notice -/

namespace Entry

/-- The total of `e`, if there is one, can be written. -/
def Writable (e : Entry) : Prop := ∀ n, e.total = some n → Numeral.Writable n

theorem Writable.notice_ne_error {e : Entry} (h : e.Writable) (why : Failure) :
    e.notice ≠ .error why := by
  intro hn
  obtain ⟨-, -, n, htotal, hn⟩ := notice_eq_error_iff.1 hn
  exact hn (h n htotal)

theorem notice_of_not_writable {e : Entry} (h : ¬ e.Writable)
    (one : e.total.isSome = !e.error.isSome) : e.notice = .error .unwritable := by
  simp only [Writable, not_forall] at h
  obtain ⟨n, htotal, hn⟩ := h
  have herror : e.error = none := by
    rw [htotal] at one
    cases he : e.error with
    | none => rfl
    | some err => rw [he] at one; cases one
  exact notice_eq_error_iff.2 ⟨rfl, herror, n, htotal, hn⟩

end Entry

theorem mapM_notice_cases (es : List Entry) :
    (∃ lines, es.mapM Entry.notice = .ok lines) ∨ es.mapM Entry.notice = .error .unwritable := by
  cases h : es.mapM Entry.notice with
  | ok lines => exact .inl ⟨lines, rfl⟩
  | error why =>
    obtain ⟨e, -, he⟩ := exists_of_mapM_eq_error h
    obtain ⟨rfl, -⟩ := Entry.notice_eq_error_iff.1 he
    exact .inr rfl

theorem mapM_notice_of_writable {es : List Entry} (h : ∀ e ∈ es, e.Writable) :
    ∃ lines, es.mapM Entry.notice = .ok lines := by
  rcases mapM_notice_cases es with hok | herror
  · exact hok
  · obtain ⟨e, he, hn⟩ := exists_of_mapM_eq_error herror
    exact absurd hn ((h e he).notice_ne_error _)

theorem mapM_notice_of_error {es : List Entry} {e : Entry} (he : e ∈ es) {why : Failure}
    (h : e.notice = .error why) : es.mapM Entry.notice = .error .unwritable := by
  rcases mapM_notice_cases es with ⟨lines, hok⟩ | herror
  · obtain ⟨line, -, hline⟩ := exists_of_mem_forall₂ (mapM_eq_ok_iff.1 hok).flip he
    rw [h] at hline
    cases hline
  · exact herror

namespace Page

open Roll

section

variable {mode : Mode} {text : List Char} {fs : List (List Char)} {bytes rest : List Byte}
  {es : List Entry}

/-! ## What can stop a page -/

theorem onlyStarves_attempt_evaluate (mode : Mode) (f : List Char) :
    OnlyStarves (evaluate mode f).attempt := by
  cases hr : Formula.read mode f with
  | error e =>
    intro bytes why h
    rw [run_attempt_refused (run_evaluate_error hr bytes)] at h
    cases h
  | ok g => exact (onlyStarves_evaluate_of_read hr).attempt

theorem onlyStarves_entry (mode : Mode) (f : List Char) : OnlyStarves (entry mode f) := by
  refine (onlyStarves_attempt_evaluate mode f).bind fun outcome => ?_
  cases outcome with
  | ok total => exact onlyStarves_pure _
  | error e =>
    intro bytes why h
    cases h

/-- When formulas are found, their entries want for nothing but bytes. -/
theorem onlyStarves_entries (found : discover text = .ok fs) :
    OnlyStarves (entries mode text) := by
  have hfound : OnlyStarves (Page.found text) := by
    intro bytes why h
    rw [Page.found, found] at h
    cases h
  refine hfound.bind fun gs => OnlyStarves.bind ?_ fun _ =>
    onlyStarves_mapM fun f _ => onlyStarves_entry mode f
  intro bytes why h
  cases h

/-! ## Averages -/

def averageEntry (f : List Char) : Entry :=
  entryOf .average f ((Formula.read .average f).map Formula.average)

theorem gives_entry_average (f : List Char) (bytes : List Byte) :
    (entry .average f).Gives bytes (averageEntry f) bytes := by
  have hrun : ((evaluate .average f).run bytes).result =
        ((Formula.read .average f).map Formula.average).mapError .refused ∧
      ((evaluate .average f).run bytes).rest = bytes := by
    cases hr : Formula.read .average f with
    | error e => rw [run_evaluate_error hr]; exact ⟨rfl, rfl⟩
    | ok g => rw [run_evaluate_ok hr]; exact ⟨rfl, rfl⟩
  exact gives_entry_iff.2 ⟨reports_entryOf hrun.1, hrun.2⟩

theorem gives_mapM_entry_average (fs : List (List Char)) (bytes : List Byte) :
    (fs.mapM (entry .average)).Gives bytes (fs.map averageEntry) bytes := by
  induction fs with
  | nil => exact gives_mapM_nil.2 ⟨rfl, rfl⟩
  | cons f fs ih => exact gives_mapM_cons.2 ⟨_, _, _, gives_entry_average f bytes, ih, rfl⟩

/-- An average page has its entries on any `bytes`, and leaves them as they are. -/
theorem gives_entries_average (found : discover text = .ok fs) (bytes : List Byte) :
    (entries .average text).Gives bytes (fs.map averageEntry) bytes := by
  unfold entries
  apply gives_bind.2
  refine ⟨fs, bytes, gives_found_iff.2 ⟨found, rfl⟩, gives_tell_bind.2 ?_⟩
  exact gives_mapM_entry_average fs bytes

/-! ## Notices -/

/-- Once there are entries, nothing more is drawn. -/
theorem run_notices_of_entries (h : (entries mode text).Gives bytes es rest) :
    ((notices mode text).run bytes).result = es.mapM Entry.notice ∧
      ((notices mode text).run bytes).rest = rest := by
  obtain ⟨hresult, hrest⟩ := h
  unfold notices
  rw [run_bind, hresult]
  cases hn : es.mapM Entry.notice with
  | ok lines => exact ⟨by simp [hn], by simp [hn, hrest]⟩
  | error why => exact ⟨by simp [hn], by simp [hn, hrest]⟩

theorem run_notices_of_error {why : Failure}
    (h : ((entries mode text).run bytes).result = .error why) :
    ((notices mode text).run bytes).result = .error why := by
  unfold notices
  rw [run_bind, h]

theorem exists_entries (found : discover text = .ok fs)
    (enough : mode = .simulate → ((notices mode text).run bytes).result ≠ .error .outOfBytes) :
    ∃ es rest, (entries mode text).Gives bytes es rest := by
  cases mode with
  | average => exact ⟨_, _, gives_entries_average found bytes⟩
  | simulate =>
    cases hr : ((entries .simulate text).run bytes).result with
    | ok es => exact ⟨es, _, hr, rfl⟩
    | error why =>
      obtain rfl := onlyStarves_entries found bytes why hr
      exact absurd (run_notices_of_error hr) (enough rfl)

theorem Reports.writable {f : List Char} {e : Entry} (h : Reports mode f bytes e)
    (short : f.length ≤ Numeral.limit) : e.Writable := by
  intro n hn
  have hresult := (h.total_iff n).1 hn
  exact writable_of_evaluate ⟨hresult, rfl⟩ short

theorem Threaded.writable (h : Threaded mode bytes fs es)
    (short : ∀ f ∈ fs, f.length ≤ Numeral.limit) : ∀ e ∈ es, e.Writable := by
  intro e he
  obtain ⟨f, hf, bytes, hreports⟩ := h.exists_reports he
  exact hreports.writable (short f hf)

theorem Threaded.total_or_error (h : Threaded mode bytes fs es) :
    ∀ e ∈ es, e.total.isSome = !e.error.isSome := by
  intro e he
  obtain ⟨f, -, bytes, hreports⟩ := h.exists_reports he
  exact hreports.total_or_error

end

/-- A page of the formulas `fs` has its entries `es`, if the bytes are enough. Its notices are those
of `es` when every total is `Writable`, and it fails after all its draws when one is not. Totals of
formulas of at most `Numeral.limit` characters are. -/
theorem notices_of_discover {mode : Mode} {text : List Char} {fs : List (List Char)}
    {bytes : List Byte} (found : discover text = .ok fs)
    (enough : mode = .simulate → ((notices mode text).run bytes).result ≠ .error .outOfBytes) :
    ∃ es rest, (entries mode text).Gives bytes es rest ∧ Threaded mode bytes fs es ∧
      ((∀ e ∈ es, e.Writable) → ∃ lines, (notices mode text).Gives bytes lines rest ∧
        lines.length = fs.length ∧ List.Forall₂ (fun e line => e.notice = .ok line) es lines) ∧
      ((∃ e ∈ es, ¬ e.Writable) →
        ((notices mode text).run bytes).result = .error .unwritable ∧
          ((notices mode text).run bytes).rest = rest) ∧
      ((∀ f ∈ fs, f.length ≤ Numeral.limit) → ∀ e ∈ es, e.Writable) := by
  obtain ⟨es, rest, hes⟩ := exists_entries found enough
  obtain ⟨hresult, hrest⟩ := run_notices_of_entries hes
  obtain ⟨gs, hgs, hthreaded, -⟩ := gives_page_iff.1 hes
  obtain rfl : fs = gs := by
    rw [found] at hgs
    exact Except.ok.inj hgs
  refine ⟨es, rest, hes, hthreaded, fun hall => ?_, ?_, hthreaded.writable⟩
  · obtain ⟨lines, hlines⟩ := mapM_notice_of_writable hall
    have hnotices := mapM_eq_ok_iff.1 hlines
    refine ⟨lines, ⟨hresult.trans hlines, hrest⟩, ?_, hnotices⟩
    rw [← hnotices.length_eq, hthreaded.length_eq]
  · rintro ⟨e, he, hn⟩
    have hnotice := Entry.notice_of_not_writable hn (hthreaded.total_or_error e he)
    exact ⟨hresult.trans (mapM_notice_of_error he hnotice), hrest⟩

/-- A formula that is refused, between two that are rolled. -/
theorem notices_of_discover_mixed :
    let text := ['1', 'd', '6', ' ', '0', 'd', '4', '\n', '1', 'd', '8', '+', '2']
    let fs := [['1', 'd', '6'], ['0', 'd', '4'], ['1', 'd', '8', '+', '2']]
    let bytes : List Byte := [254, 3, 7, 1]
    discover text = .ok fs ∧
      ((notices .simulate text).run bytes).result ≠ .error .outOfBytes ∧
      (∀ f ∈ fs, f.length ≤ Numeral.limit) ∧
      ∃ es rest, (entries .simulate text).Gives bytes es rest ∧ Threaded .simulate bytes fs es ∧
        ∃ lines, (notices .simulate text).Gives bytes lines rest ∧ lines.length = 3 ∧
          List.Forall₂ (fun e line => e.notice = .ok line) es lines := by
  intro text fs bytes
  have hfound : discover text = .ok fs := by decide +kernel
  have henough : ((notices .simulate text).run bytes).result ≠ .error .outOfBytes := by
    decide +kernel
  have hshort : ∀ f ∈ fs, f.length ≤ Numeral.limit := by decide
  obtain ⟨es, rest, hes, hthreaded, hok, -, hwritable⟩ :=
    notices_of_discover hfound fun _ => henough
  exact ⟨hfound, henough, hshort, es, rest, hes, hthreaded, hok (hwritable hshort)⟩

/-! ## A total that is too long -/

/-- A die that can only show a one, and the largest constant that can be read. -/
def overlong : List Char := '1' :: 'd' :: '1' :: '+' :: Figures.largest.digits

def figuresOfOne : Figures where
  digits := ['1']
  ne_nil := List.cons_ne_nil _ _
  all := List.forall_mem_singleton.2 (by decide)
  short := by decide

theorem written_overlong :
    written [.die (some figuresOfOne) ⟨'d', rfl⟩ figuresOfOne, .constant Figures.largest] =
      overlong := by
  rw [written_cons]
  show '1' :: 'd' :: '1' :: '+' :: (Figures.largest.digits ++ []) = overlong
  rw [List.append_nil]
  rfl

theorem read_overlong :
    Formula.read .average overlong = .ok ⟨[⟨1, 1⟩], [(Figures.largest.value : Int)]⟩ := by
  rw [← written_overlong]
  refine read_average_written rfl (List.forall_mem_cons.2 ⟨?_, List.forall_mem_cons.2 ⟨?_, ?_⟩⟩)
  · intro d hd
    cases hd
    exact ⟨by decide, by decide, fun hm => by cases hm⟩
  · intro d hd
    cases hd
  · exact List.forall_mem_nil _

theorem discover_overlong : discover overlong = .ok [overlong] := by
  rw [← written_overlong]
  exact discover_written rfl _

/-- The total is the least number that is not `Writable`. -/
theorem gives_overlong (bytes : List Byte) :
    (evaluate .average overlong).Gives bytes ((10 ^ Numeral.limit : Nat) : Int) bytes := by
  have htotal : Formula.average ⟨[⟨1, 1⟩], [(Figures.largest.value : Int)]⟩ =
      ((10 ^ Numeral.limit : Nat) : Int) := by
    rw [← Figures.value_largest, Formula.average]
    show (1 + 0 : Int) + (Figures.largest.value + 0) = _
    omega
  rw [← htotal]
  exact gives_average_of_read read_overlong bytes

/-- One formula that is found and has a total, and a page without its notice. -/
theorem notices_overlong :
    discover overlong = .ok [overlong] ∧
      (∀ bytes, (evaluate .average overlong).Gives bytes ((10 ^ Numeral.limit : Nat) : Int) bytes) ∧
      ∀ bytes, ((notices .average overlong).run bytes).result = .error .unwritable := by
  refine ⟨discover_overlong, gives_overlong, fun bytes => ?_⟩
  obtain ⟨hresult, -⟩ := run_notices_of_entries (gives_entries_average discover_overlong bytes)
  rw [hresult]
  have hreports := (gives_entry_iff.1 (gives_entry_average overlong bytes)).1
  have htotal := (hreports.total_iff _).2 (gives_overlong bytes).1
  have hlong : ¬ (averageEntry overlong).Writable := fun hw =>
    Numeral.not_writable_pow_limit (hw _ htotal)
  have hnotice := Entry.notice_of_not_writable hlong hreports.total_or_error
  exact mapM_notice_of_error (List.mem_singleton.2 rfl) hnotice

end Page

end DiceFormula
