import DiceFormula.Proofs.Page.Refusals
import DiceFormula.Proofs.Roll.Accounting

/-!
# The account of a page

A page that is rolled uses one accepted byte for each die of the formulas that
have a total, and rejects and reports the others it draws; a formula that is
refused draws none and is warned of. So what a page uses is seen in its entries
and its log (`entries_accounted`).
-/

namespace DiceFormula

open Roll

theorem Dice.length_flatMap_spans {ds : List Dice} (h : ∀ d ∈ ds, 0 ≤ d.count) :
    ((ds.flatMap spans).length : Int) = (ds.map count).sum := by
  refine length_flatMap fun d hd => ?_
  rw [spans, List.length_replicate]
  exact Int.toNat_of_nonneg (h d hd)

namespace Page

/-! ## One formula -/

/-- The single dice of the formula `f`; one that is refused rolls none. -/
def spansOf (f : List Char) : List Nat :=
  match Formula.read .simulate f with
  | .ok g => g.dice.flatMap Dice.spans
  | .error _ => []

def warningsOf (f : List Char) : List Event :=
  match Formula.read .simulate f with
  | .ok _ => []
  | .error e => [.failedFormula f e]

theorem accountsFor_evaluate {f : List Char} {g : Formula}
    (h : Formula.read .simulate f = .ok g) :
    (evaluate .simulate f).AccountsFor (g.dice.flatMap Dice.spans) [] := by
  intro bytes total rest log hrun
  rw [run_evaluate_ok h] at hrun
  rcases hroll : (g.total .simulate).run bytes with ⟨result, rest', log'⟩
  rw [hroll] at hrun
  cases hrun
  obtain ⟨drawn, rfl, haccount⟩ := Formula.accountsFor_roll h _ _ _ _ hroll
  exact ⟨drawn, rfl, .tell nofun nofun ((Formula.account_report _ f).append haccount)⟩

theorem accountsFor_entry (f : List Char) :
    (entry .simulate f).AccountsFor (spansOf f) (warningsOf f) := by
  unfold spansOf warningsOf
  cases hr : Formula.read .simulate f with
  | error e =>
    have hwarning : Account [] [] [.failedFormula f e] [.failedFormula f e] :=
      .warn nofun rfl .nil
    exact accountsFor_of_run (fun bytes => run_entry_refused (run_evaluate_error hr bytes))
      (.tell nofun nofun ((Formula.account_report _ f).append hwarning))
  | ok g =>
    intro bytes e rest log hrun
    rcases heval : (evaluate .simulate f).run bytes with ⟨why | total, rest', log'⟩
    · obtain rfl : why = .outOfBytes :=
        onlyStarves_evaluate_of_read hr bytes why (by rw [heval])
      rw [run_entry_outOfBytes heval] at hrun
      cases hrun
    · rw [run_entry_ok heval] at hrun
      cases hrun
      exact accountsFor_evaluate hr _ _ _ _ heval

/-! ## All formulas -/

section

variable {text : List Char} {fs : List (List Char)} {es : List Entry} {bytes : List Byte}

theorem accountsFor_entries (found : discover text = .ok fs) :
    (entries .simulate text).AccountsFor (fs.flatMap spansOf) (fs.flatMap warningsOf) := by
  intro bytes es rest log hrun
  rw [run_entries_of_found found] at hrun
  rcases hall : (fs.mapM (entry .simulate)).run bytes with ⟨result, rest', log'⟩
  rw [hall] at hrun
  cases hrun
  have haccounts := accountsFor_mapM fun f (_ : f ∈ fs) => accountsFor_entry f
  obtain ⟨drawn, rfl, haccount⟩ := haccounts _ _ _ _ hall
  exact ⟨drawn, rfl, .tell nofun nofun (.tell nofun nofun haccount)⟩

theorem Reports.error_eq_none {f : List Char} {e : Entry} (h : Reports .simulate f bytes e)
    {g : Formula} (hr : Formula.read .simulate f = .ok g) : e.error = none := by
  apply Option.eq_none_iff_forall_ne_some.2
  intro err he
  cases hr.symm.trans (h.error_eq_some_iff.1 he)

theorem Reports.warningsOf_eq {f : List Char} {e : Entry} (h : Reports .simulate f bytes e) :
    (e.error.map (Event.failedFormula e.formula)).toList = warningsOf f := by
  unfold warningsOf
  rw [h.formula_eq]
  cases hr : Formula.read .simulate f with
  | error err => rw [h.error_eq_some_iff.2 hr]; rfl
  | ok g => rw [h.error_eq_none hr]; rfl

theorem Reports.total_isSome_iff {f : List Char} {e : Entry} (h : Reports .simulate f bytes e) :
    e.total.isSome = true ↔ ∃ g, Formula.read .simulate f = .ok g := by
  have hone := h.total_or_error
  cases hr : Formula.read .simulate f with
  | error err =>
    rw [h.error_eq_some_iff.2 hr] at hone
    simp [hone]
  | ok g =>
    rw [h.error_eq_none hr] at hone
    simp [hone]

theorem Threaded.warnings (h : Threaded .simulate bytes fs es) :
    (es.filterMap fun e => e.error.map (Event.failedFormula e.formula)) =
      fs.flatMap warningsOf := by
  induction h with
  | nil => rfl
  | cons hreports _ ih =>
    rw [List.flatMap_cons, ← hreports.warningsOf_eq, ← ih, List.filterMap_cons]
    cases (Option.map _ _) <;> rfl

theorem Threaded.exists_rolled (h : Threaded .simulate bytes fs es) :
    ∃ rolled : List Formula,
      List.Forall₂ (fun e g => Formula.read .simulate e.formula = .ok g)
        (es.filter fun e => e.total.isSome) rolled ∧
      (rolled.flatMap Formula.dice).flatMap Dice.spans = fs.flatMap spansOf := by
  induction h with
  | nil => exact ⟨[], .nil, rfl⟩
  | @cons bytes f fs e es hreports _ ih =>
    obtain ⟨rolled, hrolled, hspans⟩ := ih
    cases hr : Formula.read .simulate f with
    | error err =>
      have htotal : ¬ e.total.isSome = true := by simp [hreports.total_isSome_iff, hr]
      refine ⟨rolled, ?_, ?_⟩
      · rwa [List.filter_cons_of_neg (p := fun e : Entry => e.total.isSome) htotal]
      · rw [hspans, List.flatMap_cons, spansOf, hr]
        rfl
    | ok g =>
      have htotal := hreports.total_isSome_iff.2 ⟨g, hr⟩
      refine ⟨g :: rolled, ?_, ?_⟩
      · rw [List.filter_cons_of_pos (p := fun e : Entry => e.total.isSome) htotal]
        exact .cons (by rw [hreports.formula_eq, hr]) hrolled
      · rw [List.flatMap_cons, List.flatMap_append, hspans, List.flatMap_cons, spansOf, hr]

/-- `page` uses a byte for each of the `dice` of its `rolled` formulas and one for each of the
`rejections`: among the `draws`, each die has one accepted byte, and the others are rejections. The
warnings of the `log` are the entries with an error, in order. -/
theorem entries_accounted (h : ((entries .simulate text).run bytes).result = .ok es) :
    let page := entries .simulate text
    let log := (page.run bytes).log
    let drawn := bytes.take (page.used bytes)
    let rejections := log.filter fun e => e.topic = .drawing
    ∃ rolled : List Formula,
      List.Forall₂ (fun e g => Formula.read .simulate e.formula = .ok g)
        (es.filter fun e => e.total.isSome) rolled ∧
      let dice := rolled.flatMap Formula.dice
      let draws := moments (dice.flatMap Dice.spans) drawn
      (page.used bytes : Int) = (dice.map Dice.count).sum + rejections.length ∧
        draws.map Prod.snd = drawn ∧
        (draws.filter fun m => m.2.val < 256 / m.1 * m.1).map Prod.fst =
          dice.flatMap Dice.spans ∧
        rejections =
          (draws.filter fun m => 256 / m.1 * m.1 ≤ m.2.val).map
            (fun m => .rejectedByte m.2.val m.1) ∧
        (log.filter fun e => e.level = .warning) =
          es.filterMap fun e => e.error.map (Event.failedFormula e.formula) := by
  intro page log drawn rejections
  have hrun : page.run bytes = ⟨.ok es, (page.run bytes).rest, log⟩ := by rw [← h]
  obtain ⟨fs, found, hthreaded, -⟩ := gives_page_iff.1 ⟨h, rfl⟩
  obtain ⟨drawn', hbytes, haccount⟩ := accountsFor_entries found _ _ _ _ hrun
  obtain ⟨rolled, hrolled, hspans⟩ := hthreaded.exists_rolled
  have hused : page.used bytes = drawn'.length := by
    have hlength := congrArg List.length hbytes
    rw [List.length_append] at hlength
    unfold used
    omega
  obtain rfl : drawn = drawn' := by
    show bytes.take (page.used bytes) = drawn'
    rw [hused, hbytes, List.take_left]
  have hcount : ∀ d ∈ rolled.flatMap Formula.dice, 0 ≤ d.count := by
    intro d hd
    obtain ⟨g, hg, hdg⟩ := List.mem_flatMap.1 hd
    obtain ⟨e, -, hread⟩ := exists_of_mem_forall₂ hrolled hg
    have := (Formula.sound_of_read hread d hdg).one_le_count
    omega
  rw [← hspans] at haccount
  refine ⟨rolled, hrolled, ?_, haccount.map_moments, haccount.accepted, haccount.rejected, ?_⟩
  · have hlength := haccount.length_drawn
    rw [hused, ← Dice.length_flatMap_spans hcount, hlength]
    rfl
  · rw [haccount.filter_warning, hthreaded.warnings]

end

/-- Two dice of six sides with a rejected byte before the second one, a formula without a side, and
a die of 200 sides, which rejects more bytes. -/
theorem entries_accounted_mixed :
    let page := entries .simulate
      ['2', 'd', '6', ' ', '1', 'd', '0', ' ', '1', 'd', '2', '0', '0', '+', '1']
    let bytes : List Byte := [3, 254, 0, 210, 7, 9]
    let es : List Entry :=
      [⟨['2', 'd', '6'], .simulate, some 5, none⟩,
        ⟨['1', 'd', '0'], .simulate, none, some (.malformed ['1', 'd', '0'] .noSide)⟩,
        ⟨['1', 'd', '2', '0', '0', '+', '1'], .simulate, some 9, none⟩]
    (page.run bytes).result = .ok es ∧
      ((page.run bytes).log.filter fun e => e.topic = .drawing) =
        [.rejectedByte 254 6, .rejectedByte 210 200] ∧
      (page.used bytes : Int) = (2 + 1) + 2 ∧
      ((page.run bytes).log.filter fun e => e.level = .warning) =
        [.failedFormula ['1', 'd', '0'] (.malformed ['1', 'd', '0'] .noSide)] := by
  intro page bytes es
  have h : (page.run bytes).result = .ok es := by decide +kernel
  have hrejections : ((page.run bytes).log.filter fun e => e.topic = .drawing) =
      [.rejectedByte 254 6, .rejectedByte 210 200] := by decide +kernel
  obtain ⟨rolled, hrolled, hused, -, -, -, hwarnings⟩ := entries_accounted h
  have hread : rolled = [⟨[⟨2, 6⟩], []⟩, ⟨[⟨1, 200⟩], [1]⟩] := by
    have hmapM := mapM_eq_ok_iff.2 hrolled
    have hes : ((es.filter fun e => e.total.isSome).mapM fun e =>
        Formula.read .simulate e.formula) = .ok [⟨[⟨2, 6⟩], []⟩, ⟨[⟨1, 200⟩], [1]⟩] := by
      decide +kernel
    exact (Except.ok.inj (hes.symm.trans hmapM)).symm
  subst hread
  rw [show ((page.run bytes).log.filter fun e => e.topic = .drawing).length = 2 by
    rw [hrejections]; rfl] at hused
  exact ⟨h, hrejections, hused, hwarnings⟩

end Page

end DiceFormula
