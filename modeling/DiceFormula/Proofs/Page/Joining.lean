import DiceFormula.Proofs.Page.Causality
import DiceFormula.Proofs.Page.Notices
import DiceFormula.Proofs.Roll.Sequence

/-!
# Texts set apart by a blank

What is found before a blank and behind it is found apart, so two texts with a
blank between them have the entries of the first and then those of the second,
on the bytes that the first has left (`entriesOrNone_append_blank`). A text in
which nothing is found counts as one without entries there.
-/

namespace DiceFormula

namespace Page

open Roll

/-- The entries of a page, none where no formula is found. -/
def entriesOrNone (mode : Mode) (text : List Char) : Roll (List Entry) := do
  match ← (entries mode text).attempt with
  | .ok es => return es
  | .error .noFormula => return []
  | .error e => Roll.fail (.refused e)

section

variable {mode : Mode} {text : List Char}

/-! ## One text -/

theorem agree_entries_of_found {fs : List (List Char)} (h : discover text = .ok fs) :
    Agree Eq (entries mode text) (fs.mapM (entry mode)) := by
  intro bytes
  rw [run_entries_of_found h]
  exact ⟨rfl, resultsAgree_eq_iff.2 rfl⟩

theorem agree_entriesOrNone_of_found {fs : List (List Char)} (h : discover text = .ok fs) :
    Agree Eq (entriesOrNone mode text) (entries mode text) := by
  intro bytes
  have hstarves : OnlyStarves (entries mode text) := onlyStarves_entries h
  rcases hrun : (entries mode text).run bytes with ⟨why | es, rest, log⟩
  · obtain rfl : why = .outOfBytes := hstarves bytes why (by rw [hrun])
    rw [entriesOrNone, run_bind_error (run_attempt_error hrun (by simp))]
    exact ⟨rfl, .error _⟩
  · rw [entriesOrNone, run_bind_ok (run_attempt_ok hrun)]
    exact ⟨rfl, .ok rfl⟩

theorem agree_entriesOrNone (mode : Mode) (text : List Char) :
    Agree Eq (entriesOrNone mode text) ((formulas text).mapM (entry mode)) := by
  cases hfound : discover text with
  | ok fs =>
    obtain ⟨rfl, -⟩ := discover_eq_ok_iff.1 hfound
    exact (agree_entriesOrNone_of_found hfound).trans (agree_entries_of_found hfound)
  | error e =>
    obtain ⟨hnil, rfl⟩ := discover_eq_error_iff.1 hfound
    rw [hnil]
    intro bytes
    rw [entriesOrNone, run_bind_ok (run_attempt_refused (run_entries_refused hfound bytes))]
    exact ⟨rfl, .ok rfl⟩

theorem causal_entriesOrNone (mode : Mode) (text : List Char) :
    Causal (entriesOrNone mode text) := by
  refine (causal_entries mode text).attempt.bind fun outcome => ?_
  rcases outcome with e | es
  · cases e with
    | noFormula => exact causal_pure []
    | _ => exact causal_fail (by simp)
  · exact causal_pure es

theorem onlyStarves_entriesOrNone (mode : Mode) (text : List Char) :
    OnlyStarves (entriesOrNone mode text) := by
  intro bytes why h
  rw [(agree_entriesOrNone mode text).result_eq] at h
  exact onlyStarves_mapM (fun f _ => onlyStarves_entry mode f) bytes why h

theorem noFormula_iff (bytes : List Byte) :
    ((entries mode text).run bytes).result = .error (.refused .noFormula) ↔
      formulas text = [] := by
  cases hfound : discover text with
  | ok fs =>
    obtain ⟨rfl, hne⟩ := discover_eq_ok_iff.1 hfound
    refine ⟨fun h => ?_, fun h => absurd h hne⟩
    cases onlyStarves_entries hfound bytes _ h
  | error e =>
    obtain ⟨hnil, rfl⟩ := discover_eq_error_iff.1 hfound
    rw [run_entries_refused hfound]
    exact ⟨fun _ => hnil, fun _ => rfl⟩

end

/-! ## Two texts -/

section

variable (mode : Mode) (a b : List Char) {c : Char} (blank : isBlank c = true)

include blank

/-- The entries of `a`, and then those of `b`. -/
theorem agree_entriesOrNone_append_blank :
    Agree Eq (entriesOrNone mode (a ++ c :: b))
      (entriesOrNone mode a >>= fun es => (es ++ ·) <$> entriesOrNone mode b) := by
  have hwhole := agree_entriesOrNone mode (a ++ c :: b)
  rw [formulas_append_blank a blank, List.mapM_append] at hwhole
  refine hwhole.trans ?_
  simp only [bind_pure_comp]
  exact (agree_entriesOrNone mode a).symm.bind_map (agree_entriesOrNone mode b).symm (· ++ ·)

theorem result_entriesOrNone_append_blank (bytes : List Byte) :
    ((entriesOrNone mode (a ++ c :: b)).run bytes).result =
      ((entriesOrNone mode a).run bytes).result.bind fun es =>
        ((entriesOrNone mode b).run ((entriesOrNone mode a).run bytes).rest).result.map
          (es ++ ·) :=
  (agree_entriesOrNone_append_blank mode a b blank).result_bind_map bytes

theorem rest_entriesOrNone_append_blank (bytes : List Byte) :
    ((entriesOrNone mode (a ++ c :: b)).run bytes).rest =
      ((entriesOrNone mode b).run ((entriesOrNone mode a).run bytes).rest).rest :=
  (agree_entriesOrNone_append_blank mode a b blank).rest_bind_map bytes
    (onlyStarves_entriesOrNone mode a) (causal_entriesOrNone mode a) (causal_entriesOrNone mode b)

/-- `whole` has the entries of `first`, then those of `second` on the bytes that are left at `mid`,
and uses what both use. It starves when one of the two does, and has no formula when neither has. -/
theorem entriesOrNone_append_blank (bytes : List Byte) :
    let whole := entriesOrNone mode (a ++ c :: b)
    let first := entriesOrNone mode a
    let second := entriesOrNone mode b
    let mid := (first.run bytes).rest
    (∀ es, (whole.run bytes).result = .ok es ↔
      ∃ es₁ es₂, (first.run bytes).result = .ok es₁ ∧ (second.run mid).result = .ok es₂ ∧
        es₁ ++ es₂ = es) ∧
      whole.used bytes = first.used bytes + second.used mid ∧
      ((whole.run bytes).result = .error .outOfBytes ↔
        (first.run bytes).result = .error .outOfBytes ∨
          (second.run mid).result = .error .outOfBytes) ∧
      (((entries mode (a ++ c :: b)).run bytes).result = .error (.refused .noFormula) ↔
        ((entries mode a).run bytes).result = .error (.refused .noFormula) ∧
          ((entries mode b).run mid).result = .error (.refused .noFormula)) := by
  intro whole first second mid
  have hresult : (whole.run bytes).result =
      (first.run bytes).result.bind fun es => (second.run mid).result.map (es ++ ·) :=
    result_entriesOrNone_append_blank mode a b blank bytes
  have hrest : (whole.run bytes).rest = (second.run mid).rest :=
    rest_entriesOrNone_append_blank mode a b blank bytes
  refine ⟨fun es => ?_, ?_, ?_, ?_⟩
  · rw [hresult]
    cases (first.run bytes).result <;> cases (second.run mid).result <;>
      simp [Except.bind, Except.map]
  · have hmid : mid.length ≤ bytes.length :=
      ((causal_entriesOrNone mode a).suffix bytes).length_le
    have hsecond : (second.run mid).rest.length ≤ mid.length :=
      ((causal_entriesOrNone mode b).suffix mid).length_le
    show bytes.length - (whole.run bytes).rest.length =
      bytes.length - mid.length + (mid.length - (second.run mid).rest.length)
    rw [hrest]
    omega
  · have hfirst := onlyStarves_entriesOrNone mode a bytes
    rw [hresult]
    cases hr : (first.run bytes).result with
    | error why => simp [Except.bind, hfirst why hr]
    | ok es => cases (second.run mid).result <;> simp [Except.bind, Except.map]
  · rw [noFormula_iff, noFormula_iff, noFormula_iff, formulas_append_blank a blank,
      List.append_eq_nil_iff]

end

/-- Two texts on two lines, with a rejected byte in the first and a formula that is refused in the
second. -/
theorem entriesOrNone_append_blank_lines :
    let a := ['1', 'd', '6']
    let b := ['0', 'd', '4', ' ', '1', 'd', '8']
    let bytes : List Byte := [254, 3, 7, 1]
    let es₁ : List Entry := [⟨['1', 'd', '6'], .simulate, some 4, none⟩]
    let es₂ : List Entry :=
      [⟨['0', 'd', '4'], .simulate, none, some (.malformed ['0', 'd', '4'] .noDie)⟩,
        ⟨['1', 'd', '8'], .simulate, some 8, none⟩]
    isBlank '\n' = true ∧ ((entriesOrNone .simulate a).run bytes).result = .ok es₁ ∧
      ((entriesOrNone .simulate b).run [7, 1]).result = .ok es₂ ∧
      ((entriesOrNone .simulate (a ++ '\n' :: b)).run bytes).result = .ok (es₁ ++ es₂) ∧
      (entriesOrNone .simulate (a ++ '\n' :: b)).used bytes = 2 + 1 ∧
      ((entriesOrNone .simulate (a ++ '\n' :: b)).run bytes).result ≠ .error .outOfBytes := by
  intro a b bytes es₁ es₂
  have hblank : isBlank '\n' = true := rfl
  have hfirst : ((entriesOrNone .simulate a).run bytes).result = .ok es₁ := by decide +kernel
  have hmid : ((entriesOrNone .simulate a).run bytes).rest = [7, 1] := by decide +kernel
  have hsecond : ((entriesOrNone .simulate b).run [7, 1]).result = .ok es₂ := by decide +kernel
  have husedFirst : (entriesOrNone .simulate a).used bytes = 2 := by decide +kernel
  have husedSecond : (entriesOrNone .simulate b).used [7, 1] = 1 := by decide +kernel
  obtain ⟨hentries, hused, hstarves, -⟩ :=
    entriesOrNone_append_blank .simulate a b hblank bytes
  rw [hmid] at hentries hused hstarves
  have hboth := (hentries (es₁ ++ es₂)).2 ⟨es₁, es₂, hfirst, hsecond, rfl⟩
  rw [husedFirst, husedSecond] at hused
  refine ⟨hblank, hfirst, hsecond, hboth, hused, ?_⟩
  rw [ne_eq, hstarves, hfirst, hsecond]
  simp

end Page

end DiceFormula
