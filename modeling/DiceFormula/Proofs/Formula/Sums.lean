import DiceFormula.Proofs.Formula.Segments
import DiceFormula.Proofs.Roll.Sequence

/-!
# Sums of formulas

A text whose line breaks are gone has its constants in its segments alone, and
its dice never reach across a plus sign. So two texts with a plus sign between
them are read as the dice of both and the constants of both, in order
(`read_append_plus`), unless the second one begins with a number alone, which
the plus sign makes a constant. The sum rolls the dice of the first text, and
then those of the second on the bytes that the first has left.
-/

namespace DiceFormula

/-! ## Segments -/

theorem segments_append_plus (f g : List Char) :
    segments (f ++ '+' :: g) = segments f ++ segments g :=
  List.splitOnP_append_cons f g rfl

theorem head?_segments (text : List Char) :
    (segments text).head? = some (text.takeWhile (· != '+')) := by
  rcases split_cases (· == '+') text with hw | ⟨w, c, rest, rfl, hw, hc⟩
  · have hall : ∀ c ∈ text, (c != '+') = true := fun c hc => by simp [bne, hw c hc]
    rw [segments_of_no_plus hw, List.takeWhile_eq_self_iff.2 hall]
    rfl
  · obtain rfl : c = '+' := beq_iff_eq.1 hc
    have hall : ∀ c ∈ w, (c != '+') = true := fun c hc => by simp [bne, hw c hc]
    rw [segments_append hw, List.takeWhile_append_of_pos hall]
    simp

theorem mem_of_mem_segments {text s : List Char} (hs : s ∈ segments text) {c : Char}
    (hc : c ∈ s) : c ∈ text := by
  induction text using segmentInduction with
  | segment w hw =>
    rw [segments_of_no_plus hw, List.mem_singleton] at hs
    exact hs ▸ hc
  | more w rest hw ih =>
    rw [segments_append hw, List.mem_cons] at hs
    rcases hs with rfl | hs
    · exact List.mem_append_left _ hc
    · exact List.mem_append_right w (List.mem_cons_of_mem '+' (ih hs))

theorem chomp_of_not_mem {s : List Char} (h : '\n' ∉ s) : chomp s = s :=
  if_neg fun hlast => h (List.mem_of_getLast? hlast)

theorem modifyLast_chomp {ss : List (List Char)} (h : ∀ s ∈ ss, '\n' ∉ s) :
    ss.modifyLast chomp = ss := by
  rcases List.eq_nil_or_concat' ss with rfl | ⟨init, last, rfl⟩
  · rfl
  · rw [List.modifyLast_concat, chomp_of_not_mem (h last (by simp))]

/-! ## Constants -/

section

variable {text : List Char} (unbroken : '\n' ∉ text)

include unbroken

/-- Where no line breaks, the constants are the numerals behind the first segment. -/
theorem constantTerms_unbroken :
    constantTerms (lex text) = (segments text).tail.filter isNumeral := by
  rw [constantTerms_lex, modifyLast_chomp]
  exact fun s hs hc => unbroken (mem_of_mem_segments (List.mem_of_mem_tail hs) hc)

theorem constantTerms_eq_filter (first : isNumeral (text.takeWhile (· != '+')) = false) :
    constantTerms (lex text) = (segments text).filter isNumeral := by
  have hhead := head?_segments text
  rw [constantTerms_unbroken unbroken]
  cases hs : segments text with
  | nil => exact absurd hs (segments_ne_nil text)
  | cons s ss =>
    rw [hs] at hhead
    obtain rfl : s = _ := Option.some.inj hhead
    rw [List.filter_cons_of_neg (by rw [first]; decide)]
    rfl

end

section

variable {f g : List Char} (hf : '\n' ∉ f) (hg : '\n' ∉ g)
  (first : isNumeral (g.takeWhile (· != '+')) = false)

include hf hg first

/-- The last constant of `f` may end it, and `g` has none in front. -/
theorem constantTerms_append_plus :
    constantTerms (lex (f ++ '+' :: g)) = constantTerms (lex f) ++ constantTerms (lex g) := by
  have hsum : '\n' ∉ f ++ '+' :: g := by simp [hf, hg]
  rw [constantTerms_unbroken hsum, constantTerms_unbroken hf, constantTerms_eq_filter hg first,
    segments_append_plus, List.tail_append_of_ne_nil (segments_ne_nil f), List.filter_append]

end

theorem Mode.terms_lex_append_plus (mode : Mode) (f g : List Char) :
    mode.terms (lex (f ++ '+' :: g)) = mode.terms (lex f) ++ mode.terms (lex g) := by
  rw [lex_append_single f isDigit_plus]
  exact mode.terms_append rfl (lex f) (lex g)

/-! ## Sums -/

namespace Formula

variable (F G : Formula)

/-- A sum rolls the dice of `F`, and then those of `G`. -/
theorem roll_add : (F.add G).roll = F.roll >>= fun m => (m + ·) <$> G.roll := by
  have hsum : ∀ ms ns : List Int,
      (ms ++ ns).sum + (F.constants ++ G.constants).sum =
        ms.sum + F.constants.sum + (ns.sum + G.constants.sum) := by
    intro ms ns
    rw [List.sum_append, List.sum_append]
    omega
  simp only [roll, add, List.mapM_append, map_bind, bind_map_left, Functor.map_map,
    bind_pure_comp, hsum]

theorem total_add (mode : Mode) :
    (F.add G).total mode = F.total mode >>= fun m => (m + ·) <$> G.total mode := by
  cases mode with
  | average => simp [total, average_add]
  | simulate => exact roll_add F G

end Formula

open Roll

theorem agree_evaluate_of_read {mode : Mode} {text : List Char} {F : Formula}
    (h : Formula.read mode text = .ok F) : Agree Eq (evaluate mode text) (F.total mode) := by
  intro bytes
  rw [run_evaluate_ok h]
  exact ⟨rfl, resultsAgree_eq_iff.2 rfl⟩

section

variable {mode : Mode} {f g : List Char} {F G : Formula} (hf : '\n' ∉ f) (hg : '\n' ∉ g)
  (first : isNumeral (g.takeWhile (· != '+')) = false)
  (readF : Formula.read mode f = .ok F) (readG : Formula.read mode g = .ok G)

include hf hg first readF readG

theorem read_sum : Formula.read mode (f ++ '+' :: g) = .ok (F.add G) := by
  obtain ⟨hdiceF, hneF, hconstantsF⟩ := Formula.read_eq_ok_iff.1 readF
  obtain ⟨hdiceG, -, hconstantsG⟩ := Formula.read_eq_ok_iff.1 readG
  apply Formula.read_eq_ok_iff.2
  rw [mode.terms_lex_append_plus, constantTerms_append_plus hf hg first]
  have hne : (F.add G).dice ≠ [] := List.append_ne_nil_of_left_ne_nil hneF G.dice
  exact ⟨List.rel_append hdiceF hdiceG, hne, List.rel_append hconstantsF hconstantsG⟩

theorem agree_evaluate_sum :
    Agree Eq (evaluate mode (f ++ '+' :: g))
      (evaluate mode f >>= fun m => (m + ·) <$> evaluate mode g) := by
  have hsum := agree_evaluate_of_read (read_sum hf hg first readF readG)
  have hparts := (agree_evaluate_of_read readF).bind_map (agree_evaluate_of_read readG) (· + ·)
  rw [Formula.total_add] at hsum
  exact hsum.trans hparts.symm

end

/-- `sum` is read as the dice and the constants of `F` and `G`. Their averages are added up; `G` is
rolled on the bytes that `F` leaves, and the totals and the bytes used are added up. -/
theorem read_append_plus {mode : Mode} {f g : List Char} {F G : Formula} (hf : '\n' ∉ f)
    (hg : '\n' ∉ g) (first : isNumeral (g.takeWhile (· != '+')) = false)
    (readF : Formula.read mode f = .ok F) (readG : Formula.read mode g = .ok G) :
    let sum := f ++ '+' :: g
    Formula.read mode sum = .ok ⟨F.dice ++ G.dice, F.constants ++ G.constants⟩ ∧
      (⟨F.dice ++ G.dice, F.constants ++ G.constants⟩ : Formula).average =
        F.average + G.average ∧
      (⟨F.dice ++ G.dice, F.constants ++ G.constants⟩ : Formula).roll =
        (F.roll >>= fun m => (m + ·) <$> G.roll) ∧
      ∀ bytes,
        let mid := ((evaluate mode f).run bytes).rest
        ((evaluate mode sum).run bytes).result =
            (((evaluate mode f).run bytes).result.bind fun m =>
              ((evaluate mode g).run mid).result.map (m + ·)) ∧
          ((evaluate mode sum).run bytes).rest = ((evaluate mode g).run mid).rest ∧
          (evaluate mode sum).used bytes =
            (evaluate mode f).used bytes + (evaluate mode g).used mid := by
  intro sum
  have hagree := agree_evaluate_sum hf hg first readF readG
  have hstarves := onlyStarves_evaluate_of_read readF
  have hcausal := causal_evaluate mode
  refine ⟨read_sum hf hg first readF readG, F.average_add G, F.roll_add G, fun bytes => ?_⟩
  refine ⟨hagree.result_bind_map bytes, ?_, ?_⟩
  · exact hagree.rest_bind_map bytes hstarves (hcausal f) (hcausal g)
  · exact hagree.used_bind_map bytes hstarves (hcausal f) (hcausal g)

/-- A constant that ends `f`, dice behind it, and a rejected byte. -/
theorem read_append_plus_constant :
    let f := ['1', 'd', '6', '+', '3']
    let g := ['2', 'D', '4', '+', '0', '5']
    let F : Formula := ⟨[⟨1, 6⟩], [3]⟩
    let G : Formula := ⟨[⟨2, 4⟩], [5]⟩
    let bytes : List Byte := [254, 3, 1, 2, 9]
    '\n' ∉ f ∧ '\n' ∉ g ∧ isNumeral (g.takeWhile (· != '+')) = false ∧
      Formula.read .simulate f = .ok F ∧ Formula.read .simulate g = .ok G ∧
      Formula.read .simulate (f ++ '+' :: g) = .ok ⟨[⟨1, 6⟩, ⟨2, 4⟩], [3, 5]⟩ ∧
      (⟨[⟨1, 6⟩, ⟨2, 4⟩], [3, 5]⟩ : Formula).average = F.average + G.average ∧
      ((evaluate .simulate (f ++ '+' :: g)).run bytes).result = .ok (7 + 10) ∧
      (evaluate .simulate (f ++ '+' :: g)).used bytes = 2 + 2 := by
  intro f g F G bytes
  have hf : '\n' ∉ f := by decide
  have hg : '\n' ∉ g := by decide
  have hfirst : isNumeral (g.takeWhile (· != '+')) = false := by decide +kernel
  have hF : Formula.read .simulate f = .ok F := by decide +kernel
  have hG : Formula.read .simulate g = .ok G := by decide +kernel
  have hm : (evaluate .simulate f).Gives bytes 7 [1, 2, 9] := by decide +kernel
  have hn : (evaluate .simulate g).Gives [1, 2, 9] 10 [9] := by decide +kernel
  have husedf : (evaluate .simulate f).used bytes = 2 := by decide +kernel
  have husedg : (evaluate .simulate g).used [1, 2, 9] = 2 := by decide +kernel
  obtain ⟨hread, haverage, -, hruns⟩ := read_append_plus hf hg hfirst hF hG
  obtain ⟨hresult, -, hused⟩ := hruns bytes
  rw [hm.1, hm.2] at hresult
  rw [hm.2, husedf, husedg] at hused
  refine ⟨hf, hg, hfirst, hF, hG, hread, haverage, ?_, hused⟩
  rw [hresult]
  show (((evaluate .simulate g).run [1, 2, 9]).result.map (7 + ·)) = _
  rw [hn.1]
  rfl

end DiceFormula
