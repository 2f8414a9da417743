import DiceFormula.Page.Evaluation
import DiceFormula.Proofs.Roll.Causality
import Mathlib.Data.List.Infix

/-!
# Pages read their stream byte by byte

A page draws byte by byte as its dice do, and a refused formula neither draws
ahead nor gives back (`causal_entries`). So the bytes that a page uses settle
its entries, and fewer of them are not enough (`entries_causal`).
-/

namespace DiceFormula

namespace Page

open Roll

theorem causal_record (mode : Mode) (f : List Char) (outcome : Except DiceError Int) :
    Causal (record mode f outcome) := by
  cases outcome with
  | ok total => exact causal_pure _
  | error e => exact (causal_tell _).bind fun _ => causal_pure _

theorem causal_entry (mode : Mode) (f : List Char) : Causal (entry mode f) :=
  (causal_evaluate mode f).attempt.bind (causal_record mode f)

theorem causal_entries (mode : Mode) (text : List Char) : Causal (entries mode text) := by
  have hfound : Causal (found text) :=
    (causal_ofExcept _).bind fun fs => (causal_tell _).bind fun _ => causal_pure fs
  refine hfound.bind fun fs => (causal_tell _).bind fun _ => ?_
  exact causal_mapM fun f _ => causal_entry mode f

/-- The bytes `used` settle the run: a stream that begins with them gives the same entries and the
same log, and one that ends before the last of them starves. -/
theorem entries_causal {mode : Mode} {text : List Char} {bytes : List Byte} {es : List Entry}
    (h : ((entries mode text).run bytes).result = .ok es) :
    let page := entries mode text
    let used := page.used bytes
    (∀ other, other.take used = bytes.take used →
      page.run other = ⟨.ok es, other.drop used, (page.run bytes).log⟩ ∧
        page.used other = used) ∧
      ∀ k < used, (page.run (bytes.take k)).result = .error .outOfBytes ∧
        page.used (bytes.take k) = k := by
  intro page used
  have hpage : Causal page := causal_entries mode text
  refine ⟨fun other same => ?_, fun k hk => ?_⟩
  · exact ⟨hpage.run_of_take_eq h same, hpage.used_of_take_eq h same⟩
  · exact ⟨(hpage.starves_take h hk).1, hpage.used_take h hk⟩

/-- A rejected byte, a formula that is refused, and two dice: three bytes are used of four. -/
theorem entries_causal_rejected :
    let page := entries .simulate ['1', 'd', '6', ' ', '0', 'd', '4', '\n', '1', 'd', '8']
    let bytes : List Byte := [254, 3, 7, 1]
    let es : List Entry :=
      [⟨['1', 'd', '6'], .simulate, some 4, none⟩,
        ⟨['0', 'd', '4'], .simulate, none, some (.malformed ['0', 'd', '4'] .noDie)⟩,
        ⟨['1', 'd', '8'], .simulate, some 8, none⟩]
    (page.run bytes).result = .ok es ∧ page.used bytes = 3 ∧
      (page.run [254, 3, 7, 9, 9]).result = .ok es ∧ page.used [254, 3, 7, 9, 9] = 3 ∧
      (page.run [254, 3]).result = .error .outOfBytes ∧ page.used [254, 3] = 2 := by
  intro page bytes es
  have h : (page.run bytes).result = .ok es := by decide +kernel
  have hused : page.used bytes = 3 := by decide +kernel
  obtain ⟨hsame, hfewer⟩ := entries_causal h
  obtain ⟨hother, hotherUsed⟩ := hsame [254, 3, 7, 9, 9] (by rw [hused]; rfl)
  obtain ⟨hstarves, hshort⟩ := hfewer 2 (by rw [hused]; decide)
  exact ⟨h, hused, by rw [hother], hotherUsed.trans hused, hstarves, hshort⟩

end Page

end DiceFormula
