import DiceFormula.Server.Settings

/-!
# What settings are read as

Every field of `fields` is given or not (`lookUp`), and `read` says of each what
it is read as, on its own. A field that is not given is not at fault, whatever
its default; the others are, in the order of `fields`, just when they are
`Faulty`. What the environment says of a field that is given by an argument does
not matter (`read_cases`).
-/

namespace DiceFormula.Settings

/-- The names of the fields, in order. -/
def fields : List String := [averageField, simulateField, logField]

/-- The field cannot be read when it is given as `g`. -/
inductive Faulty (g : Given) (fault : Fault) : String → Prop where
  | average : readSwitch g = .error fault → Faulty g fault averageField
  | simulate : readSwitch g = .error fault → Faulty g fault simulateField
  | logLevel : readWord g = .error fault → Faulty g fault logField

/-! ## One field -/

section

variable {α : Type} {check : Given → Except Fault α} {default : α} {given : Option Given}
  {field name : String} {fault : Fault}

/-- `default` passes without a check. -/
theorem readField_eq_error_iff :
    readField check default given = .error fault ↔
      ∃ g, given = some g ∧ check g = .error fault := by
  cases given with
  | none => simp [readField]
  | some g => simp [readField]

theorem mem_faultOf {r : Except Fault α} :
    (name, fault) ∈ faultOf field r ↔ name = field ∧ r = .error fault := by
  cases r with
  | ok a => simp [faultOf]
  | error e => simp [faultOf, eq_comm]

end

/-! ## All fields -/

/-- The faults of the fields when they are `given`. -/
def faults (given : String → Option Given) : List (String × Fault) :=
  faultOf averageField (readField readSwitch ({} : Settings).averageEnabled (given averageField)) ++
    faultOf simulateField
      (readField readSwitch ({} : Settings).simulateEnabled (given simulateField)) ++
    faultOf logField (readField readWord ({} : Settings).logLevel (given logField))

theorem mem_faults {given : String → Option Given} {field : String} {fault : Fault} :
    (field, fault) ∈ faults given ↔ ∃ g, given field = some g ∧ Faulty g fault field := by
  simp only [faults, List.mem_append, mem_faultOf, readField_eq_error_iff]
  constructor
  · rintro ((⟨rfl, g, hg, h⟩ | ⟨rfl, g, hg, h⟩) | ⟨rfl, g, hg, h⟩)
    · exact ⟨g, hg, .average h⟩
    · exact ⟨g, hg, .simulate h⟩
    · exact ⟨g, hg, .logLevel h⟩
  · rintro ⟨g, hg, h⟩
    cases h with
    | average h => exact .inl (.inl ⟨rfl, g, hg, h⟩)
    | simulate h => exact .inl (.inr ⟨rfl, g, hg, h⟩)
    | logLevel h => exact .inr ⟨rfl, g, hg, h⟩

theorem faultOf_sublist {α : Type} (field : String) (r : Except Fault α) :
    ((faultOf field r).map Prod.fst).Sublist [field] := by
  cases r with
  | ok a => exact List.nil_sublist _
  | error fault => exact List.Sublist.refl _

theorem faults_sublist (given : String → Option Given) :
    ((faults given).map Prod.fst).Sublist fields := by
  simp only [faults, List.map_append]
  exact ((faultOf_sublist averageField _).append (faultOf_sublist simulateField _)).append
    (faultOf_sublist logField _)

section

variable {environment environment' : List (String × String)} {arguments : List (String × Given)}

theorem read_eq_ok_iff {s : Settings} :
    read environment arguments = .ok s ↔
      let given := lookUp environment arguments
      readField readSwitch ({} : Settings).averageEnabled (given averageField) =
          .ok s.averageEnabled ∧
        readField readSwitch ({} : Settings).simulateEnabled (given simulateField) =
          .ok s.simulateEnabled ∧
        readField readWord ({} : Settings).logLevel (given logField) = .ok s.logLevel := by
  obtain ⟨averageEnabled, simulateEnabled, logLevel⟩ := s
  dsimp only [read]
  generalize readField readSwitch _ (lookUp environment arguments averageField) = average
  generalize readField readSwitch _ (lookUp environment arguments simulateField) = simulate
  generalize readField readWord _ (lookUp environment arguments logField) = log
  cases average <;> cases simulate <;> cases log <;> simp

theorem read_eq_error_iff {e : Invalid} :
    read environment arguments = .error e ↔
      faults (lookUp environment arguments) ≠ [] ∧
        ⟨faults (lookUp environment arguments)⟩ = e := by
  dsimp only [read, faults]
  generalize readField readSwitch _ (lookUp environment arguments averageField) = average
  generalize readField readSwitch _ (lookUp environment arguments simulateField) = simulate
  generalize readField readWord _ (lookUp environment arguments logField) = log
  cases average <;> cases simulate <;> cases log <;> simp [faultOf]

theorem lookUp_congr {field : String}
    (h : firstUnder field arguments = none →
      firstUnder (variablePrefix ++ field) environment'.reverse =
        firstUnder (variablePrefix ++ field) environment.reverse) :
    lookUp environment' arguments field = lookUp environment arguments field := by
  unfold lookUp
  cases hargument : firstUnder field arguments with
  | none => rw [h hargument]
  | some g => rfl

theorem read_congr
    (h : ∀ field ∈ fields,
      lookUp environment' arguments field = lookUp environment arguments field) :
    read environment' arguments = read environment arguments := by
  have haverage := h averageField (by decide)
  have hsimulate := h simulateField (by decide)
  have hlog := h logField (by decide)
  simp only [read, haverage, hsimulate, hlog]

end

/-- `read` takes each field for what it is `given` as, or for its default, and reports all fields at
fault in the order of `fields`. A variable does not matter where `arguments` give its field. -/
theorem read_cases (environment : List (String × String)) (arguments : List (String × Given)) :
    let given := lookUp environment arguments
    (∀ s, read environment arguments = .ok s ↔
      readField readSwitch true (given averageField) = .ok s.averageEnabled ∧
        readField readSwitch false (given simulateField) = .ok s.simulateEnabled ∧
        readField readWord "INFO" (given logField) = .ok s.logLevel) ∧
      (∀ e, read environment arguments = .error e →
        e.faults ≠ [] ∧ (e.faults.map Prod.fst).Sublist fields ∧
          ∀ field fault, (field, fault) ∈ e.faults ↔
            ∃ g, given field = some g ∧ Faulty g fault field) ∧
      ∀ environment', (∀ field ∈ fields, firstUnder field arguments = none →
          firstUnder (variablePrefix ++ field) environment'.reverse =
            firstUnder (variablePrefix ++ field) environment.reverse) →
        read environment' arguments = read environment arguments := by
  refine ⟨fun s => read_eq_ok_iff, fun e he => ?_, fun environment' h => ?_⟩
  · obtain ⟨hne, rfl⟩ := read_eq_error_iff.1 he
    exact ⟨hne, faults_sublist _, fun field fault => mem_faults⟩
  · exact read_congr fun field hfield => lookUp_congr (h field hfield)

theorem read_default {environment : List (String × String)} {arguments : List (String × Given)}
    (h : ∀ field ∈ fields, lookUp environment arguments field = none) :
    read environment arguments = .ok {} := by
  have haverage := h averageField (by decide)
  have hsimulate := h simulateField (by decide)
  have hlog := h logField (by decide)
  refine read_eq_ok_iff.2 ⟨?_, ?_, ?_⟩
  · rw [haverage]
    rfl
  · rw [hsimulate]
    rfl
  · rw [hlog]
    rfl

-- an argument hides a variable that could not be read
example : read [("SIMPLE_DICE_ROLLER_AVERAGE_TOOL_ENABLED", "perhaps")]
    [("average_tool_enabled", .switch false)] = .ok ⟨false, false, "INFO"⟩ := by
  rfl

end DiceFormula.Settings
