import DiceFormula.Proofs.Page.Notices
import DiceFormula.Proofs.Roll.Idle
import DiceFormula.Server.Tools

/-!
# Sessions

The requests of a session come one after another, each under settings of its
own, and draw from one stream. Of what serves them no more is asked than
`Serves`: a tool that is offered runs on the text, and any other name has an
answer without running one. Only a request for simulated dice under settings
that offer them can draw. So averages are answered as they would be alone, and
the simulated dice fall as if nothing else had been asked for
(`session_apart`).
-/

namespace DiceFormula

open Roll

/-! ## Tools -/

theorem Mode.toolName_injective : Function.Injective Mode.toolName := by
  intro mode other h
  cases mode <;> cases other <;> first | rfl | exact absurd h (by decide)

namespace Settings

variable {s : Settings} {mode : Mode} {name : String}

theorem tool?_toolName (h : mode ∈ s.tools) : s.tool? mode.toolName = some mode := by
  unfold tool?
  cases hfind : s.tools.find? fun other => other.toolName == mode.toolName with
  | none => exact absurd (beq_self_eq_true _) (List.find?_eq_none.1 hfind mode h)
  | some other =>
    have hname := List.find?_some hfind
    rw [Mode.toolName_injective (beq_iff_eq.1 hname)]

theorem tool?_eq_none (h : ∀ mode ∈ s.tools, name ≠ mode.toolName) : s.tool? name = none := by
  refine List.find?_eq_none.2 fun mode hmode hname => ?_
  exact h mode hmode (beq_iff_eq.1 hname).symm

theorem simulate_mem_tools_iff : Mode.simulate ∈ s.tools ↔ s.simulateEnabled = true := by
  simp [tools]

end Settings

/-! ## Averages -/

/-- Whatever becomes of an average page is the same on any bytes, and draws none. -/
theorem Page.idle_notices_average (text : List Char) : (notices .average text).settle.Idle := by
  cases hfound : discover text with
  | error err =>
    refine ⟨.error (.refused err), fun bytes => gives_settle.2 ?_⟩
    rw [notices, run_bind_error (run_entries_refused hfound bytes)]
    exact ⟨rfl, rfl⟩
  | ok fs =>
    refine ⟨(fs.map averageEntry).mapM Entry.notice, fun bytes => gives_settle.2 ?_⟩
    exact run_notices_of_entries (gives_entries_average hfound bytes)

namespace Server

/-! ## Requests -/

structure Request where
  settings : Settings
  tool : String
  text : List Char
  deriving DecidableEq, Repr

/-- `r` is for the tool of `mode`, if there is one or not. -/
def Request.asks (mode : Mode) (r : Request) : Bool := r.tool == mode.toolName

variable {α : Type} {serve : Request → Roll α} {r : Request}

/-- `serve` runs the page of an enabled mode for the tool of it, and makes the answer of what comes
of it; any other name is answered without a run. -/
structure Serves (serve : Request → Roll α) : Prop where
  offered : ∀ r, ∀ mode ∈ r.settings.tools, r.tool = mode.toolName →
    ∃ answer, Agree Eq (serve r) (answer <$> (Page.notices mode r.text).settle)
  other : ∀ r, (∀ mode ∈ r.settings.tools, r.tool ≠ mode.toolName) →
    ∃ answer, Agree Eq (serve r) (pure answer)

theorem serves_call : Serves fun r => call r.settings r.tool r.text where
  offered r mode hmode hname := by
    refine ⟨fun page => page.mapError (.failed r.tool), ?_⟩
    rw [call, hname, Settings.tool?_toolName hmode]
    exact .refl _
  other r h := by
    refine ⟨.error (.unknown r.tool), ?_⟩
    rw [call, Settings.tool?_eq_none h]
    exact .refl _

theorem Serves.cases (h : Serves serve) (r : Request) :
    (∃ mode ∈ r.settings.tools, r.tool = mode.toolName ∧
        ∃ answer, Agree Eq (serve r) (answer <$> (Page.notices mode r.text).settle)) ∨
      ∃ answer, Agree Eq (serve r) (pure answer) := by
  by_cases hoffered : ∃ mode ∈ r.settings.tools, r.tool = mode.toolName
  · obtain ⟨mode, hmode, hname⟩ := hoffered
    exact .inl ⟨mode, hmode, hname, h.offered r mode hmode hname⟩
  · exact .inr (h.other r fun mode hmode hname => hoffered ⟨mode, hmode, hname⟩)

theorem Serves.exists_gives (h : Serves serve) (r : Request) (bytes : List Byte) :
    ∃ a rest, (serve r).Gives bytes a rest := by
  rcases h.cases r with ⟨mode, -, -, answer, hagree⟩ | ⟨answer, hagree⟩
  · exact ⟨_, _, hagree.gives_iff.2 (gives_map.2 ⟨_, gives_settle.2 ⟨rfl, rfl⟩, rfl⟩)⟩
  · exact ⟨answer, bytes, hagree.gives_iff.2 (gives_pure.2 ⟨rfl, rfl⟩)⟩

/-- Only dice that are asked for and offered can draw. -/
theorem Serves.idle (h : Serves serve)
    (hr : r.settings.simulateEnabled = false ∨ r.asks .simulate = false) : (serve r).Idle := by
  rcases h.cases r with ⟨mode, hmode, hname, answer, hagree⟩ | ⟨answer, hagree⟩
  · cases mode with
    | average => exact .of_agree hagree ((Page.idle_notices_average r.text).map answer)
    | simulate =>
      rcases hr with hoff | hasks
      · rw [Settings.simulate_mem_tools_iff, hoff] at hmode
        cases hmode
      · rw [Request.asks, hname, beq_self_eq_true] at hasks
        cases hasks
  · exact .of_agree hagree (idle_pure answer)

theorem Request.asks_simulate_of_asks_average (h : r.asks .average = true) :
    r.asks .simulate = false := by
  rw [asks, beq_iff_eq] at h
  rw [asks, h]
  decide

/-! ## Sessions -/

def session (serve : Request → Roll α) (rs : List Request) : Roll (List α) := rs.mapM serve

/-- Every request of `rs` has an answer. One for an average is answered as it would be alone on no
bytes, and draws none. Without all requests but those for simulated dice, the answers to these and
the bytes used are the same, and none are used while dice are not to be simulated. -/
theorem session_apart (h : Serves serve) (rs : List Request) (bytes : List Byte) :
    ∃ answers rest, (session serve rs).Gives bytes answers rest ∧ answers.length = rs.length ∧
      (∀ i r, rs[i]? = some r → r.asks .average = true →
        ∃ a, answers[i]? = some a ∧ (session serve [r]).Gives [] [a] [] ∧
          ((session serve (rs.take (i + 1))).run bytes).rest =
            ((session serve (rs.take i)).run bytes).rest) ∧
      (session serve (rs.filter (Request.asks .simulate))).Gives bytes
        (kept (Request.asks .simulate) rs answers) rest ∧
      (session serve (rs.filter (Request.asks .simulate))).used bytes =
        (session serve rs).used bytes ∧
      ((∀ r ∈ rs, r.settings.simulateEnabled = false) → rest = bytes) := by
  obtain ⟨answers, rest, hanswers⟩ := exists_gives_mapM (fun r _ => h.exists_gives r) bytes
  have hsimulated : ((rs.filter (Request.asks .simulate)).mapM serve).Gives bytes
      (kept (Request.asks .simulate) rs answers) rest :=
    gives_mapM_filter (fun r _ hr => h.idle (.inr hr)) hanswers
  refine ⟨answers, rest, hanswers, length_eq_of_gives_mapM hanswers, ?_, hsimulated, ?_, ?_⟩
  · intro i r hi hasks
    obtain ⟨a, ha, hgives⟩ := gives_mapM_getElem? hanswers hi
    have hidle := h.idle (.inr (Request.asks_simulate_of_asks_average hasks))
    have halone := hidle.gives hgives
    refine ⟨a, ha, ?_, (hgives.unique (halone _)).2⟩
    exact gives_mapM_cons.2 ⟨a, [], [], halone [], gives_mapM_nil.2 ⟨rfl, rfl⟩, rfl⟩
  · rw [used, used, session, session, hanswers.2, hsimulated.2]
  · intro hoff
    exact rest_eq_of_gives_mapM (fun r hr => h.idle (.inl (hoff r hr))) hanswers

/-- Averages, dice that are not offered, a name that no tool has, and a page without a formula,
between two rolls. -/
theorem session_apart_mixed :
    let serve := fun r : Request => call r.settings r.tool r.text
    let both : Settings := ⟨true, true, "INFO"⟩
    let rs : List Request :=
      [⟨both, "average_dice", ['d', '6']⟩,
        ⟨⟨true, false, "INFO"⟩, "simulate_dice", ['1', 'd', '6']⟩,
        ⟨both, "simulate_dice", ['1', 'd', '6']⟩, ⟨both, "roll", ['1', 'd', '6']⟩,
        ⟨both, "average_dice", ['d']⟩, ⟨both, "simulate_dice", ['1', 'd', '8']⟩]
    let answers : List (Except ToolError (List String)) :=
      [.ok ["Average of d6: 4"], .error (.unknown "simulate_dice"), .ok ["Simulated 1d6: 4"],
        .error (.unknown "roll"), .error (.failed "average_dice" (.refused .noFormula)),
        .ok ["Simulated 1d8: 8"]]
    let bytes : List Byte := [254, 3, 7, 1]
    Serves serve ∧ (session serve rs).Gives bytes answers [1] ∧
      (session serve (rs.filter (Request.asks .simulate))).Gives bytes
        [.error (.unknown "simulate_dice"), .ok ["Simulated 1d6: 4"], .ok ["Simulated 1d8: 8"]]
        [1] ∧
      (session serve (rs.filter (Request.asks .simulate))).used bytes = 3 := by
  intro serve both rs answers bytes
  have hanswers : (session serve rs).Gives bytes answers [1] := by decide +kernel
  obtain ⟨answers', rest, hgives, -, -, hsimulated, hused, -⟩ :=
    session_apart serves_call rs bytes
  obtain ⟨rfl, rfl⟩ := hanswers.unique hgives
  refine ⟨serves_call, hanswers, hsimulated, hused.trans ?_⟩
  rw [used, hanswers.2]
  rfl

end Server

end DiceFormula
