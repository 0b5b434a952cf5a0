import CallGraph.Proofs.Diagram.Growth
import CallGraph.Proofs.Session.Atomic

/-!
# Diagrams of a session

Main result: `loadDefinition_keeps_calls`. After any run, a search for a definition leaves every
call that the diagram has where it is: what is exported afterwards has the same calls in the same
order, sent by the same participants, and perhaps others in between.
-/
namespace CallGraph

namespace Session

/-- What a session has to draw; nothing as long as it has no root. -/
def lines (session : Session) : List Diagram.Line :=
  match session.root? with
  | none => []
  | some root => Diagram.lines session.index root session.included

variable {session : Session}

theorem lines_of_root {root : CallableId} (chosen : session.root? = some root) :
    session.lines = Diagram.lines session.index root session.included := by
  rw [lines, chosen]

theorem diagram_eq_render_lines {root : CallableId} (interactive : session.phase = .interactive)
    (chosen : session.root? = some root) :
    session.diagram = .ok (Diagram.render session.lines) := by
  rw [diagram, if_neg (not_not_intro interactive), lines_of_root chosen, chosen]
  rfl

end Session

namespace Observed

/-- A search for a known callable succeeds in the last phase. All that it changes is the graph, and
the graph only grows. -/
theorem loadDefinition_grows {observed : Observed} (tools : Toolchain)
    (wellFormed : WellFormed observed.session.index.nodes) (coherent : observed.session.Coherent)
    (interactive : observed.session.phase = .interactive) {id : CallableId}
    (known : id ∈ observed.session.index.ids) :
    ∃ resolution index events, (SessionM.loadDefinition tools id).run observed =
        .ok resolution ⟨{ observed.session with index := index }, events⟩ ∧
      WellFormed index.nodes ∧ Extends observed.session.index.nodes index.nodes := by
  have outcome := outcome_loadDefinition tools observed.session observed.events wellFormed id
  generalize (SessionM.loadDefinition tools id).run observed = result at outcome
  cases outcome with
  | done effect =>
    cases effect with
    | searched _ _ _ grown =>
      exact ⟨_, _, _, rfl, grown.wellFormed wellFormed, grown.extendsNodes wellFormed⟩
  | refused refusal =>
    -- Only an unknown callable is in the way here.
    obtain ⟨_, unknown⟩ := refusal.loadDefinition_cases coherent interactive
    exact absurd known unknown

/-- After any run, a search for a known callable in the last phase succeeds and leaves the root and
the included callables alone. The calls that were exported before it, each with its sender, are in
the same order among those that are exported after it. -/
theorem loadDefinition_keeps_calls (displayRoot? : Option Path) (requests : List Request)
    (interactive : (run displayRoot? requests).session.phase = .interactive) (tools : Toolchain)
    {id : CallableId} (known : id ∈ (run displayRoot? requests).session.index.ids) :
    let before := run displayRoot? requests
    ∃ resolution after, (SessionM.loadDefinition tools id).run before = .ok resolution after ∧
      after.session.root? = before.session.root? ∧
      after.session.included = before.session.included ∧
      before.session.diagram = .ok (Diagram.render before.session.lines) ∧
      after.session.diagram = .ok (Diagram.render after.session.lines) ∧
      (Diagram.drawnCalls before.session.lines).Sublist
        (Diagram.drawnCalls after.session.lines) := by
  intro before
  have wellFormed : WellFormed before.session.index.nodes := wellFormed_run displayRoot? requests
  have coherent : before.session.Coherent := coherent_run displayRoot? requests
  obtain ⟨root, chosen⟩ := Option.isSome_iff_exists.mp (coherent.root_iff.mpr interactive)
  obtain ⟨resolution, index, events, searched, later, grown⟩ :=
    loadDefinition_grows tools wellFormed coherent interactive known
  have kept := Diagram.drawnCalls_sublist wellFormed later grown
    (coherent.root_known root chosen) before.session.included
  have drawn := Session.lines_of_root chosen
  have redrawn : Session.lines { before.session with index := index } =
    Diagram.lines index root before.session.included := Session.lines_of_root chosen
  refine ⟨resolution, _, searched, rfl, rfl, ?_, ?_, ?_⟩
  · exact Session.diagram_eq_render_lines interactive chosen
  · exact Session.diagram_eq_render_lines interactive chosen
  · rw [drawn, redrawn]
    exact kept

section Example

private def functionIn (file : Path) (name : String) (isDefinition : Bool) : Fact :=
  .callable ⟨.function, [], name, name ++ "()", "void", isDefinition, file, file⟩

/-- Two files that mention `g`, and the database that lists them. -/
private def twoSources : FileSystem :=
  (((FileSystem.empty ⟨"/w"⟩).addFile ⟨"/w/a.cpp"⟩ [103]).addFile ⟨"/w/b.cpp"⟩ [103]).addFile
    ⟨"/w/db.json"⟩ (Utf8.encode "[[\"a.cpp\", null, null, []], [\"b.cpp\", null, null, []]]")

/-- In `a.cpp`, `f()` calls `g()`, which is only declared there. In `b.cpp`, `g()` calls `f()`. -/
private def twoSourceTools : Toolchain where
  files := twoSources
  analyze path _ := .ok
    { translationUnit := path
      facts :=
        if path = ⟨"/w/a.cpp"⟩ then
          [functionIn path "f" true, functionIn path "g" false, .call ⟨"f()"⟩ ⟨"g()"⟩]
        else [functionIn path "g" true, functionIn path "f" false, .call ⟨"g()"⟩ ⟨"f()"⟩]
      warnings := [] }
  systemDirectories _ := []

private def bothChosen : List Request :=
  [.openSource ⟨"db.json"⟩, .selectUnit ⟨"a.cpp"⟩ false, .selectRoot ⟨"f()"⟩,
    .includeCallable ⟨"f()"⟩, .includeCallable ⟨"g()"⟩].map fun operation =>
      ⟨twoSourceTools, operation⟩

/-- The definition of `g()` is found in the other file, and its call from the first one stays. -/
theorem declared_callee_stays_drawn :
    (run none bothChosen).session.phase = .interactive ∧
      (⟨"g()"⟩ : CallableId) ∈ (run none bothChosen).session.index.ids ∧
      ∃ resolution after, (SessionM.loadDefinition twoSourceTools ⟨"g()"⟩).run
          (run none bothChosen) = .ok resolution after ∧
        resolution.attempted = [⟨"/w/b.cpp"⟩] ∧
        [(none, ⟨"f()"⟩), (some "a.cpp", ⟨"g()"⟩)].Sublist
          (Diagram.drawnCalls after.session.lines) := by
  have interactive : (run none bothChosen).session.phase = .interactive := by decide +kernel
  have known : (⟨"g()"⟩ : CallableId) ∈ (run none bothChosen).session.index.ids := by
    decide +kernel
  obtain ⟨resolution, after, searched, _, _, _, _, kept⟩ :=
    loadDefinition_keeps_calls none bothChosen interactive twoSourceTools known
  have drawn : Diagram.drawnCalls (run none bothChosen).session.lines =
      [(none, ⟨"f()"⟩), (some "a.cpp", ⟨"g()"⟩)] := by decide +kernel
  have tried : (match (SessionM.loadDefinition twoSourceTools ⟨"g()"⟩).run
      (run none bothChosen) with
    | .ok resolution _ => resolution.attempted
    | .error _ _ => []) = [⟨"/w/b.cpp"⟩] := by decide +kernel
  rw [searched] at tried
  exact ⟨interactive, known, resolution, after, searched, tried, drawn ▸ kept⟩

end Example

end Observed

end CallGraph
