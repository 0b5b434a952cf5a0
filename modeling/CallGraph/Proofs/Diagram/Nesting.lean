import CallGraph.Proofs.Diagram.Drawing

/-!
# Activations

Main result: `senders_are_innermost_activations`. Read line by line with a stack of the active
participants, a diagram activates whom it calls, deactivates in the opposite order, and sends each
call from the top of the stack. Told by walks, that is the nearest included caller. The text of a
diagram is that of its lines, each written as `Written` says.

The two views come from the same recursion. The stack is read off the brackets (`Nested`), and the
walks off the path, so neither needs to mention the other.
-/
namespace CallGraph.Diagram

/-- The lines can be read with the given participants active, the innermost one first, and leave
none active in the end. -/
def WellNested : List String → List Line → Prop
  | active, [] => active = []
  | active, .call sender? callee :: .activate participant :: rest =>
    sender? = active.head? ∧ participant = callee.participant ∧
      WellNested (participant :: active) rest
  | innermost :: outer, .deactivate participant :: rest =>
    participant = innermost ∧ WellNested outer rest
  | _, _ => False

/-- Bracketed lines can be read before whatever can be read after them. -/
theorem Nested.wellNested_append {sender? : Option String} {lines : List Line}
    (nested : Nested sender? lines) {active : List String} (innermost : sender? = active.head?)
    {rest : List Line} (readable : WellNested active rest) : WellNested active (lines ++ rest) := by
  -- Over the brackets. What follows a bracket is part of `rest` while its inside is read.
  induction nested generalizing active rest with
  | nil => exact readable
  | @bracket sender? callee inner later _ _ inside after =>
    have closing : WellNested (callee.participant :: active)
        (.deactivate callee.participant :: (later ++ rest)) :=
      ⟨rfl, after innermost readable⟩
    have opened := inside rfl closing
    simp only [Diagram.bracket, List.cons_append, List.append_assoc, List.nil_append]
    exact ⟨innermost, rfl, opened⟩

theorem wellNested_lines (index : Index) (root : CallableId) (included : List CallableId) :
    WellNested [] (lines index root included) := by
  have readable : WellNested [] (lines index root included ++ []) :=
    (nested_lines index root included).wellNested_append rfl rfl
  rwa [List.append_nil] at readable

/-! ### Senders by walks -/

/-- The last included callable of a walk before its end. -/
def nearestIncluded (included walk : List CallableId) : Option CallableId :=
  (walk.dropLast.filter (· ∈ included)).getLast?

/-- A call of the callable at the end of a walk, sent by the nearest included one above it. -/
structure CallsEnd (index : Index) (included walk : List CallableId) (sender? : Option String)
    (callee : Callable) : Prop where
  receiver : ∃ last, walk.getLast? = some last ∧ index.find? last = some callee
  sent : ∀ above, nearestIncluded included walk = some above →
    ∃ caller, index.find? above = some caller ∧ sender? = some caller.participant
  unsent : nearestIncluded included walk = none → sender? = none

variable {index : Index} {included : List CallableId}

theorem callsEnd_of_callOf {walk : List CallableId} {line : Line}
    (calls : walk.IsChain index.HasCall) (drawn : callOf index included none walk = some line) :
    ∃ sender? callee, line = .call sender? callee ∧
      CallsEnd index included walk sender? callee := by
  obtain ⟨last, callee, ends, _, found, rfl⟩ := callOf_eq_some_iff.mp drawn
  refine ⟨_, callee, rfl, ⟨last, ends, found⟩, ?_, ?_⟩
  · intro above nearest
    -- Whatever comes before the end of a walk calls what comes next, so it is known.
    have passed := List.mem_of_mem_filter (List.mem_of_getLast? nearest)
    obtain ⟨_, called⟩ := exists_call_of_mem_dropLast calls passed
    cases known : index.find? above with
    | none => exact absurd (Index.caller_known called) (Index.find?_eq_none_iff.mp known)
    | some caller =>
      rw [nearestIncluded] at nearest
      exact ⟨caller, rfl, by simp [nearestSender, nearest, known]⟩
  · intro nobody
    rw [nearestIncluded] at nobody
    rw [nearestSender, nobody]

/-! ### How lines are written -/

/-- How a line is written. A sender stands in quotes before the arrow of its call; nothing stands
there for a call that nobody sends, or that comes from a participant without a name. -/
inductive Written : Line → String → Prop where
  | sent {sender : String} (named : sender ≠ "") (callee : Callable) :
    Written (.call (some sender) callee)
      ("\"" ++ sender ++ "\" -> \"" ++ callee.participant ++ "\": " ++ callee.qualifiedName)
  | nameless (callee : Callable) :
    Written (.call (some "") callee)
      (" -> \"" ++ callee.participant ++ "\": " ++ callee.qualifiedName)
  | unsent (callee : Callable) :
    Written (.call none callee)
      (" -> \"" ++ callee.participant ++ "\": " ++ callee.qualifiedName)
  | activate (participant : String) :
    Written (.activate participant) ("activate \"" ++ participant ++ "\"")
  | deactivate (participant : String) :
    Written (.deactivate participant) ("deactivate \"" ++ participant ++ "\"")

theorem render_call_sent {sender : String} (named : sender ≠ "") (callee : Callable) :
    (Line.call (some sender) callee).render =
      "\"" ++ sender ++ "\" -> \"" ++ callee.participant ++ "\": " ++ callee.qualifiedName := by
  have arrow : "\" -> \"" = "\"" ++ " -> \"" := by decide
  simp only [Line.render, toString, arrow, String.append_assoc]

theorem written_render (line : Line) : Written line line.render := by
  cases line with
  | call sender? callee =>
    cases sender? with
    | none =>
      have text := Written.unsent callee
      rwa [← String.empty_append (s := " -> \"")] at text
    | some sender =>
      by_cases nameless : sender = ""
      · subst nameless
        have text := Written.nameless callee
        rwa [← String.empty_append (s := " -> \"")] at text
      · exact render_call_sent nameless callee ▸ .sent nameless callee
  | activate participant => exact .activate participant
  | deactivate participant => exact .deactivate participant

/-- The lines of a diagram can be read with a stack of activations, from which every call is sent.
They are written one below the other, as `Written` says, between the marks of a diagram. The calls
are those of the drawn walks, each sent by the nearest included callable on its walk. -/
theorem senders_are_innermost_activations (index : Index) (root : CallableId)
    (included : List CallableId) :
    WellNested [] (lines index root included) ∧
    (∀ line : Line, Written line line.render) ∧
    (∃ texts, List.Forall₂ Written (lines index root included) texts ∧
      text index root included =
        "@startuml\n\n" ++ String.join (texts.map (· ++ "\n")) ++ "\n@enduml") ∧
    (index.Reachable → ∃ walks : List (List CallableId),
      (∀ walk, walk ∈ walks ↔ root ∈ index.ids ∧ DrawnWalk index root included walk) ∧
      walks.Pairwise (Precedes index) ∧
      List.Forall₂ (fun walk line => ∃ sender? callee, line = .call sender? callee ∧
        CallsEnd index included walk sender? callee)
        walks (callLines (lines index root included))) := by
  refine ⟨wellNested_lines index root included, written_render, ?_, ?_⟩
  · refine ⟨(lines index root included).map Line.render, ?_, ?_⟩
    · rw [List.forall₂_map_right_iff, List.forall₂_same]
      exact fun line _ => written_render line
    · rw [List.map_map]
      rfl
  intro reachable
  obtain ⟨walks, member, ordered, related⟩ := exists_drawnWalks reachable.wellFormed root included
  have calls (walk) (there : walk ∈ walks) : walk.IsChain index.HasCall :=
    ((member walk).mp there).2.calls
  refine ⟨walks, member, ordered, ?_⟩
  apply ((List.forall₂_and_left walks _).mpr ⟨calls, related⟩).imp
  rintro walk line ⟨chain, drawn⟩
  exact callsEnd_of_callOf chain drawn

section Example

private def methodFact (scope : String) : Fact :=
  .callable ⟨.method, [scope], "m", "m()", "void", true, ⟨"/f.cpp"⟩, ⟨"/f.cpp"⟩⟩

/-- The file where `F::m()` calls `G::m()`, which calls `H::m()`. -/
private def chainRequest : IngestRequest where
  workspace :=
    ⟨⟨.directory [("f.cpp", .file [])], [], .plain⟩, fun path _ => .ok ⟨path,
      [methodFact "F", methodFact "G", methodFact "H", .call ⟨"F::m()"⟩ ⟨"G::m()"⟩,
        .call ⟨"G::m()"⟩ ⟨"H::m()"⟩], []⟩⟩
  excluded := []
  file := ⟨"/f.cpp"⟩
  arguments := []

/-- The call of `H::m()` comes from `F`, past `G::m()`, which is not included. -/
theorem sender_past_excluded :
    (Index.run ⟨none⟩ [chainRequest]).Reachable ∧
    (∃ callee : Callable, callee.id = ⟨"H::m()"⟩ ∧
      Line.call (some "F") callee ∈ callLines
        (lines (Index.run ⟨none⟩ [chainRequest]) ⟨"F::m()"⟩ [⟨"F::m()"⟩, ⟨"H::m()"⟩]) ∧
      Written (.call (some "F") callee) "\"F\" -> \"H\": void H::m()") ∧
    text (Index.run ⟨none⟩ [chainRequest]) ⟨"F::m()"⟩ [⟨"F::m()"⟩, ⟨"H::m()"⟩] =
      "@startuml\n\n" ++
        " -> \"F\": void F::m()\nactivate \"F\"\n" ++
        "\"F\" -> \"H\": void H::m()\nactivate \"H\"\ndeactivate \"H\"\n" ++
        "deactivate \"F\"\n" ++ "\n@enduml" := by
  have reachable : (Index.run ⟨none⟩ [chainRequest]).Reachable := ⟨_, _, rfl⟩
  obtain ⟨_, written, _, byWalks⟩ := senders_are_innermost_activations
    (Index.run ⟨none⟩ [chainRequest]) ⟨"F::m()"⟩ [⟨"F::m()"⟩, ⟨"H::m()"⟩]
  obtain ⟨walks, member, _, related⟩ := byWalks reachable
  have drawn : [⟨"F::m()"⟩, ⟨"G::m()"⟩, ⟨"H::m()"⟩] ∈ walks := by
    rw [member]
    refine ⟨by decide, rfl, ?_, by decide, ⟨"H::m()"⟩, by decide, rfl⟩
    simp only [List.isChain_cons_cons, Index.HasCall]
    exact ⟨by decide, by decide, .singleton _⟩
  obtain ⟨line, inDiagram, sender?, callee, rfl, call⟩ := (exists_of_forall₂ related).1 _ drawn
  obtain ⟨last, ends, found⟩ := call.receiver
  obtain ⟨caller, above, rfl⟩ := call.sent ⟨"F::m()"⟩ (by decide)
  obtain rfl := Option.some.inj ends
  have named : caller.participant = "F" := by
    have records := congrArg (Option.map Callable.participant) above
    exact Option.some.inj (records.symm.trans (by decide))
  have shown : callee.participant = "H" ∧ callee.qualifiedName = "void H::m()" := by
    have records := congrArg
      (Option.map fun callable => (callable.participant, callable.qualifiedName)) found
    exact Prod.mk.inj (Option.some.inj (records.symm.trans (by decide)))
  rw [named] at inDiagram
  refine ⟨reachable, ⟨callee, ?_, inDiagram, ?_⟩, by decide +kernel⟩
  · exact ((Index.find?_eq_some_iff reachable.wellFormed).mp found).2
  · have text := written (.call (some "F") callee)
    rw [render_call_sent (by decide), shown.1, shown.2] at text
    exact text

end Example

end CallGraph.Diagram
