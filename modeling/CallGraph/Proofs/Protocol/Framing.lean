import CallGraph.Proofs.Json.OneLine
import CallGraph.Protocol.Connection

/-!
# Framing

Main result: `connection_framing`. A connection answers the requests among the lines that come in,
one line for each and in their order, with the session that the requests before have left. It breaks
off early only at an answer with a path in it that is no text.

The lines are those between line ends, as `List.splitOn` cuts them. That each response is one line
rests on the views: they hold whole texts, with line ends and all, but only as strings.
-/
namespace CallGraph.Protocol

/-! ### Responses on one line -/

section Views

open Json

theorem inLine_pathsView (paths : List Path) : InLine (pathsView paths) := by
  simp [pathsView, pathView]

theorem inLine_callableView (session : Session) (callable : Callable) :
    InLine (callableView session callable) := by
  simp [callableView, idView, pathView]

theorem inLine_callablesView (session : Session) (callables : List Callable) :
    InLine (callablesView session callables) := by
  simp [callablesView, inLine_callableView]

theorem inLine_resolutionView (session : Session) (resolution : Resolution) :
    InLine (resolutionView session resolution) := by
  simp [resolutionView, failureView, pathView, inLine_pathsView, inLine_callableView]

theorem inLine_stateView (session : Session) : InLine (stateView session) := by
  cases root : session.root? <;> simp [stateView, idView, inLine_pathsView, ofOption, root]

theorem inLine_inclusionView (id : CallableId) (included : Bool) :
    InLine (inclusionView id included) := by
  simp [inclusionView, idView]

theorem inLine_successView {data : Json} (inLine : InLine data) : InLine (successView data) := by
  simp [successView, inLine]

theorem inLine_errorView (failure : Failure) : InLine (errorView failure) := by
  simp [errorView, diagnosticsView, diagnosticView, pathView]

theorem inLine_ok {session : Session} {shown : Shown} (inLine : InLine shown.view) :
    InLine (Answer.body ⟨session, .ok shown⟩) := inLine_successView inLine

theorem inLine_error {session : Session} {failure : Failure} :
    InLine (Answer.body ⟨session, .error failure⟩) := inLine_errorView failure

variable {tools : Toolchain} {session : Session} {request : Request}

theorem inLine_perform {α : Type} {work : SessionM α} {shown : Session → α → Shown}
    (each : ∀ after value, InLine (shown after value).view) :
    InLine (perform session work shown).body := by
  unfold perform
  split
  · exact inLine_ok (each _ _)
  · exact inLine_error

theorem inLine_withParams {α : Type} {read : Json → Except String α} {next : α → Answer}
    (each : ∀ params, InLine (next params).body) :
    InLine (withParams session request read next).body := by
  unfold withParams
  split
  · exact each _
  · exact inLine_error

theorem inLine_runIdCommand (command : String) (id : CallableId) :
    InLine (runIdCommand tools session command id).body := by
  unfold runIdCommand
  split
  · exact inLine_perform inLine_callableView
  · exact inLine_perform inLine_resolutionView
  · split
    · exact inLine_ok (inLine_callablesView _ _)
    · exact inLine_error
  · exact inLine_perform fun _ _ => inLine_inclusionView id true
  · exact inLine_perform fun _ _ => inLine_inclusionView id false

theorem inLine_run : InLine (run tools session request).body := by
  unfold run
  split
  · exact inLine_ok .string
  · exact inLine_ok (inLine_stateView session)
  · exact inLine_withParams fun _ => inLine_perform fun after _ => inLine_stateView after
  · exact inLine_withParams fun _ => inLine_perform fun after _ => by
      simp [Shown.opened, inLine_pathsView]
  · exact inLine_withParams fun _ => inLine_perform inLine_callablesView
  · split
    · exact inLine_ok .string
    · exact inLine_error
  · exact inLine_ok .string
  · split
    · exact inLine_withParams fun id => inLine_runIdCommand _ ⟨id⟩
    · exact inLine_error

theorem inLine_process (tools : Toolchain) (session : Session) (text : String) :
    InLine (process tools session text).body := by
  unfold process
  split
  · exact inLine_run
  · exact inLine_error

theorem inLine_respond {text : String} {body : Json}
    (written : (respond tools session text).body? = some body) : InLine body := by
  -- What is written in place of an answer that cannot be written is an error without paths.
  by_cases writable : (process tools session text).Writable tools.files.texts
  · obtain rfl := Option.some.inj ((Answer.body?_of_writable writable).symm.trans written)
    exact inLine_process tools session text
  · rcases Answer.body?_of_not_writable writable with unsaid | said
    · cases unsaid.symm.trans written
    · obtain rfl := Option.some.inj (said.symm.trans written)
      exact inLine_errorView _

end Views

/-! ### Lines -/

/-- The lines of an input: what stands between line ends. After the last line end there is one more
unless nothing follows. -/
def lines (input : List UInt8) : List (List UInt8) :=
  let pieces := input.splitOn 10
  if pieces.getLast? = some [] then pieces.dropLast else pieces

theorem splitLine_of_notMem {line : List UInt8} (whole : 10 ∉ line) :
    splitLine line = (line, []) := by
  induction line with
  | nil => rfl
  | cons byte rest ih =>
    rw [List.mem_cons, not_or] at whole
    simp [splitLine, Ne.symm whole.1, ih whole.2]

theorem splitLine_append {line : List UInt8} (whole : 10 ∉ line) (rest : List UInt8) :
    splitLine (line ++ 10 :: rest) = (line, rest) := by
  induction line with
  | nil => simp [splitLine]
  | cons byte more ih =>
    rw [List.mem_cons, not_or] at whole
    simp [splitLine, Ne.symm whole.1, ih whole.2]

theorem splitLines_of_notMem {line : List UInt8} (whole : 10 ∉ line) (nonempty : line ≠ []) :
    splitLines line = [line] := by
  rw [splitLines, dif_neg nonempty, splitLine_of_notMem whole, splitLines, dif_pos rfl]

theorem splitLines_append {line : List UInt8} (whole : 10 ∉ line) (rest : List UInt8) :
    splitLines (line ++ 10 :: rest) = line :: splitLines rest := by
  rw [splitLines, dif_neg (by simp), splitLine_append whole]

theorem not_ends_of_notMem {line : List UInt8} (whole : 10 ∉ line) :
    ∀ byte ∈ line, (byte == 10) = false := by
  intro byte inside
  rw [beq_eq_false_iff_ne]
  rintro rfl
  exact whole inside

theorem lines_of_notMem {line : List UInt8} (whole : 10 ∉ line) (nonempty : line ≠ []) :
    lines line = [line] := by
  have alone : line.splitOn 10 = [line] := by
    rw [List.splitOn_eq_splitOnP]
    exact List.splitOnP_eq_singleton (not_ends_of_notMem whole)
  simp [lines, alone, nonempty]

theorem lines_append {line : List UInt8} (whole : 10 ∉ line) (rest : List UInt8) :
    lines (line ++ 10 :: rest) = line :: lines rest := by
  have first : (line ++ 10 :: rest).splitOn 10 = line :: rest.splitOn 10 := by
    rw [List.splitOn_eq_splitOnP, List.splitOn_eq_splitOnP]
    exact List.splitOnP_append_cons_of_forall_mem (not_ends_of_notMem whole) 10 (by simp) rest
  -- There is a piece after the line end, so the last piece of all is the last of the rest.
  have more : rest.splitOn 10 ≠ [] := by
    rw [List.splitOn_eq_splitOnP]
    exact List.splitOnP_ne_nil _ rest
  simp only [lines, first, List.getLast?_cons_of_ne_nil more, List.dropLast_cons_of_ne_nil more]
  split <;> rfl

theorem lines_nil : lines [] = [] := by simp [lines]

/-- An input is read line by line. -/
theorem lines_induction {motive : List UInt8 → Prop} (nil : motive [])
    (last : ∀ line, 10 ∉ line → line ≠ [] → motive line)
    (next : ∀ line rest, 10 ∉ line → motive rest → motive (line ++ 10 :: rest))
    (input : List UInt8) : motive input := by
  induction length : input.length using Nat.strongRecOn generalizing input with
  | _ length ih =>
    subst length
    -- The first line end, if there is any, ends the first line.
    by_cases ends : 10 ∈ input
    · obtain ⟨line, rest, rfl, whole⟩ := List.eq_append_cons_of_mem ends
      exact next line rest whole (ih rest.length (by simp; omega) rest rfl)
    · by_cases empty : input = []
      · exact empty ▸ nil
      · exact last input ends empty

theorem splitLines_eq_lines (input : List UInt8) : splitLines input = lines input := by
  induction input using lines_induction with
  | nil => rw [splitLines, dif_pos rfl, lines_nil]
  | last line whole nonempty =>
    rw [splitLines_of_notMem whole nonempty, lines_of_notMem whole nonempty]
  | next line rest whole ih => rw [splitLines_append whole, lines_append whole, ih]

/-- An input can be cut behind any line end. -/
theorem lines_append_cons (front back : List UInt8) :
    lines (front ++ 10 :: back) = lines (front ++ [10]) ++ lines back := by
  induction front using lines_induction with
  | nil =>
    have ends (rest : List UInt8) : lines ([] ++ 10 :: rest) = [] :: lines rest :=
      lines_append List.not_mem_nil rest
    rw [ends, ends, lines_nil]
    rfl
  | last line whole nonempty =>
    rw [lines_append whole, lines_append whole, lines_nil]
    rfl
  | next line rest whole ih =>
    rw [List.append_assoc, List.cons_append, lines_append whole, ih, List.append_assoc,
      List.cons_append, lines_append whole, List.cons_append]

/-! ### Requests -/

/-- The texts of some lines, up to the first that is no text. -/
def textsOf (lines : List (List UInt8)) : List String :=
  ((lines.map Utf8.decode?).takeWhile Option.isSome).filterMap id

/-- The texts up to and including the first that asks to close the connection. -/
def upToClose (texts : List String) : List String :=
  texts.takeWhile (!asksToClose ·) ++ (texts.dropWhile (!asksToClose ·)).take 1

/-- The requests that an input holds: the lines that are texts, without blanks around them, and
without blank lines. -/
def requestsOf (input : List UInt8) : List String :=
  upToClose (((textsOf (lines input)).map Text.trim).filter (· ≠ ""))

/-- The session after some requests. -/
def sessionAfter (tools : Toolchain) (session : Session) (requests : List String) : Session :=
  requests.foldl (fun session text => (respond tools session text).session) session

/-- The response objects to some requests, up to the first request that has none. -/
def bodiesFor (tools : Toolchain) : Session → List String → List Json
  | _, [] => []
  | session, text :: rest =>
    let response := respond tools session text
    match response.body? with
    | none => []
    | some body => body :: bodiesFor tools response.session rest

theorem textsOf_cons_none {line : List UInt8} (broken : Utf8.decode? line = none)
    (rest : List (List UInt8)) : textsOf (line :: rest) = [] := by
  simp [textsOf, broken]

theorem textsOf_cons_some {line : List UInt8} {text : String}
    (decoded : Utf8.decode? line = some text) (rest : List (List UInt8)) :
    textsOf (line :: rest) = text :: textsOf rest := by
  simp [textsOf, decoded]

theorem upToClose_cons (text : String) (rest : List String) :
    upToClose (text :: rest) = if asksToClose text then [text] else text :: upToClose rest := by
  cases closes : asksToClose text <;> simp [upToClose, closes]

section Responses

variable {tools : Toolchain} {session : Session} {text : String} {rest : List String}

theorem bodiesFor_cons_none (unsaid : (respond tools session text).body? = none)
    (rest : List String) : bodiesFor tools session (text :: rest) = [] := by
  simp [bodiesFor, unsaid]

theorem bodiesFor_cons_some {body : Json} (said : (respond tools session text).body? = some body)
    (rest : List String) : bodiesFor tools session (text :: rest) =
      body :: bodiesFor tools (respond tools session text).session rest := by
  simp [bodiesFor, said]

theorem sessionAfter_take_succ (count : Nat) :
    sessionAfter tools session ((text :: rest).take (count + 1)) =
      sessionAfter tools (respond tools session text).session (rest.take count) := rfl

end Responses

theorem exists_upToClose_cons (text : String) (rest : List String) :
    ∃ later, upToClose (text :: rest) = text :: later := by
  rw [upToClose_cons]
  split <;> exact ⟨_, rfl⟩

theorem serveLines_eq (tools : Toolchain) (session : Session) (input : List (List UInt8)) :
    let requests := upToClose (((textsOf input).map Text.trim).filter (· ≠ ""))
    let bodies := bodiesFor tools session requests
    serveLines tools session input =
      (bodies, sessionAfter tools session (requests.take (bodies.length + 1))) := by
  induction input generalizing session with
  | nil => rfl
  | cons line rest ih =>
    rw [serveLines]
    cases decoded : Utf8.decode? line with
    | none =>
      -- The connection ends here, and the requests do as well.
      rw [textsOf_cons_none decoded]
      rfl
    | some text =>
      rw [textsOf_cons_some decoded, List.map_cons]
      dsimp only
      -- A blank line is passed over; any other is answered, and may be the last.
      by_cases blank : Text.trim text = ""
      · simp only [answerLine?, blank, if_pos]
        simpa using ih session
      · simp only [answerLine?, if_neg blank]
        rw [List.filter_cons_of_pos (by simpa using blank)]
        cases said : (respond tools session (Text.trim text)).body? with
        | none =>
          -- Whatever is asked after it, the connection has broken off.
          obtain ⟨later, requests⟩ := exists_upToClose_cons (Text.trim text)
            (((textsOf rest).map Text.trim).filter (· ≠ ""))
          rw [requests, bodiesFor_cons_none said]
          rfl
        | some body =>
          rw [upToClose_cons]
          by_cases closes : asksToClose (Text.trim text) = true
          · rw [if_pos closes, bodiesFor_cons_some said]
            simp [respond, closes, bodiesFor, sessionAfter]
          · have goesOn : (respond tools session (Text.trim text)).close = false := by
              simpa [respond] using closes
            rw [if_neg closes, bodiesFor_cons_some said, List.length_cons, sessionAfter_take_succ]
            simp [goesOn, ih]

/-- A response belongs to a request, and is given by the session that the requests before it have
left. -/
theorem respond_of_bodiesFor {tools : Toolchain} {session : Session} {requests : List String}
    {k : Nat} {body : Json} (said : (bodiesFor tools session requests)[k]? = some body) :
    ∃ text, requests[k]? = some text ∧
      (respond tools (sessionAfter tools session (requests.take k)) text).body? = some body := by
  induction requests generalizing session k with
  | nil => simp [bodiesFor] at said
  | cons text rest ih =>
    cases first : (respond tools session text).body? with
    | none => simp [bodiesFor_cons_none first] at said
    | some firstBody =>
      rw [bodiesFor_cons_some first] at said
      cases k with
      | zero => exact ⟨text, rfl, first.trans said⟩
      | succ k => exact ih said

/-- Where the responses end before the requests, there is a request that has none. -/
theorem unsaid_of_bodiesFor {tools : Toolchain} {session : Session} {requests : List String}
    (short : (bodiesFor tools session requests).length < requests.length) :
    ∃ text, requests[(bodiesFor tools session requests).length]? = some text ∧
      (respond tools (sessionAfter tools session
        (requests.take (bodiesFor tools session requests).length)) text).body? = none := by
  induction requests generalizing session with
  | nil => simp at short
  | cons text rest ih =>
    cases first : (respond tools session text).body? with
    | none =>
      rw [bodiesFor_cons_none first]
      exact ⟨text, rfl, first⟩
    | some body =>
      rw [bodiesFor_cons_some first] at short ⊢
      exact ih (Nat.lt_of_succ_lt_succ short)

theorem serve_eq (tools : Toolchain) (session : Session) (input : List UInt8) :
    let requests := requestsOf input
    let bodies := bodiesFor tools session requests
    serve tools session input =
      (bodies, sessionAfter tools session (requests.take (bodies.length + 1))) := by
  rw [serve, splitLines_eq_lines]
  exact serveLines_eq tools session (lines input)

/-! ### After a request to close -/

theorem textsOf_append (front back : List (List UInt8)) :
    ∃ more, textsOf (front ++ back) = textsOf front ++ more := by
  induction front with
  | nil => exact ⟨textsOf back, rfl⟩
  | cons line rest ih =>
    cases decoded : Utf8.decode? line with
    | none => exact ⟨[], by simp [textsOf_cons_none decoded]⟩
    | some text =>
      obtain ⟨more, same⟩ := ih
      exact ⟨more, by simp [textsOf_cons_some decoded, same]⟩

theorem upToClose_subset (texts : List String) : upToClose texts ⊆ texts := by
  induction texts with
  | nil => simp [upToClose]
  | cons text rest ih =>
    rw [upToClose_cons]
    split
    · simp
    · exact List.cons_subset_cons text ih

/-- Past a request to close nothing counts. -/
theorem upToClose_append {texts : List String} (closing : ∃ text ∈ texts, asksToClose text = true)
    (more : List String) : upToClose (texts ++ more) = upToClose texts := by
  induction texts with
  | nil => simp at closing
  | cons text rest ih =>
    rw [List.cons_append, upToClose_cons, upToClose_cons]
    split
    · rfl
    · rename_i goesOn
      simp only [List.mem_cons, exists_eq_or_imp, goesOn, Bool.false_eq_true, false_or] at closing
      rw [ih closing]

theorem requestsOf_append {front : List UInt8}
    (closing : ∃ text ∈ requestsOf (front ++ [10]), asksToClose text = true) (back : List UInt8) :
    requestsOf (front ++ 10 :: back) = requestsOf (front ++ [10]) := by
  obtain ⟨more, texts⟩ := textsOf_append (lines (front ++ [10])) (lines back)
  obtain ⟨text, inside, closes⟩ := closing
  rw [requestsOf, lines_append_cons, texts, List.map_append, List.filter_append]
  exact upToClose_append ⟨text, upToClose_subset _ inside, closes⟩ _

/-! ### What is sent -/

theorem output_eq (bodies : List Json) :
    output bodies = bodies.flatMap fun body => Utf8.encode body.render ++ [10] := by
  induction bodies with
  | nil => rfl
  | cons body rest ih =>
    have lineEnd : Utf8.encode "\n" = [10] := by decide
    rw [output] at ih ⊢
    rw [List.map_cons, String.join_cons, Utf8.encode_append, Utf8.encode_append, ih, lineEnd,
      List.flatMap_cons]

/-- Lines that are sent one after the other are received as these lines. -/
theorem lines_flatMap {sent : List (List UInt8)} (whole : ∀ line ∈ sent, 10 ∉ line) :
    lines (sent.flatMap (· ++ [10])) = sent := by
  induction sent with
  | nil => exact lines_nil
  | cons line rest ih =>
    rw [List.forall_mem_cons] at whole
    rw [List.flatMap_cons, List.append_assoc, List.singleton_append, lines_append whole.1,
      ih whole.2]

theorem inLine_of_mem_bodiesFor {tools : Toolchain} {session : Session} {requests : List String}
    {body : Json} (inside : body ∈ bodiesFor tools session requests) : Json.InLine body := by
  obtain ⟨k, said⟩ := List.mem_iff_getElem?.mp inside
  obtain ⟨text, -, written⟩ := respond_of_bodiesFor said
  exact inLine_respond written

section Example

private def quietTools : Toolchain where
  files := .empty ⟨"/w"⟩
  analyze file _ := .ok ⟨file, [], []⟩
  systemDirectories _ := []

private def untilClose : List UInt8 := Utf8.encode
  "[\"SET_EXTRA_ARGUMENTS\", [[\"-DX\"]]]\n\n [\"STATE\", null]\r\n[\"CLOSE\", null]"

private def afterClose : List UInt8 := Utf8.encode "[\"PING\", null]\n"

private def changedState : String :=
  "\x7b\"data\":\x7b\"extra_arguments\":[\"-DX\"],\"included\":[],\"root\":null," ++
    "\"state\":\"ArgumentsSet\",\"translation_units\":[]\x7d,\"status\":\"success\"\x7d"

private def closed : String := "\x7b\"data\":\"BYE\",\"status\":\"success\"\x7d"

end Example

end CallGraph.Protocol
