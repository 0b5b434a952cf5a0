import CallGraph.Protocol.Server
import CallGraph.Text.Blank
import CallGraph.Text.Utf8

/-!
# Connections

A connection carries one request per line and answers each with one line. Blank lines are passed
over. The connection ends with the input, after a request to close, at a line that is no text, or at
a request that has no response.
-/
namespace CallGraph.Protocol

/-- The first line of a byte sequence without its line end, and what follows the line end. -/
def splitLine : List UInt8 → List UInt8 × List UInt8
  | [] => ([], [])
  | byte :: rest =>
    if byte = 10 then ([], rest)
    else
      let (line, after) := splitLine rest
      (byte :: line, after)

theorem length_splitLine_le (bytes : List UInt8) : (splitLine bytes).2.length ≤ bytes.length := by
  induction bytes with
  | nil => simp [splitLine]
  | cons byte rest ih =>
    rw [splitLine]
    split
    · simp
    · simpa using Nat.le_succ_of_le ih

theorem length_splitLine_lt {bytes : List UInt8} (nonempty : bytes ≠ []) :
    (splitLine bytes).2.length < bytes.length := by
  cases bytes with
  | nil => exact absurd rfl nonempty
  | cons byte rest =>
    rw [splitLine]
    split
    · simp
    · simpa using Nat.lt_succ_of_le (length_splitLine_le rest)

/-- The lines of an input; what follows the last line end is a line unless it is empty. -/
def splitLines (bytes : List UInt8) : List (List UInt8) :=
  if _nonempty : bytes = [] then []
  else (splitLine bytes).1 :: splitLines (splitLine bytes).2
termination_by bytes.length
decreasing_by exact length_splitLine_lt _nonempty

/-- The response to a line; a blank line has none. -/
def answerLine? (tools : Toolchain) (session : Session) (line : String) : Option Response :=
  let request := Text.trim line
  if request = "" then none else some (respond tools session request)

/-- Answers the lines of an input; yields the responses and the session in the end. -/
def serveLines (tools : Toolchain) : Session → List (List UInt8) → List Json × Session
  | session, [] => ([], session)
  | session, line :: rest =>
    match Utf8.decode? line with
    | none => ([], session)
    | some text =>
      match answerLine? tools session text with
      | none => serveLines tools session rest
      | some response =>
        match response.body? with
        | none => ([], response.session)
        | some body =>
          if response.close then ([body], response.session)
          else
            let (bodies, last) := serveLines tools response.session rest
            (body :: bodies, last)

/-- Answers everything that comes in over a connection. -/
def serve (tools : Toolchain) (session : Session) (input : List UInt8) :
    List Json × Session :=
  serveLines tools session (splitLines input)

/-- The bytes that a connection sends for the given responses: one line each. -/
def output (bodies : List Json) : List UInt8 :=
  Utf8.encode (String.join (bodies.map fun body => body.render ++ "\n"))

end CallGraph.Protocol
