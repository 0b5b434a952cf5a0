import CallGraph.Program
import CallGraph.Protocol.Connection
import CallGraph.Snapshot

/-!
# Command line

The program as it is run. The first line of standard input is a snapshot of the files to work on.
A server answers the lines that follow it.
-/
namespace CallGraph.Main

/-- Writes the files that a run has changed. -/
def writeChanges (before after : FileSystem) : IO PUnit :=
  (before.changes after).forM fun (path, bytes) =>
    IO.FS.writeBinFile path.text ⟨bytes.toArray⟩

/-- Answers lines until the input ends or a request closes the connection. -/
partial def serveStream (tools : Toolchain) (session : Session)
    (input output : IO.FS.Stream) : IO PUnit := do
  let line ← input.getLine
  if line.isEmpty then pure ()
  else
    match Protocol.answerLine? tools session line with
    | none => serveStream tools session input output
    | some response =>
      match response.body? with
      | none => pure ()
      | some body =>
        output.putStrLn body.render
        output.flush
        if response.close then pure ()
        else serveStream tools response.session input output

def runOver (snapshot : Snapshot) (words : List String) : IO UInt32 := do
  match Program.run snapshot.files snapshot.grammar words with
  | .finish outcome =>
    IO.print outcome.output
    IO.eprint outcome.errorOutput
    writeChanges snapshot.files outcome.files
    pure outcome.exitCode.toUInt32
  | .serve config _ _ =>
    serveStream snapshot.workspace (Program.newSession config) (← IO.getStdin) (← IO.getStdout)
    pure 0

end CallGraph.Main

def main (words : List String) : IO UInt32 := do
  let document ← (← IO.getStdin).getLine
  match CallGraph.Snapshot.ofDocument document with
  | .ok snapshot => CallGraph.Main.runOver snapshot words
  | .error reason =>
    IO.eprintln s!"Error: the snapshot cannot be used: {reason}"
    pure 1
