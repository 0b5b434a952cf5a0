import CallGraph.CommandLine.Arguments
import CallGraph.CommandLine.Help
import CallGraph.Callable

/-!
# Invocations

What a command line asks for: one of the commands with its arguments, a help text, or nothing that
makes sense.
-/
namespace CallGraph.CommandLine

structure DumpCommand where
  entry : CallableId
  source : Path
  keepSystem : Bool
  extraArguments : List String
deriving Repr, Inhabited

structure ExportCommand where
  source : Path
  root : CallableId
  included : List CallableId
  /-- The translation unit to start from; without it, the first of the catalog. -/
  unit? : Option Path
  loadDefinitions : Bool
  keepSystem : Bool
  /-- The file to write; without it, the diagram is printed. -/
  output? : Option Path
  extraArguments : List String
deriving Repr, Inhabited

inductive Command where
  | dump (command : DumpCommand)
  | export (command : ExportCommand)
  | serve (host? : Option String) (port? : Option Nat)
deriving Repr, Inhabited

/-- A command, and the options that all commands have. -/
structure Invocation where
  config? : Option Path
  verbosity : Nat
  command : Command
deriving Repr, Inhabited

inductive Parsed where
  | run (invocation : Invocation)
  /-- A text is printed, and that is all. -/
  | print (text : String)
  | usageError
deriving Repr, Inhabited

def anyValue (_ : String) : Bool := true

/-- A value that can be a path. -/
def nonempty (value : String) : Bool := value ≠ ""

/-- The number of a port. -/
def port? (value : String) : Option Nat :=
  let digits := match value.toList with
    | '+' :: rest => rest
    | rest => rest
  if digits = [] ∨ !digits.all Char.isDigit then none
  else
    let number := digits.foldl (fun n c => n * 10 + (c.toNat - '0'.toNat)) 0
    if number ≤ 65535 then some number else none

def globalOptions : List OptionSpec := [
  ⟨"config", none, .single, nonempty⟩,
  ⟨"verbose", some 'v', .count, anyValue⟩,
  ⟨"help", some 'h', .flag, anyValue⟩]

/-- What may stand before the name of a command. -/
def rootSpec : Spec := ⟨globalOptions ++ [⟨"version", some 'V', .flag, anyValue⟩], [], false⟩

def dumpSpec : Spec :=
  ⟨globalOptions ++ [⟨"include-system-headers", none, .flag, anyValue⟩],
    [anyValue, nonempty], true⟩

def exportSpec : Spec :=
  ⟨globalOptions ++ [
    ⟨"root", none, .single, anyValue⟩,
    ⟨"include", none, .repeated, anyValue⟩,
    ⟨"tu", none, .single, nonempty⟩,
    ⟨"load-definitions", none, .flag, anyValue⟩,
    ⟨"include-system-headers", none, .flag, anyValue⟩,
    ⟨"output", some 'o', .single, nonempty⟩],
    [nonempty], true⟩

def serveSpec : Spec :=
  ⟨globalOptions ++ [
    ⟨"host", none, .single, anyValue⟩,
    ⟨"port", some 'p', .single, fun value => (port? value).isSome⟩], [], false⟩

def dumpCommand? (found : Matches) : Option Command :=
  match found.positionals with
  | [entry, source] => some (.dump {
      entry := ⟨entry⟩
      source := ⟨source⟩
      keepSystem := found.has "include-system-headers"
      extraArguments := found.trailing })
  | _ => none

def exportCommand? (found : Matches) : Option Command :=
  match found.positionals, found.value? "root" with
  | [source], some root => some (.export {
      source := ⟨source⟩
      root := ⟨root⟩
      included := (found.valuesOf "include").map CallableId.mk
      unit? := (found.value? "tu").map Path.mk
      loadDefinitions := found.has "load-definitions"
      keepSystem := found.has "include-system-headers"
      output? := (found.value? "output").map Path.mk
      extraArguments := found.trailing })
  | _, _ => none

def serveCommand? (found : Matches) : Option Command :=
  some (.serve (found.value? "host") ((found.value? "port").bind port?))

/-- What a stop leads to, in a command with the given help text. -/
def Stop.parsed (help : String) : Stop → Parsed
  | .help => .print help
  | .version => .print versionText
  | .usage => .usageError

def parseCommand (outer : Matches) (spec : Spec) (help : String)
    (command? : Matches → Option Command) (words : List String) : Parsed :=
  match scan spec false noMatches words with
  | .error stop => stop.parsed help
  | .ok ⟨found, _⟩ =>
    match command? found with
    | none => .usageError
    | some command => .run {
        config? := ((found.value? "config").or (outer.value? "config")).map Path.mk
        verbosity := (if found.has "verbose" then found else outer).valuesOf "verbose" |>.length
        command := command }

def parse (words : List String) : Parsed :=
  match scan rootSpec true noMatches words with
  | .error stop => stop.parsed helpText
  | .ok ⟨_, none⟩ => .usageError
  | .ok ⟨outer, some (name, rest)⟩ =>
    match name with
    | "dump" => parseCommand outer dumpSpec dumpHelpText dumpCommand? rest
    | "export" => parseCommand outer exportSpec exportHelpText exportCommand? rest
    | "serve" => parseCommand outer serveSpec serveHelpText serveCommand? rest
    | "help" =>
      match helpOf? rest with
      | some text => .print text
      | none => .usageError
    | _ => .usageError

end CallGraph.CommandLine
