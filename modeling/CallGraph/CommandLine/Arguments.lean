import CallGraph.Text.Search

/-!
# Command-line arguments

Sorting the words of a command line into options and positional arguments, by a description of
the options that a command has. Options may be given as `--name value`, `--name=value`, `-n value`
or `-nvalue`; short flags may be joined; after `--` nothing is an option any more.
-/
namespace CallGraph.CommandLine

/-- What an option takes. -/
inductive OptionKind where
  /-- No value, and at most once. -/
  | flag
  /-- No value, any number of times. -/
  | count
  /-- One value, at most once. -/
  | single
  /-- One value each time. -/
  | repeated
deriving DecidableEq, Repr, Inhabited

structure OptionSpec where
  name : String
  short? : Option Char
  kind : OptionKind
  /-- The values that the option accepts. -/
  accepts : String → Bool

/-- What a command line may hold. -/
structure Spec where
  options : List OptionSpec
  /-- For each positional argument, the values that it accepts. -/
  positionals : List (String → Bool)
  /-- Whether words may follow `--`. -/
  takesTrailing : Bool

/-- Why a command line does not lead to a run. -/
inductive Stop where
  | help
  | version
  | usage
deriving DecidableEq, Repr, Inhabited

/-- The words of a command line, sorted. -/
structure Matches where
  /-- The options given, in order, each with its value. -/
  options : List (String × String)
  positionals : List String
  trailing : List String
deriving Repr, Inhabited

namespace Matches

def valuesOf (found : Matches) (name : String) : List String :=
  (found.options.filter (·.1 == name)).map Prod.snd

def value? (found : Matches) (name : String) : Option String := (found.valuesOf name).head?

def has (found : Matches) (name : String) : Bool := (found.value? name).isSome

end Matches

/-- Whether an option takes a value. -/
def OptionSpec.takesValue (option : OptionSpec) : Bool :=
  option.kind == .single || option.kind == .repeated

/-- Notes an option; one that may be given once must not be there already. -/
def addOption (found : Matches) (option : OptionSpec) (value : String) : Except Stop Matches :=
  if option.name = "help" then .error .help
  else if option.name = "version" then .error .version
  else if (option.kind == .flag || option.kind == .single) && found.has option.name then
    .error .usage
  else if option.takesValue && !option.accepts value then .error .usage
  else .ok { found with options := found.options ++ [(option.name, value)] }

/-- What a word amounts to: options, and possibly one that takes the next word as its value. -/
structure WordMatch where
  found : Matches
  awaiting? : Option OptionSpec

/-- Reads a word with two hyphens in front. -/
def longWord (spec : Spec) (found : Matches) (word : String) : Except Stop WordMatch :=
  let chars := word.toList
  let name := String.ofList (chars.takeWhile (· ≠ '='))
  let value? := match chars.dropWhile (· ≠ '=') with
    | [] => none
    | _ :: value => some (String.ofList value)
  match spec.options.find? (·.name == name), value? with
  | none, _ => .error .usage
  | some option, some value =>
    if option.takesValue then (addOption found option value).map (⟨·, none⟩) else .error .usage
  | some option, none =>
    if option.takesValue then .ok ⟨found, some option⟩
    else (addOption found option "").map (⟨·, none⟩)

/-- Reads the letters of a word with one hyphen in front. -/
def shortLetters (spec : Spec) : Matches → List Char → Except Stop WordMatch
  | found, [] => .ok ⟨found, none⟩
  | found, letter :: rest =>
    match spec.options.find? (·.short? == some letter) with
    | none => .error .usage
    | some option =>
      if option.takesValue then
        match rest with
        | [] => .ok ⟨found, some option⟩
        | '=' :: value => (addOption found option (String.ofList value)).map (⟨·, none⟩)
        | value => (addOption found option (String.ofList value)).map (⟨·, none⟩)
      else
        match addOption found option "" with
        | .error stop => .error stop
        | .ok found => shortLetters spec found rest

/-- Whether a word may not be the value of the option before it. -/
def looksLikeOption (word : String) : Bool := word ≠ "-" && word.toList.head? == some '-'

/-- What the words before the first positional argument that `stopAt` picks out amount to. -/
structure Scan where
  found : Matches
  /-- The word that was picked out, and the words after it. -/
  rest? : Option (String × List String)

/--
Reads words. With `subcommands` the first positional argument ends the reading; it names the
command that the words after it belong to.
-/
def scan (spec : Spec) (subcommands : Bool) : Matches → List String → Except Stop Scan
  | found, [] => .ok ⟨found, none⟩
  | found, word :: rest =>
    if word = "--" then
      if spec.takesTrailing || rest.isEmpty then
        .ok ⟨{ found with trailing := found.trailing ++ rest }, none⟩
      else .error .usage
    else if looksLikeOption word then
      let read := match Text.after? "--" word with
        | some long => longWord spec found long
        | none => shortLetters spec found (word.toList.drop 1)
      match read with
      | .error stop => .error stop
      | .ok ⟨found, none⟩ => scan spec subcommands found rest
      | .ok ⟨found, some option⟩ =>
        match rest with
        | [] => .error .usage
        | value :: rest =>
          if looksLikeOption value then .error .usage
          else
            match addOption found option value with
            | .error stop => .error stop
            | .ok found => scan spec subcommands found rest
    -- A positional argument: the name of a command, or the next one that is expected.
    else if subcommands then .ok ⟨found, some (word, rest)⟩
    else
      match spec.positionals[found.positionals.length]? with
      | none => .error .usage
      | some accepts =>
        if accepts word then
          scan spec subcommands { found with positionals := found.positionals ++ [word] } rest
        else .error .usage

def noMatches : Matches := ⟨[], [], []⟩

end CallGraph.CommandLine
