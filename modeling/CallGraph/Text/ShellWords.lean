/-!
# Shell words

Splitting a command line into words as a POSIX shell does, without expansions. Blanks separate
words, `#` at the start of a word begins a comment, quotes and backslashes take away the meaning of
what they cover. A line that ends inside quotes or after a backslash has no words.
-/
namespace CallGraph.ShellWords

/-- Where in a line the splitting stands. -/
inductive Mode where
  /-- Between words. -/
  | between
  | comment
  /-- In a word, outside quotes. -/
  | bare
  | singleQuoted
  | doubleQuoted
  /-- After a backslash outside quotes. -/
  | escaped
  /-- After a backslash in double quotes. -/
  | doubleEscaped
deriving DecidableEq, Repr, Inhabited

/-- The words finished so far, last first, and the one being read, backwards. -/
structure State where
  mode : Mode
  word : List Char
  words : List (List Char)
deriving DecidableEq, Repr, Inhabited

namespace State

/-- Ends the word being read. -/
def finish (state : State) : State := ⟨.between, [], state.word.reverse :: state.words⟩

def add (state : State) (mode : Mode) (c : Char) : State := ⟨mode, c :: state.word, state.words⟩

/-- Goes on in another mode. -/
def become (state : State) (mode : Mode) : State := { state with mode := mode }

end State

/-- Whether a character ends a word. -/
def isSeparator (c : Char) : Bool := c = ' ' || c = '\t' || c = '\n'

/-- A character in a word, outside quotes. -/
def bareStep (state : State) (c : Char) : State :=
  if c = '"' then state.become .doubleQuoted
  else if c = '\'' then state.become .singleQuoted
  else if c = '\\' then state.become .escaped
  else if isSeparator c then state.finish
  else state.add .bare c

/-- One character of a line. -/
def step (state : State) (c : Char) : State :=
  match state.mode with
  | .between =>
    if isSeparator c then state
    else if c = '#' then state.become .comment
    else bareStep (state.become .bare) c
  | .comment => if c = '\n' then state.become .between else state
  | .bare => bareStep state c
  | .singleQuoted => if c = '\'' then state.become .bare else state.add .singleQuoted c
  | .doubleQuoted =>
    if c = '"' then state.become .bare
    else if c = '\\' then state.become .doubleEscaped
    else state.add .doubleQuoted c
  | .escaped => if c = '\n' then state.become .bare else state.add .bare c
  | .doubleEscaped =>
    if c = '$' ∨ c.toNat = 0x60 ∨ c = '"' ∨ c = '\\' then state.add .doubleQuoted c
    else if c = '\n' then state.become .doubleQuoted
    else (state.add .doubleQuoted '\\').add .doubleQuoted c

/-- The words of a line; none if the line breaks off inside quotes or after a backslash. -/
def split? (line : String) : Option (List String) :=
  let last := line.toList.foldl step ⟨.between, [], []⟩
  let words (state : State) : List String := (state.words.map String.ofList).reverse
  match last.mode with
  | .between | .comment => some (words last)
  | .bare => some (words last.finish)
  | .singleQuoted | .doubleQuoted | .escaped | .doubleEscaped => none

end CallGraph.ShellWords
