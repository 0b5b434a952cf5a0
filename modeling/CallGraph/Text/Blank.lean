/-!
# Blank characters

White space as Unicode defines it, and the cuts of a text that depend on it.
-/
namespace CallGraph.Text

/-- The characters with the property `White_Space`. -/
def isBlank (c : Char) : Bool :=
  let code := c.toNat
  (9 ≤ code && code ≤ 13) || code = 0x20 || code = 0x85 || code = 0xA0 || code = 0x1680 ||
    (0x2000 ≤ code && code ≤ 0x200A) || code = 0x2028 || code = 0x2029 || code = 0x202F ||
    code = 0x205F || code = 0x3000

/-- `chars` without the characters at both ends that satisfy `drop`. -/
def trimBoth (drop : Char → Bool) (chars : List Char) : List Char :=
  ((chars.dropWhile drop).reverse.dropWhile drop).reverse

/-- A text without blanks at both ends. -/
def trim (text : String) : String := String.ofList (trimBoth isBlank text.toList)

/-- The maximal runs of characters that are not blank, given the run just read. -/
def wordsFrom : List Char → List Char → List (List Char)
  | run, [] => if run = [] then [] else [run.reverse]
  | run, c :: rest =>
    if isBlank c then
      if run = [] then wordsFrom [] rest else run.reverse :: wordsFrom [] rest
    else wordsFrom (c :: run) rest

/-- The maximal runs of characters that are not blank. -/
def words (text : String) : List String := (wordsFrom [] text.toList).map String.ofList

/-- A text without any blank. -/
def withoutBlanks (text : String) : String :=
  String.ofList (text.toList.filter fun c => !isBlank c)

end CallGraph.Text
