/-!
# Searching texts

Looking for one text inside another, and cutting and replacing where it is found.
-/
namespace CallGraph.Text

/-- Whether `target` occurs in `whole` without gaps; the empty list occurs everywhere. -/
def occursIn {α : Type} [DecidableEq α] (target whole : List α) : Bool :=
  match whole with
  | [] => target.isEmpty
  | x :: rest => target.isPrefixOf (x :: rest) || occursIn target rest

/-- What follows `lead` at the front of a text; none if the text does not start with it. -/
def after? (lead text : String) : Option String :=
  if lead.toList.isPrefixOf text.toList then
    some (String.ofList (text.toList.drop lead.toList.length))
  else none

/-- Drops `lead` from the front of `chars` as long as it stands there. -/
def dropLeads (lead : List Char) (chars : List Char) : List Char :=
  if lead ≠ [] ∧ lead.isPrefixOf chars then dropLeads lead (chars.drop lead.length) else chars
termination_by chars.length
decreasing_by
  rename_i found
  have nonempty : 0 < lead.length := List.length_pos_iff.mpr found.1
  have fits := (List.isPrefixOf_iff_prefix.mp found.2).length_le
  simp only [List.length_drop]
  omega

/-- Replaces every occurrence of `target`, from left to right, by `replacement`. -/
def replaceAll (target replacement : List Char) (chars : List Char) : List Char :=
  match chars with
  | [] => []
  | c :: rest =>
    if target ≠ [] ∧ target.isPrefixOf (c :: rest) then
      replacement ++ replaceAll target replacement ((c :: rest).drop target.length)
    else c :: replaceAll target replacement rest
termination_by chars.length
decreasing_by
  · rename_i found
    have nonempty : 0 < target.length := List.length_pos_iff.mpr found.1
    simp only [List.length_drop, List.length_cons]
    omega
  · simp

/-- The pieces of `chars` between occurrences of `separator`, given the piece just read. -/
def splitFrom (separator : List Char) (run : List Char) (chars : List Char) : List (List Char) :=
  match chars with
  | [] => [run.reverse]
  | c :: rest =>
    if separator ≠ [] ∧ separator.isPrefixOf (c :: rest) then
      run.reverse :: splitFrom separator [] ((c :: rest).drop separator.length)
    else splitFrom separator (c :: run) rest
termination_by chars.length
decreasing_by
  · rename_i found
    have nonempty : 0 < separator.length := List.length_pos_iff.mpr found.1
    simp only [List.length_drop, List.length_cons]
    omega
  · simp

/-- The pieces of a text between the occurrences of a separator. -/
def split (separator text : String) : List String :=
  (splitFrom separator.toList [] text.toList).map String.ofList

end CallGraph.Text
