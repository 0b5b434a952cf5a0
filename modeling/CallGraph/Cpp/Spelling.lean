import CallGraph.Syntax.Tree
import CallGraph.Text.Blank
import CallGraph.Text.Search

/-!
# Canonical spelling

The text of a piece of C++ as a function of its tokens alone, so that layout and comments do not
matter and equal types are spelled alike.
-/
namespace CallGraph.Cpp

/-- The tokens of a pointer or reference type. -/
def isPointerToken (token : String) : Bool := token == "*" || token == "&" || token == "&&"

/-- Whether two neighbouring tokens are written apart. -/
def needsSpace (left right : String) : Bool :=
  if right ∈ [",", ")", "]", ">", "::", "<", "["] then false
  else if left ∈ ["(", "[", "<", "::", "~"] then false
  else if left = ")" ∧ right = "(" then false
  else if isPointerToken right && isPointerToken left then false
  else if isPointerToken left && !(right ∈ ["const", "volatile"]) then false
  else true

/-- Writes tokens next to each other, apart where needed. -/
def joinTokens : List String → String
  | [] => ""
  | [token] => token
  | left :: right :: rest =>
    left ++ (if needsSpace left right then " " else "") ++ joinTokens (right :: rest)

/-- The tokens below a node, without comments and without the nodes at the addresses in `skip`. -/
def tokens (skip : List (List Nat)) (node : Node) : List String :=
  let keep : Node → Bool := fun node => !(node.address ∈ skip) && node.kind != "comment"
  if keep node then
    let leaves := (node.visit (fun _ => true) keep).filter fun node => node.tree.children.isEmpty
    (leaves.map fun leaf => Text.trim leaf.text).filter (· ≠ "")
  else []

/-- The canonical spelling of a node, without the nodes at the addresses in `skip`. -/
def canonicalText (skip : List (List Nat)) (node : Node) : String := joinTokens (tokens skip node)

/--
The name of an operator function: `operator` with its sign directly behind it, or with its word
after one space.
-/
def operatorName (raw : String) : String :=
  let rest := Text.dropLeads "operator".toList raw.toList
  let spaced := (String.intercalate " " (Text.words (String.ofList rest))).toList
  if spaced.head?.any Char.isAlpha then
    let closed := Text.replaceAll " [".toList "[".toList spaced
    "operator " ++ String.ofList (Text.replaceAll "[ ".toList "[".toList closed)
  else "operator" ++ String.ofList (spaced.filter (· ≠ ' '))

/-- What follows the last `::` of a reversed text, reversed. -/
def beforeColons : List Char → List Char
  | [] => []
  | ':' :: ':' :: _ => []
  | c :: rest => c :: beforeColons rest

/-- The last component of a qualified name. -/
def lastComponent (qualified : String) : String :=
  String.ofList (beforeColons qualified.toList.reverse).reverse

/-- The component is what follows the last `::` of a name, or all of a name without `::`. -/
structure IsLastComponent (component qualified : String) : Prop where
  ends : qualified = component ∨ ∃ outer, qualified = outer ++ "::" ++ component
  latest : ∀ outer rest, qualified = outer ++ "::" ++ rest → ∃ between, rest = between ++ component

theorem beforeColons_cases (text : List Char) :
    beforeColons text = text ∨ ∃ rest, beforeColons text ++ ':' :: ':' :: rest = text := by
  fun_induction beforeColons text with
  | case1 => exact .inl rfl
  | case2 rest => exact .inr ⟨rest, rfl⟩
  | case3 c rest _ ih =>
    rcases ih with same | ⟨later, split⟩
    · exact .inl (congrArg (c :: ·) same)
    · exact .inr ⟨later, congrArg (c :: ·) split⟩

theorem beforeColons_isPrefix (front rest : List Char) :
    beforeColons (front ++ ':' :: ':' :: rest) <+: front := by
  generalize whole : front ++ ':' :: ':' :: rest = text
  fun_induction beforeColons text generalizing front with
  | case1 => simp at whole
  | case2 => exact List.nil_prefix
  | case3 c later noColons ih =>
    cases front with
    | nil =>
      obtain ⟨isColon, another⟩ := List.cons.inj whole
      exact absurd another.symm (noColons rest isColon.symm)
    | cons first front =>
      obtain ⟨rfl, split⟩ := List.cons.inj whole
      exact List.cons_prefix_cons.mpr ⟨rfl, ih front split⟩

theorem isLastComponent_lastComponent (qualified : String) :
    IsLastComponent (lastComponent qualified) qualified := by
  constructor
  · rcases beforeColons_cases qualified.toList.reverse with whole | ⟨outer, split⟩
    · left
      rw [lastComponent, whole, List.reverse_reverse, String.ofList_toList]
    · refine .inr ⟨.ofList outer.reverse, String.toList_inj.mp ?_⟩
      refine (List.reverse_eq_iff.mp split.symm).trans ?_
      simp [lastComponent]
  · rintro outer rest rfl
    obtain ⟨between, split⟩ := beforeColons_isPrefix rest.toList.reverse outer.toList.reverse
    refine ⟨.ofList between.reverse, String.toList_inj.mp ?_⟩
    refine (List.reverse_eq_iff.mp split.symm).trans ?_
    simp [lastComponent]

end CallGraph.Cpp
