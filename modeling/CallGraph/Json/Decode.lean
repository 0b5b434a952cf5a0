import CallGraph.Json.Value

/-!
# Decoding JSON values

Decoders turn a value into what it stands for; an error says what was expected. A member that is
absent and one that is null are the same.
-/
namespace CallGraph.Json

/-- What a value stands for, or what was expected of it. -/
abbrev Decoder (α : Type) := Json → Except String α

namespace Decoder

def text : Decoder String
  | .string text => .ok text
  | _ => .error "expected a string"

def truth : Decoder Bool
  | .bool value => .ok value
  | _ => .error "expected a truth value"

def nat : Decoder Nat
  | .number literal =>
    match literal.toNat? with
    | some n => .ok n
    | none => .error "expected a natural number"
  | _ => .error "expected a natural number"

def list {α : Type} (item : Decoder α) : Decoder (List α)
  | .array items => items.mapM item
  | _ => .error "expected a list"

/-- Names, each with what a decoder reads, in the order in which they are written. -/
def named {α : Type} (item : Decoder α) : Decoder (List (String × α))
  | .object members => members.mapM fun (name, value) => (item value).map fun found => (name, found)
  | _ => .error "expected an object"

/-- The member of an object with a name, if it is there. -/
def find? (name : String) : Decoder (Option Json)
  | .object members =>
    match member? members name with
    | none | some .null => .ok none
    | some value => .ok (some value)
  | _ => .error "expected an object"

/-- A member that may be absent. -/
def optional {α : Type} (name : String) (item : Decoder α) : Decoder (Option α) := fun value => do
  match ← find? name value with
  | none => pure none
  | some found => (item found).map some

/-- A member that has a value even when it is absent. -/
def withDefault {α : Type} (name : String) (item : Decoder α) (initial : α) : Decoder α :=
  fun value => (optional name item value).map fun found => found.getD initial

/-- A member that must be there. -/
def required {α : Type} (name : String) (item : Decoder α) : Decoder α := fun value => do
  match ← find? name value with
  | none => .error s!"missing {name}"
  | some found => item found

end Decoder

end CallGraph.Json
