/-!
# TOML values

Values of a TOML document and the rules by which keys and headers build up its tables: no key is
given twice, and a table that has been written out is not opened again.
-/
namespace CallGraph

mutual

/-- A value. Floating-point numbers and dates are not told apart further. -/
inductive Toml where
  | string (text : String)
  | integer (value : Int)
  | boolean (value : Bool)
  | float
  | date
  | array (items : List Toml)
  | table (table : TomlTable)
  /-- The tables that headers in double brackets have opened under one name. -/
  | tables (tables : List TomlTable)

/-- A table, and how it has come about. -/
inductive TomlTable where
  /-- `implicit` if no header or braces have opened it, `dotted` if a dotted key has. -/
  | mk (implicit dotted : Bool) (members : List (String × Toml))

end

namespace TomlTable

def implicit : TomlTable → Bool
  | .mk implicit _ _ => implicit

def dotted : TomlTable → Bool
  | .mk _ dotted _ => dotted

def members : TomlTable → List (String × Toml)
  | .mk _ _ members => members

def empty : TomlTable := .mk false false []

def find? (table : TomlTable) (key : String) : Option Toml := table.members.lookup key

def insert (table : TomlTable) (key : String) (value : Toml) : TomlTable :=
  let others := table.members.filter fun member => member.1 != key
  .mk table.implicit table.dotted (others ++ [(key, value)])

/--
Changes the table that `path` leads to. Tables on the way are made as needed; `viaDots` says
whether a dotted key leads there, which may not pass through a table that has been opened.
-/
def descend (viaDots : Bool) (change : TomlTable → Option TomlTable) :
    List String → TomlTable → Option TomlTable
  | [], table => change table
  | key :: rest, table =>
    match table.find? key with
    | none =>
      (descend viaDots change rest (.mk true viaDots [])).map fun inner =>
        table.insert key (.table inner)
    | some (.table inner) =>
      if viaDots && !inner.implicit then none
      else (descend viaDots change rest inner).map fun inner => table.insert key (.table inner)
    | some (.tables tables) =>
      match tables.getLast? with
      | none => none
      | some last =>
        (descend viaDots change rest last).map fun last =>
          table.insert key (.tables (tables.dropLast ++ [last]))
    | some _ => none

/-- Gives a key, after the keys it is dotted with, a value. -/
def assign (path : List String) (key : String) (value : Toml) (table : TomlTable) :
    Option TomlTable :=
  let change (inner : TomlTable) : Option TomlTable :=
    -- Dotted keys extend tables that dots have made, other keys the rest.
    if inner.dotted == path.isEmpty then none
    else if (inner.find? key).isSome then none
    else some (inner.insert key value)
  descend true change path table

/-- Opens the table of a header in single brackets. -/
def openTable (path : List String) (key : String) (root : TomlTable) : Option TomlTable :=
  let change (parent : TomlTable) : Option TomlTable :=
    match parent.find? key with
    | none => some (parent.insert key (.table .empty))
    | some (.table inner) =>
      if inner.implicit && !inner.dotted then
        some (parent.insert key (.table (.mk false false inner.members)))
      else none
    | some _ => none
  descend false change path root

/-- Opens another table of a header in double brackets. -/
def openItem (path : List String) (key : String) (root : TomlTable) : Option TomlTable :=
  let change (parent : TomlTable) : Option TomlTable :=
    match parent.find? key with
    | none => some (parent.insert key (.tables [.empty]))
    | some (.tables tables) => some (parent.insert key (.tables (tables ++ [.empty])))
    | some _ => none
  descend false change path root

/-- Changes the table that the last header has opened. -/
def atHeader (change : TomlTable → Option TomlTable) (header : List String) (root : TomlTable) :
    Option TomlTable :=
  descend false change header root

end TomlTable

end CallGraph
