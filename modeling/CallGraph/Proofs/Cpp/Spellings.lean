import CallGraph.Proofs.Cpp.Declared
import Mathlib.Order.Bounds.Basic

/-!
# Callables by their spelling

Main result: `indexed_ofFiles`. The table of a unit notes under each spelling exactly the callables
that have it, in the order in which they were met. So what is searched for by its spelling is the
first callable of the unit that fits (`findNamed?_eq_some_iff`).
-/
namespace CallGraph.Cpp

theorem isLeast_of_find? {positions : List Nat} {accept : Nat → Bool} {position : Nat}
    (increasing : positions.Pairwise (· < ·)) (found : positions.find? accept = some position) :
    IsLeast {other | other ∈ positions ∧ accept other = true} position := by
  obtain ⟨accepted, before, after, rfl, rejected⟩ := List.find?_eq_some_iff_append.mp found
  refine ⟨⟨by simp, accepted⟩, ?_⟩
  rintro other ⟨member, acceptedToo⟩
  obtain ⟨_, later, _⟩ := List.pairwise_append.mp increasing
  rcases List.mem_append.mp member with earlier | notEarlier
  · have rejectedToo := rejected other earlier
    rw [acceptedToo] at rejectedToo
    cases rejectedToo
  · rcases List.mem_cons.mp notEarlier with rfl | behind
    · exact Nat.le_refl _
    · exact Nat.le_of_lt (List.rel_of_pairwise_cons later behind)

/-- What is found in an increasing list is the least that is accepted. -/
theorem find?_eq_some_iff_isLeast {positions : List Nat} {accept : Nat → Bool} {position : Nat}
    (increasing : positions.Pairwise (· < ·)) :
    positions.find? accept = some position ↔
      IsLeast {other | other ∈ positions ∧ accept other = true} position := by
  refine ⟨isLeast_of_find? increasing, fun least => ?_⟩
  cases found : positions.find? accept with
  | none => exact absurd least.1.2 (List.find?_eq_none.mp found position least.1.1)
  | some first => rw [(isLeast_of_find? increasing found).unique least]

namespace SymbolTable

variable {table : SymbolTable} {spelling : String} {accept : Symbol → Bool} {position : Nat}

/-- The positions that the table notes under a spelling. -/
def positions (table : SymbolTable) (spelling : String) : List Nat :=
  (table.bySpelling.lookup spelling).getD []

/-- Under each spelling the table notes exactly the callables that have it, in order. Every table
that is read from files is such a table (`indexed_ofFiles`). -/
structure Indexed (table : SymbolTable) : Prop where
  increasing : ∀ spelling, (table.positions spelling).Pairwise (· < ·)
  mem_iff : ∀ spelling position, position ∈ table.positions spelling ↔
    ∃ symbol, table.symbols[position]? = some symbol ∧ symbol.fact.spelling = spelling

theorem indexed_empty : Indexed .empty :=
  ⟨fun _ => List.Pairwise.nil, fun _ _ => by simp [positions, empty]⟩

theorem positions_addSymbol (table : SymbolTable) (symbol : Symbol) (spelling : String) :
    (table.addSymbol symbol).positions spelling =
      if spelling = symbol.fact.spelling then
        table.positions spelling ++ [table.symbols.length]
      else table.positions spelling := by
  rw [positions, addSymbol, lookup_alterValue]
  split
  · rename_i same
    rw [Option.getD_some, same, positions]
  · rfl

theorem Indexed.addSymbol (indexed : table.Indexed) (symbol : Symbol) :
    (table.addSymbol symbol).Indexed := by
  have old (spelling position) (member : position ∈ table.positions spelling) :
      position < table.symbols.length := by
    obtain ⟨_, found, _⟩ := (indexed.mem_iff spelling position).mp member
    exact (List.getElem?_eq_some_iff.mp found).1
  constructor
  · intro spelling
    rw [positions_addSymbol]
    split
    · refine List.pairwise_append.mpr ⟨indexed.increasing spelling, List.pairwise_singleton _ _, ?_⟩
      intro position member last isLast
      rw [List.mem_singleton.mp isLast]
      exact old spelling position member
    · exact indexed.increasing spelling
  · intro spelling position
    -- The new callable is at the end, so the others keep their positions.
    have symbols : (table.addSymbol symbol).symbols = table.symbols ++ [symbol] := rfl
    rw [positions_addSymbol, symbols]
    rcases Nat.lt_trichotomy position table.symbols.length with before | rfl | behind
    · rw [List.getElem?_append_left before, ← indexed.mem_iff]
      have notLast : position ≠ table.symbols.length := Nat.ne_of_lt before
      split <;> simp [notLast]
    · have notOld : table.symbols.length ∉ table.positions spelling := fun member =>
        Nat.lt_irrefl _ (old spelling _ member)
      split <;> rename_i same <;> simp [notOld, same, eq_comm]
    · have notOld : position ∉ table.positions spelling := fun member =>
        Nat.lt_asymm behind (old spelling position member)
      have notNew : position ≠ table.symbols.length := Nat.ne_of_gt behind
      have beyond : (table.symbols ++ [symbol])[position]? = none := by
        rw [List.getElem?_eq_none_iff, List.length_append, List.length_singleton]
        exact behind
      split <;> simp [notOld, notNew, beyond]

/-- Only the callables and the notes of them matter. -/
theorem Indexed.congr {other : SymbolTable} (indexed : table.Indexed)
    (symbols : other.symbols = table.symbols) (noted : other.bySpelling = table.bySpelling) :
    other.Indexed := by
  have same : other.positions = table.positions := by
    funext spelling
    rw [positions, positions, noted]
  exact ⟨same ▸ indexed.increasing, same ▸ symbols ▸ indexed.mem_iff⟩

theorem indexed_ofFiles (files : List SourceFile) (unit : Path) :
    (SymbolTable.ofFiles files unit).Indexed := by
  refine ofFiles_induction indexed_empty fun source index _ site _ before after addition indexed =>
    ?_
  obtain ⟨symbols, noted⟩ | ⟨symbol, _, symbols, noted⟩ := addition.entry
  · exact indexed.congr symbols noted
  · exact (indexed.addSymbol symbol).congr symbols noted

/-! ### What is found by its spelling -/

/-- The callable at a position has a spelling and is accepted. -/
def Named (table : SymbolTable) (spelling : String) (accept : Symbol → Bool) (position : Nat) :
    Prop :=
  ∃ symbol, table.symbols[position]? = some symbol ∧ symbol.fact.spelling = spelling ∧
    accept symbol = true

theorem findNamed?_eq_find? (table : SymbolTable) (spelling : String) (accept : Symbol → Bool) :
    table.findNamed? spelling accept =
      (table.positions spelling).find? fun position => table.symbols[position]?.any accept := by
  rw [findNamed?, named, ← positions]
  induction table.positions spelling with
  | nil => rfl
  | cons position rest ih =>
    rw [List.filterMap_cons, List.find?_cons]
    cases table.symbols[position]? with
    | none => simpa using ih
    | some symbol =>
      rw [Option.map_some, Option.any_some]
      dsimp only
      rw [List.find?_cons]
      cases accept symbol with
      | true => rfl
      | false => exact ih

theorem Indexed.named_iff (indexed : table.Indexed) :
    position ∈ table.positions spelling ∧ table.symbols[position]?.any accept = true ↔
      table.Named spelling accept position := by
  rw [indexed.mem_iff, Named]
  cases table.symbols[position]? with
  | none => simp
  | some symbol => simp

/-- What is found is the first callable that fits. -/
theorem findNamed?_eq_some_iff (indexed : table.Indexed) :
    table.findNamed? spelling accept = some position ↔
      IsLeast {other | table.Named spelling accept other} position := by
  rw [findNamed?_eq_find?, find?_eq_some_iff_isLeast (indexed.increasing spelling)]
  simp only [indexed.named_iff]

theorem findNamed?_eq_none_iff (indexed : table.Indexed) :
    table.findNamed? spelling accept = none ↔
      ∀ position, ¬table.Named spelling accept position := by
  rw [findNamed?_eq_find?, List.find?_eq_none]
  simp only [← indexed.named_iff, not_and]

end SymbolTable

end CallGraph.Cpp
