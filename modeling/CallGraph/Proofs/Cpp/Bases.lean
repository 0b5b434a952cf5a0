import CallGraph.Proofs.Cpp.Spellings
import CallGraph.Proofs.Traversal.DepthFirst
import Mathlib.Data.List.Perm.Subperm

/-!
# Members and fields through bases

Main result: `lookup_through_bases`. However the bases of classes are written, the search for a
member or a field of a class comes to an end; it comes to the class and to all classes above it, to
each of them once and in depth-first order, and finds what the first of them has.

The classes form a graph by what their bases are resolved to, and the search goes through it depth
first (`lineage_eq`), so cyclic, repeated and unknown bases need no attention of their own.
-/
namespace CallGraph.Cpp.SymbolTable

variable {table : SymbolTable} {className name owner : String}

theorem hasClass_of_resolveClass? {type : TypeName}
    (resolved : table.resolveClass? type = some name) : table.hasClass name = true := by
  obtain ⟨written, _, found⟩ := List.exists_of_findSome?_eq_some resolved
  exact List.find?_some found

/-- The classes with their bases, as far as those are classes of the table. -/
def inheritance (table : SymbolTable) : OrderedGraph String where
  next := table.bases
  pool := table.classNames
  next_mem className base member := by
    unfold bases at member
    split at member
    · obtain ⟨type, _, resolved⟩ := List.mem_filterMap.mp member
      exact mem_classNames_of_hasClass (hasClass_of_resolveClass? resolved)
    · cases member

/-- One class is another, or one of its bases inherits it. -/
def Inherits (table : SymbolTable) : String → String → Prop :=
  Relation.ReflTransGen fun className base => base ∈ table.bases className

/-- A class and those above it, each where a walk up through the bases comes to it first. -/
def depthFirst (table : SymbolTable) (className : String) : List String :=
  (table.inheritance.walk [] className).eraseDups

theorem lineageFrom_eq_remaining {visited : List String} {agenda : List (List String × String)}
    (covers : table.inheritance.Covers visited agenda) :
    table.lineageFrom visited (agenda.map Prod.snd) =
      table.inheritance.remaining visited agenda := by
  generalize names : agenda.map Prod.snd = onAgenda
  induction visited, onAgenda using lineageFrom.induct table generalizing agenda with
  | case1 visited =>
    rw [List.map_eq_nil_iff.mp names, lineageFrom, OrderedGraph.remaining_nil]
  | case2 visited name rest old ih =>
    obtain ⟨⟨above, _⟩, later, rfl, rfl, rfl⟩ := List.map_eq_cons_iff.mp names
    obtain ⟨coversLater, same⟩ := OrderedGraph.remaining_skip covers old
    rw [lineageFrom, if_pos old, same, ih coversLater rfl]
  | case3 visited name rest new ih =>
    obtain ⟨⟨above, _⟩, later, rfl, rfl, rfl⟩ := List.map_eq_cons_iff.mp names
    obtain ⟨coversNext, same⟩ := OrderedGraph.remaining_visit covers new
    rw [lineageFrom, if_neg new, same, ih coversNext]
    rw [List.map_append, OrderedGraph.below, List.map_map]
    exact congrArg (· ++ _) (List.map_id _)

/-- The search through bases goes depth first. -/
theorem lineage_eq (table : SymbolTable) (className : String) :
    table.lineage className = table.depthFirst className := by
  obtain ⟨covers, all⟩ := table.inheritance.remaining_start className
  rw [lineage, depthFirst, ← all, ← lineageFrom_eq_remaining covers]
  rfl

theorem mem_depthFirst_iff :
    owner ∈ table.depthFirst className ↔ table.Inherits className owner := by
  rw [depthFirst, List.mem_eraseDups, OrderedGraph.mem_walk_nil_iff]
  rfl

theorem head?_depthFirst (table : SymbolTable) (className : String) :
    (table.depthFirst className).head? = some className := by
  rw [depthFirst, OrderedGraph.walk_of_notMem List.not_mem_nil, List.eraseDups_cons]
  rfl

/-- Besides the class itself, only classes of the table are above it. -/
theorem length_depthFirst_le (table : SymbolTable) (className : String) :
    (table.depthFirst className).length ≤ table.classNames.length + 1 := by
  have within : ∀ owner ∈ table.depthFirst className, owner ∈ className :: table.classNames := by
    intro owner member
    rcases (mem_depthFirst_iff.mp member).cases_tail with rfl | ⟨below, _, base⟩
    · exact List.mem_cons_self
    · exact List.mem_cons_of_mem _ (table.inheritance.next_mem below owner base)
  exact ((nodup_eraseDups _).subperm within).length_le

/-! ### What a class owns -/

/-- The callable at a position is a member of a class, has a name and admits so many arguments. -/
def Owns (table : SymbolTable) (owner name : String) (arguments position : Nat) : Prop :=
  ∃ symbol, table.symbols[position]? = some symbol ∧ symbol.fact.spelling = name ∧
    symbol.owner? = some owner ∧ symbol.accepts arguments = true

/-- A class declares a field of a type. -/
def HasField (table : SymbolTable) (owner name : String) (type : TypeName) : Prop :=
  ∃ info, table.class? owner = some info ∧ info.fields.lookup name = some type

theorem named_member_iff {arguments position : Nat} :
    table.Named name (fun symbol => symbol.owner? == some owner && symbol.accepts arguments)
      position ↔ table.Owns owner name arguments position := by
  simp [Named, Owns]

theorem field_eq_some_iff {type : TypeName} :
    ((table.class? owner).bind fun info => info.fields.lookup name) = some type ↔
      table.HasField owner name type :=
  Option.bind_eq_some_iff

/-- A search through bases finds what the first class that has anything has. -/
theorem findSome?_lineage_iff {α : Type} {find? : String → Option α} {found : α} :
    (table.lineage className).findSome? find? = some found ↔
      ∃ before owner after, table.depthFirst className = before ++ owner :: after ∧
        table.Inherits className owner ∧ (∀ other ∈ before, find? other = none) ∧
        find? owner = some found := by
  rw [lineage_eq, List.findSome?_eq_some_iff]
  constructor
  · rintro ⟨before, owner, after, split, here, none⟩
    have inherits : table.Inherits className owner := by
      rw [← mem_depthFirst_iff, split]
      simp
    exact ⟨before, owner, after, split, inherits, none, here⟩
  · rintro ⟨before, owner, after, split, _, none, here⟩
    exact ⟨before, owner, after, split, here, none⟩

theorem findSome?_lineage_eq_none_iff {α : Type} {find? : String → Option α} :
    (table.lineage className).findSome? find? = none ↔
      ∀ owner, table.Inherits className owner → find? owner = none := by
  rw [lineage_eq, List.findSome?_eq_none_iff]
  simp only [mem_depthFirst_iff]

/-- What a class has itself goes before anything that it inherits. -/
theorem findSome?_lineage_of_own {α : Type} {find? : String → Option α} {found : α}
    (own : find? className = some found) :
    (table.lineage className).findSome? find? = some found := by
  obtain ⟨rest, order⟩ := List.head?_eq_some_iff.mp (table.head?_depthFirst className)
  rw [lineage_eq, order, List.findSome?_cons, own]

section Member

variable (indexed : table.Indexed) {arguments position : Nat}
include indexed

theorem findMember_eq_some_iff :
    (table.findNamed? name fun symbol =>
        symbol.owner? == some owner && symbol.accepts arguments) = some position ↔
      IsLeast {position | table.Owns owner name arguments position} position := by
  rw [findNamed?_eq_some_iff indexed]
  simp only [named_member_iff]

theorem findMember_eq_none_iff :
    (table.findNamed? name fun symbol =>
        symbol.owner? == some owner && symbol.accepts arguments) = none ↔
      ∀ position, ¬table.Owns owner name arguments position := by
  rw [findNamed?_eq_none_iff indexed]
  simp only [named_member_iff]

theorem member?_eq_some_iff :
    table.member? className name arguments = some position ↔
      ∃ before owner after, table.depthFirst className = before ++ owner :: after ∧
        table.Inherits className owner ∧
        (∀ other ∈ before, ∀ position, ¬table.Owns other name arguments position) ∧
        IsLeast {position | table.Owns owner name arguments position} position := by
  rw [member?, findSome?_lineage_iff]
  simp only [findMember_eq_some_iff indexed, findMember_eq_none_iff indexed]

theorem member?_eq_none_iff :
    table.member? className name arguments = none ↔ ∀ owner, table.Inherits className owner →
      ∀ position, ¬table.Owns owner name arguments position := by
  rw [member?, findSome?_lineage_eq_none_iff]
  simp only [findMember_eq_none_iff indexed]

end Member

/-- The search for a member or a field of a class comes to the classes that it inherits in
depth-first order, to each of them once. A member that it finds has the name, admits the arguments,
and is the first of those that a class owns; the class is the first that owns any. Nothing is found
exactly if none of the classes owns any, and what the class itself owns is preferred. The same holds
of fields. -/
theorem lookup_through_bases {table : SymbolTable} (indexed : table.Indexed)
    (className name : String) :
    let order := table.depthFirst className
    (order.Nodup ∧ order.length ≤ table.classNames.length + 1 ∧ order.head? = some className ∧
      ∀ owner, owner ∈ order ↔ table.Inherits className owner) ∧
    (∀ arguments,
      (∀ position, table.member? className name arguments = some position ↔
        ∃ before owner after, order = before ++ owner :: after ∧
          table.Inherits className owner ∧
          (∀ other ∈ before, ∀ position, ¬table.Owns other name arguments position) ∧
          IsLeast {position | table.Owns owner name arguments position} position) ∧
      (table.member? className name arguments = none ↔ ∀ owner, table.Inherits className owner →
        ∀ position, ¬table.Owns owner name arguments position) ∧
      ∀ position, IsLeast {position | table.Owns className name arguments position} position →
        table.member? className name arguments = some position) ∧
    (∀ type, table.fieldType? className name = some type ↔
      ∃ before owner after, order = before ++ owner :: after ∧
        table.Inherits className owner ∧
        (∀ other ∈ before, ∀ type, ¬table.HasField other name type) ∧
        table.HasField owner name type) ∧
    (table.fieldType? className name = none ↔
      ∀ owner, table.Inherits className owner → ∀ type, ¬table.HasField owner name type) ∧
    ∀ type, table.HasField className name type → table.fieldType? className name = some type := by
  intro order
  refine ⟨⟨nodup_eraseDups _, table.length_depthFirst_le className,
    table.head?_depthFirst className, fun owner => mem_depthFirst_iff⟩, ?_, ?_, ?_, ?_⟩
  · exact fun arguments => ⟨fun position => member?_eq_some_iff indexed,
      member?_eq_none_iff indexed,
      fun position own => findSome?_lineage_of_own ((findMember_eq_some_iff indexed).mpr own)⟩
  · intro type
    simp only [fieldType?, findSome?_lineage_iff, Option.eq_none_iff_forall_not_mem,
      Option.mem_def, field_eq_some_iff]
    rfl
  · rw [fieldType?, findSome?_lineage_eq_none_iff]
    simp only [Option.eq_none_iff_forall_not_mem, Option.mem_def, field_eq_some_iff]
  · exact fun type own => findSome?_lineage_of_own (field_eq_some_iff.mpr own)

section Example

private def memberOf (owner : String) (arguments : Nat) : Symbol :=
  .ofFact ⟨.method, [owner], "f", "f()", "void", true, ⟨"/w/a.cpp"⟩, ⟨"/w/a.cpp"⟩⟩ (some owner)
    false arguments (some arguments)

private def baseNames (names : List String) : List TypeName := names.map (.ofName [])

/-- `Icon` inherits `Shape` on two ways, and each of the classes on the first way inherits a class
that inherits it. `Circle` and `Shape` have an `f` without arguments, and `Icon` has one with an
argument. -/
private def tangledClasses : SymbolTable where
  symbols := [memberOf "Circle" 0, memberOf "Shape" 0, memberOf "Icon" 1]
  bySpelling := [("f", [0, 1, 2])]
  classes := [("Icon", ⟨baseNames ["Square", "Missing", "Circle", "Icon"], []⟩),
    ("Square", ⟨baseNames ["Shape", "Icon"], []⟩),
    ("Circle", ⟨baseNames ["Shape"], [("area", .ofName [] "int")]⟩),
    ("Shape", ⟨baseNames ["Square"], [("area", .ofName [] "long")]⟩)]
  namespaces := []
  globals := []
  bodies := []
  namedLambdas := []

private theorem tangledClasses_indexed : tangledClasses.Indexed :=
  (((indexed_empty.addSymbol (memberOf "Circle" 0)).addSymbol (memberOf "Shape" 0)).addSymbol
    (memberOf "Icon" 1)).congr rfl rfl

private theorem tangledClasses_order :
    tangledClasses.depthFirst "Icon" = ["Icon", "Square", "Shape", "Circle"] := by
  have icon : tangledClasses.bases "Icon" = ["Square", "Circle", "Icon"] := by decide +kernel
  have square : tangledClasses.bases "Square" = ["Shape", "Icon"] := by decide +kernel
  have circle : tangledClasses.bases "Circle" = ["Shape"] := by decide +kernel
  have shape : tangledClasses.bases "Shape" = ["Square"] := by decide +kernel
  simp [← lineage_eq, lineage, lineageFrom, icon, square, circle, shape]

private theorem tangledClasses_owns {owner : String} {arguments position : Nat} :
    tangledClasses.Owns owner "f" arguments position ↔
      (position, owner, arguments) ∈ [(0, "Circle", 0), (1, "Shape", 0), (2, "Icon", 1)] := by
  have exactly (count : Nat) : (count ≤ arguments ∧ arguments ≤ count) ↔ arguments = count := by
    omega
  match position with
  | 0 | 1 | 2 =>
    simp [Owns, tangledClasses, memberOf, Symbol.ofFact, Symbol.accepts, exactly,
      @eq_comm String _ owner]
  | position + 3 => simp [Owns, tangledClasses]

/-- `Shape` is found before `Circle`, which is nearer, but comes later in the list of bases. -/
theorem lookup_through_tangled_bases :
    tangledClasses.Indexed ∧
      tangledClasses.depthFirst "Icon" = ["Icon", "Square", "Shape", "Circle"] ∧
      tangledClasses.member? "Icon" "f" 0 = some 1 ∧
      tangledClasses.member? "Icon" "f" 1 = some 2 ∧
      tangledClasses.member? "Square" "f" 2 = none ∧
      tangledClasses.fieldType? "Icon" "area" = some (.ofName [] "long") := by
  obtain ⟨_, members, _⟩ := lookup_through_bases tangledClasses_indexed "Icon" "f"
  obtain ⟨_, others, _⟩ := lookup_through_bases tangledClasses_indexed "Square" "f"
  obtain ⟨_, _, fields, _⟩ := lookup_through_bases tangledClasses_indexed "Icon" "area"
  have order := tangledClasses_order
  have inherits : tangledClasses.Inherits "Icon" "Shape" := by
    rw [← mem_depthFirst_iff, order]
    decide
  refine ⟨tangledClasses_indexed, order, ?_, ?_, ?_, ?_⟩
  · refine ((members 0).1 1).mpr
      ⟨["Icon", "Square"], "Shape", ["Circle"], order, inherits, ?_, ?_⟩
    · simp [tangledClasses_owns]
    · simp [tangledClasses_owns]
  · refine (members 1).2.2 2 ?_
    simp [tangledClasses_owns]
  · refine (others 2).2.1.mpr fun owner _ => ?_
    simp [tangledClasses_owns]
  · refine (fields _).mpr
      ⟨["Icon", "Square"], "Shape", ["Circle"], order, inherits, ?_, ⟨_, rfl, rfl⟩⟩
    rintro other member type ⟨info, found, declared⟩
    rcases List.mem_pair.mp member with rfl | rfl
    · cases found
      cases declared
    · cases found
      cases declared

end Example

end CallGraph.Cpp.SymbolTable
