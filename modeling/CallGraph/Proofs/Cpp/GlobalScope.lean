import CallGraph.Proofs.Cpp.Bases
import CallGraph.Proofs.Cpp.Resolution
import CallGraph.Proofs.Cpp.Sites
import Mathlib.Computability.Primrec.List
import Mathlib.Data.List.Permutation

/-!
# Names of the global scope

Main result: `global_name_resolved`. A name with a leading `::` and no other qualifier has an empty
list of qualifiers, as if nothing stood before it. So a call of it is resolved from the scope of the
body outwards, and reaches the global scope only if no class and no namespace around the body offers
what is called: a method that calls a global function of its own name reaches itself
(`global_name_taken_by_method`).

What a scope offers is described without the search (`SymbolTable.Offers`).
-/
namespace CallGraph.Cpp

/-- All scopes around a place but the global one, innermost first. -/
def innerScopes (scope : List String) : List (List String) :=
  (List.range scope.length).reverse.map fun count => scope.take (count + 1)

theorem enclosingScopes_eq (scope : List String) :
    enclosingScopes scope = innerScopes scope ++ [[]] := by
  rw [enclosingScopes, innerScopes, List.range_succ_eq_map, List.reverse_cons, List.map_append,
    ← List.map_reverse, List.map_map]
  rfl

/-- Without qualifiers a qualified name is its last component. -/
theorem splitQualified_global {function name : Node}
    (isQualified : function.kind = "qualified_identifier")
    (unqualified : function.field? "scope" = none) (named : function.field? "name" = some name)
    (isLast : name.kind ≠ "qualified_identifier") : splitQualified function = ([], name) := by
  rw [splitQualified, if_pos isQualified, unqualified]
  split
  · rename_i other found
    obtain rfl := Option.some.inj (named.symm.trans found)
    rw [splitQualified, if_neg isLast]
    rfl
  · rename_i nothing
    rw [named] at nothing
    cases nothing

namespace SymbolTable

variable {table : SymbolTable} {spelling : String} {arguments position : Nat}

/-- What a scope offers to a call: a member of the class that it is, its own or inherited, a
constructor of a class in it, or a callable that it holds itself. -/
inductive Offers (table : SymbolTable) (scope : List String) (spelling : String)
    (arguments position : Nat) : Prop where
  | member {owner : String} (known : table.hasClass (joinScope scope) = true)
    (inherited : table.Inherits (joinScope scope) owner)
    (owned : table.Owns owner spelling arguments position)
  | constructor {className : String} (within : className = joinScope scope ++ "::" ++ spelling)
    (known : table.hasClass className = true)
    (constructed : table.Named (lastComponent className) (fun symbol =>
      symbol.fact.kind == .constructor && symbol.owner? == some className &&
        symbol.accepts arguments) position)
  | own {symbol : Symbol} (found : table.symbols[position]? = some symbol)
    (spelled : symbol.fact.spelling = spelling) (accepts : symbol.accepts arguments = true)
    (shared : symbol.isLocal = false)
    (here : symbol.owner? = some (joinScope scope) ∨
      symbol.owner? = none ∧ symbol.fact.scope = scope)

/-- A callable of the global scope: a function that is in no class, namespace or body. -/
def Global (table : SymbolTable) (spelling : String) (arguments position : Nat) : Prop :=
  ∃ symbol, table.symbols[position]? = some symbol ∧ symbol.fact.spelling = spelling ∧
    symbol.accepts arguments = true ∧ symbol.isLocal = false ∧ symbol.owner? = none ∧
    symbol.fact.scope = []

/-- No class has an empty name, on its own or as the first of its components. -/
structure ClassesNamed (table : SymbolTable) : Prop where
  known : ∀ name, table.hasClass name = true → name ≠ "" ∧ ∀ rest, name ≠ "::" ++ rest
  owner : ∀ symbol ∈ table.symbols, symbol.owner? ≠ some ""

/-- Whether a callable is held by a scope itself and fits a call. -/
def fitsOwn (scope : List String) (arguments : Nat) (symbol : Symbol) : Bool :=
  symbol.accepts arguments && !symbol.isLocal &&
    match symbol.owner? with
    | some owner => owner == joinScope scope
    | none => symbol.fact.scope == scope

theorem named_fitsOwn_iff {scope : List String} :
    table.Named spelling (fitsOwn scope arguments) position ↔
      ∃ symbol, table.symbols[position]? = some symbol ∧ symbol.fact.spelling = spelling ∧
        symbol.accepts arguments = true ∧ symbol.isLocal = false ∧
        (symbol.owner? = some (joinScope scope) ∨
          symbol.owner? = none ∧ symbol.fact.scope = scope) := by
  refine exists_congr fun symbol => and_congr_right fun _ => and_congr_right fun _ => ?_
  rw [fitsOwn, Bool.and_eq_true, Bool.and_eq_true, and_assoc]
  refine and_congr_right fun _ => and_congr (by simp) ?_
  cases symbol.owner? <;> simp

end SymbolTable

namespace View

variable {view : View} {spelling : String} {arguments position : Nat} {scope : List String}

theorem qualifiedIn?_eq (view : View) (spelling : String) (arguments : Nat) (scope : List String) :
    view.qualifiedIn? spelling arguments scope =
      ((if view.table.hasClass (joinScope scope) then
          view.table.member? (joinScope scope) spelling arguments else none).or <|
        (if view.table.hasClass (joinScope scope ++ "::" ++ spelling) then
          view.table.constructor? (joinScope scope ++ "::" ++ spelling) arguments else none).or <|
        view.table.findNamed? spelling (SymbolTable.fitsOwn scope arguments)) := rfl

theorem offers_of_qualifiedIn? (indexed : view.table.Indexed)
    (found : view.qualifiedIn? spelling arguments scope = some position) :
    view.table.Offers scope spelling arguments position := by
  rw [qualifiedIn?_eq] at found
  rcases Option.or_eq_some_iff.mp found with member | ⟨_, rest⟩
  · split at member
    · rename_i known
      obtain ⟨_, owner, _, _, inherited, _, least⟩ :=
        (SymbolTable.member?_eq_some_iff indexed).mp member
      exact .member known inherited least.1
    · cases member
  · rcases Option.or_eq_some_iff.mp rest with constructor | ⟨_, named⟩
    · split at constructor
      · rename_i known
        exact .constructor rfl known ((SymbolTable.findNamed?_eq_some_iff indexed).mp constructor).1
      · cases constructor
    · obtain ⟨symbol, found, spelled, accepts, shared, here⟩ :=
        SymbolTable.named_fitsOwn_iff.mp ((SymbolTable.findNamed?_eq_some_iff indexed).mp named).1
      exact .own found spelled accepts shared here

theorem not_offers_of_qualifiedIn? (indexed : view.table.Indexed)
    (nothing : view.qualifiedIn? spelling arguments scope = none) (position : Nat) :
    ¬view.table.Offers scope spelling arguments position := by
  rw [qualifiedIn?_eq, Option.or_eq_none_iff, Option.or_eq_none_iff] at nothing
  obtain ⟨noMember, noConstructor, noOwn⟩ := nothing
  intro offered
  cases offered with
  | member known inherited owned =>
    rw [if_pos known] at noMember
    exact (SymbolTable.member?_eq_none_iff indexed).mp noMember _ inherited position owned
  | constructor within known constructed =>
    subst within
    rw [if_pos known] at noConstructor
    exact (SymbolTable.findNamed?_eq_none_iff indexed).mp noConstructor position constructed
  | own found spelled accepts shared here =>
    refine (SymbolTable.findNamed?_eq_none_iff indexed).mp noOwn position ?_
    exact SymbolTable.named_fitsOwn_iff.mpr ⟨_, found, spelled, accepts, shared, here⟩

/-- The global scope has no members, and it is no qualifier of a class. -/
theorem qualifiedIn?_global (indexed : view.table.Indexed) (classes : view.table.ClassesNamed) :
    view.qualifiedIn? spelling arguments [] = some position ↔
      IsLeast {position | view.table.Global spelling arguments position} position := by
  have noClass : view.table.hasClass (joinScope []) = false := by
    by_contra known
    exact (classes.known _ (by simpa using known)).1 (by decide)
  have noClassWithin : view.table.hasClass (joinScope [] ++ "::" ++ spelling) = false := by
    by_contra known
    have global : joinScope [] ++ "::" ++ spelling = "::" ++ spelling := by
      rw [show joinScope [] = "" by decide, String.empty_append]
    exact (classes.known _ (by simpa using known)).2 spelling global
  have own (position) : view.table.Named spelling (SymbolTable.fitsOwn [] arguments) position ↔
      view.table.Global spelling arguments position := by
    rw [SymbolTable.named_fitsOwn_iff]
    refine exists_congr fun symbol => and_congr_right fun found => ?_
    have named := classes.owner symbol (List.mem_of_getElem? found)
    have noOwner : symbol.owner? ≠ some (joinScope []) := named
    simp [noOwner]
  rw [qualifiedIn?_eq, noClass, noClassWithin, if_neg Bool.false_ne_true,
    if_neg Bool.false_ne_true, Option.none_or, Option.none_or,
    SymbolTable.findNamed?_eq_some_iff indexed]
  simp only [own]

end View

/-- A call of a name with a leading `::` and no other qualifier. -/
structure CallsGlobalName (call function name : Node) : Prop where
  called : call.field? "function" = some function
  isQualified : function.kind = "qualified_identifier"
  unqualified : function.field? "scope" = none
  named : function.field? "name" = some name
  isLast : name.kind ≠ "qualified_identifier"

theorem CallsGlobalName.callee?_eq {call function name : Node}
    (calls : CallsGlobalName call function name) (view : View) :
    view.callee? call = (enclosingScopes view.body.scope).findSome?
      (view.qualifiedIn? (calleeSpelling name) (argumentCount (call.field? "arguments"))) := by
  rw [View.callee?, calls.called]
  simp only [Option.bind_eq_bind, Option.bind_some, calls.isQualified]
  rw [if_neg (by decide), if_neg (by decide), if_pos trivial, View.qualified?,
    splitQualified_global calls.isQualified calls.unqualified calls.named calls.isLast]
  simp only [List.append_nil]

/-- A call of a name with a leading `::` and no other qualifier is resolved from the scope of the
body outwards. If a class or a namespace around the body offers what is called, then the innermost
that does is where the call leads, and the global scope does not matter. Only if none does, the call
leads to the first global function of the name that admits the arguments, and nowhere if there is
none. -/
theorem global_name_resolved {view : View} (indexed : view.table.Indexed)
    (classes : view.table.ClassesNamed) {call function name : Node}
    (calls : CallsGlobalName call function name) :
    let offered scope position := view.table.Offers scope (calleeSpelling name)
      (argumentCount (call.field? "arguments")) position
    ((∃ scope ∈ innerScopes view.body.scope, ∃ position, offered scope position) →
      ∃ before scope after position, innerScopes view.body.scope = before ++ scope :: after ∧
        (∀ other ∈ before, ∀ position, ¬offered other position) ∧ offered scope position ∧
        view.callee? call = some position) ∧
    ((∀ scope ∈ innerScopes view.body.scope, ∀ position, ¬offered scope position) →
      ∀ position, view.callee? call = some position ↔
        IsLeast {position | view.table.Global (calleeSpelling name)
          (argumentCount (call.field? "arguments")) position} position) := by
  intro offered
  rw [calls.callee?_eq, enclosingScopes_eq, List.findSome?_append]
  cases inner : (innerScopes view.body.scope).findSome? (view.qualifiedIn? (calleeSpelling name)
    (argumentCount (call.field? "arguments"))) with
  | some position =>
    obtain ⟨before, scope, after, split, here, nothing⟩ := List.findSome?_eq_some_iff.mp inner
    have offers := View.offers_of_qualifiedIn? indexed here
    refine ⟨fun _ => ⟨before, scope, after, position, split, fun other member => ?_, offers, rfl⟩,
      fun none => ?_⟩
    · exact View.not_offers_of_qualifiedIn? indexed (nothing other member)
    · exact absurd offers (none scope (split ▸ by simp) position)
  | none =>
    rw [List.findSome?_eq_none_iff] at inner
    refine ⟨?_, fun _ position => ?_⟩
    · rintro ⟨scope, member, position, offers⟩
      exact absurd offers (View.not_offers_of_qualifiedIn? indexed (inner scope member) position)
    · rw [Option.none_or, List.findSome?_singleton]
      exact View.qualifiedIn?_global indexed classes

section Example

private def namedNode (field kind text : String) (children : List SyntaxTree) : SyntaxTree :=
  .node ⟨kind, if field = "" then none else some field, true, false, false, false, text, 0⟩ children

private def globalCall (name : String) : SyntaxTree :=
  namedNode "" "call_expression" ("::" ++ name ++ "()") [
    namedNode "function" "qualified_identifier" ("::" ++ name) [
      namedNode "name" "identifier" name []],
    namedNode "arguments" "argument_list" "()" []]

private def nullary (nameKind name : String) : SyntaxTree :=
  namedNode "declarator" "function_declarator" (name ++ "()") [
    namedNode "declarator" nameKind name [], namedNode "parameters" "parameter_list" "()" []]

private def openDeclaration : SyntaxTree :=
  namedNode "" "declaration" "" [namedNode "type" "primitive_type" "void" [],
    nullary "identifier" "open"]

private def closeBody : SyntaxTree :=
  namedNode "body" "compound_statement" "" [
    namedNode "" "expression_statement" "" [globalCall "open"],
    namedNode "" "expression_statement" "" [globalCall "close"]]

private def closeMethod : SyntaxTree :=
  namedNode "" "function_definition" "" [namedNode "type" "primitive_type" "void" [],
    nullary "field_identifier" "close", closeBody]

private def fileClass : SyntaxTree :=
  namedNode "" "struct_specifier" "" [namedNode "name" "type_identifier" "File" [],
    namedNode "body" "field_declaration_list" "" [closeMethod]]

/-- `void open(); struct File { void close() { ::open(); ::close(); } };`. -/
private def globalCalls : SourceFile :=
  ⟨⟨"/w/m.cpp"⟩, "", namedNode "" "translation_unit" "" [openDeclaration, fileClass], false⟩

private def globalCallsTable : SymbolTable := .ofFiles [globalCalls] ⟨"/w/m.cpp"⟩

private theorem sites_globalCalls : globalCalls.sites =
    [.declaration ⟨openDeclaration, [0]⟩ ⟨[], none⟩, .openClass "File" [],
      .functionDefinition ⟨closeMethod, [0, 1, 1]⟩ ⟨["File"], some "File"⟩] := by
  have top : (Node.ofTree globalCalls.tree).namedChildren =
      [⟨openDeclaration, [0]⟩, ⟨fileClass, [1]⟩] := rfl
  have declared : sites ⟨[], none⟩ ⟨openDeclaration, [0]⟩ =
      [.declaration ⟨openDeclaration, [0]⟩ ⟨[], none⟩] :=
    sites_declaration (.inl rfl) (fun type found => by cases found; rfl) _
  have name : (⟨fileClass, [1]⟩ : Node).field? "name" =
      some ⟨namedNode "name" "type_identifier" "File" [], [0, 1]⟩ := rfl
  have members : bodyMembers ⟨fileClass, [1]⟩ = [⟨closeMethod, [0, 1, 1]⟩] := rfl
  have parts : qualifiedParts ⟨namedNode "name" "type_identifier" "File" [], [0, 1]⟩ =
    ["File"] := by decide +kernel
  have method (context) := @sites_functionDefinition ⟨closeMethod, [0, 1, 1]⟩ rfl context
  have opened : sites ⟨[], none⟩ ⟨fileClass, [1]⟩ = [.openClass "File" [],
      .functionDefinition ⟨closeMethod, [0, 1, 1]⟩ ⟨["File"], some "File"⟩] := by
    rw [sites_eq, if_neg (by decide), if_neg (by decide), if_pos (by decide), name]
    simp only [parts, members, List.flatMap_singleton, method]
    rfl
  rw [SourceFile.sites, sites_eq, if_pos (by decide), top]
  simp [declared, opened]

private def closeScan : Body :=
  ⟨1, ⟨closeBody, [2, 0, 1, 1]⟩, 0, ["File"], some "File", []⟩

private def openFunction : Symbol :=
  .ofFact ⟨.function, [], "open", "open()", "void", false, ⟨"/w/m.cpp"⟩, ⟨"/w/m.cpp"⟩⟩
    none false 0 (some 0)

private def closeFunction : Symbol :=
  .ofFact ⟨.method, ["File"], "close", "close()", "void", true, ⟨"/w/m.cpp"⟩, ⟨"/w/m.cpp"⟩⟩
    (some "File") false 0 (some 0)

private theorem globalCallsTable_eq : globalCallsTable =
    ⟨[openFunction, closeFunction], [("open", [0]), ("close", [1])], [("File", ⟨[], []⟩)], [], [],
      [closeScan], []⟩ := by
  have read : globalCallsTable = globalCalls.sites.foldl
      (addSite ⟨0, ⟨"/w/m.cpp"⟩, ⟨"/w/m.cpp"⟩⟩) .empty := by
    rw [globalCallsTable, SymbolTable.ofFiles, List.zipIdx_singleton, List.foldl_cons, addFile,
      ← SourceFile.sites]
    rfl
  rw [read, sites_globalCalls]
  cbv

private def inClose : View := .ofBody globalCallsTable closeScan

/-- The call in one of the statements of the body. -/
private def callIn (statement : Nat) (name : String) : Node :=
  ⟨globalCall name, [0, statement, 2, 0, 1, 1]⟩

private theorem callsGlobalName (statement : Nat) (name : String) :
    ∃ function last, CallsGlobalName (callIn statement name) function last ∧
      calleeSpelling last = name ∧ argumentCount ((callIn statement name).field? "arguments") = 0 :=
  ⟨_, _, ⟨rfl, rfl, rfl, rfl, (by decide : "identifier" ≠ "qualified_identifier")⟩, rfl, rfl⟩

private theorem callIn_close_mem : callIn 1 "close" ∈ closeScan.ownNodes globalCallsTable := by
  have listed : (closeScan.ownNodes globalCallsTable)[7]? = some (callIn 1 "close") := by
    rw [globalCallsTable_eq]
    cbv
  exact List.mem_of_getElem? listed

private theorem globalCalls_calls : globalCallsTable.calls = [(1, 0), (1, 1)] := by
  rw [globalCallsTable_eq]
  cbv

private theorem classesNamed_globalCalls : globalCallsTable.ClassesNamed := by
  constructor
  · intro name known
    obtain rfl : name = "File" := by
      simpa [SymbolTable.classNames, globalCallsTable_eq] using
        SymbolTable.mem_classNames_of_hasClass known
    refine ⟨by decide, fun rest same => ?_⟩
    have first := congrArg (fun text => text.toList.head?) same
    simp at first
  · intro symbol member
    rw [globalCallsTable_eq] at member
    rcases List.mem_pair.mp member with rfl | rfl <;> decide

/-- `::open()` leads to the global function, and `::close()` to the method that it is in. -/
theorem global_names_in_method : inClose.table.Indexed ∧ inClose.table.ClassesNamed ∧
    inClose.callee? (callIn 0 "open") = some 0 ∧
    ∃ position, inClose.table.Offers ["File"] "close" 0 position ∧
      inClose.callee? (callIn 1 "close") = some position := by
  have indexed : inClose.table.Indexed := SymbolTable.indexed_ofFiles _ _
  have classes : inClose.table.ClassesNamed := classesNamed_globalCalls
  have inner : innerScopes inClose.body.scope = [["File"]] := by decide
  obtain ⟨_, _, callsOpen, openName, noArguments⟩ := callsGlobalName 0 "open"
  obtain ⟨_, _, callsClose, closeName, noArgumentsToo⟩ := callsGlobalName 1 "close"
  obtain ⟨_, onlyGlobal⟩ := global_name_resolved indexed classes callsOpen
  obtain ⟨offers, _⟩ := global_name_resolved indexed classes callsClose
  rw [openName, noArguments] at onlyGlobal
  rw [closeName, noArgumentsToo] at offers
  have notOpen : inClose.qualifiedIn? "open" 0 ["File"] = none := by
    rw [inClose, globalCallsTable_eq]
    cbv
  have close : inClose.qualifiedIn? "close" 0 ["File"] = some 1 := by
    rw [inClose, globalCallsTable_eq]
    cbv
  refine ⟨indexed, classes, (onlyGlobal ?_ 0).mpr ⟨?_, fun _ _ => Nat.zero_le _⟩, ?_⟩
  · simp only [inner, List.mem_singleton, forall_eq]
    exact View.not_offers_of_qualifiedIn? indexed notOpen
  · refine ⟨openFunction, ?_, rfl, by decide, rfl, rfl, rfl⟩
    change globalCallsTable.symbols[0]? = _
    rw [globalCallsTable_eq]
    rfl
  · obtain ⟨before, scope, after, position, split, _, offered, reached⟩ :=
      offers ⟨["File"], by simp [inner], 1, View.offers_of_qualifiedIn? indexed close⟩
    have member : scope ∈ innerScopes inClose.body.scope := split ▸ by simp
    rw [inner, List.mem_singleton] at member
    exact ⟨position, member ▸ offered, reached⟩

/-- A method of a class calls a global function, but the call leads to the method itself. -/
theorem global_name_taken_by_method :
    (∃ function name, CallsGlobalName (callIn 1 "close") function name) ∧
      closeScan ∈ globalCallsTable.bodies ∧ callIn 1 "close" ∈ closeScan.ownNodes globalCallsTable ∧
      (globalCallsTable.symbols.map Symbol.owner?)[closeScan.symbol]? = some (some "File") ∧
      inClose.callee? (callIn 1 "close") = some closeScan.symbol ∧
      (closeScan.symbol, closeScan.symbol) ∈ globalCallsTable.calls := by
  obtain ⟨function, name, calls, _⟩ := callsGlobalName 1 "close"
  refine ⟨⟨function, name, calls⟩, ?_, callIn_close_mem, ?_, ?_, ?_⟩
  · simp [globalCallsTable_eq]
  · rw [globalCallsTable_eq]
    rfl
  · rw [inClose, globalCallsTable_eq]
    cbv
  · rw [globalCalls_calls]
    decide

end Example

end CallGraph.Cpp
