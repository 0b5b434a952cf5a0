import CallGraph.Proofs.Cpp.Surroundings

/-!
# Names in a context and qualified names

Main result: `identity_independent_of_split`. Two declarators of functions with the same path, name
and parameters are reported as the same callable, of the same class and kind, whatever part of the
path is the context that the declarator lies in and whatever part is written before its name. The
class or namespace of the path must have been met before, and not be both.

A function without qualifiers takes its class from its context, one with qualifiers from the classes
and namespaces that the table knows. Both agree (`Meeting.owner_eq`) because a context that is a
class was opened before it was entered, and because the table knows what was opened.
-/
namespace CallGraph.Cpp

/-! ### What is reported of a declared function -/

/-- The qualifiers that are written before the name of a function. -/
def FunctionShape.qualifiers (shape : FunctionShape) : List String := (splitQualified shape.name).1

/-- The name of a function without its qualifiers, and its form. -/
def FunctionShape.final (shape : FunctionShape) : String × NameForm :=
  declaredSpelling (splitQualified shape.name).2

def FunctionShape.parameters (shape : FunctionShape) : Parameters :=
  .ofNode? shape.parameters?

/-- The entry is that of a function of this shape, declared in a context. -/
structure Symbol.Describes (symbol : Symbol) (context : Context) (table : SymbolTable)
    (shape : FunctionShape) : Prop where
  id_eq : symbol.id = symbol.fact.id
  scope_eq : symbol.fact.scope = context.scope ++ shape.qualifiers
  owner_eq : symbol.owner? = ownerOf? table context shape.qualifiers
  kind_eq : symbol.fact.kind = functionKind shape.final.2 symbol.owner? shape.final.1
  display_eq : symbol.fact.displayName =
    shape.final.1 ++ "(" ++ String.intercalate ", " shape.parameters.display ++ ")"

section Entry

variable {file : FileRef} {site : Site} {table after : SymbolTable}

theorem addNamedLambda_keeps (file : FileRef) (scope : BodyScope) (isLocal : Bool)
    (table : SymbolTable) (lambda : NamedLambda) :
    table.symbols <+: (addNamedLambda file scope isLocal table lambda).symbols := by
  unfold addNamedLambda
  dsimp only
  split
  · exact List.prefix_append _ _
  · exact List.prefix_append _ _

/-- Nothing that is read takes a callable away or moves it. -/
theorem Declares.symbols_kept (addition : Declares file site table after) :
    table.symbols <+: after.symbols := by
  cases addition with
  | surroundings => exact List.prefix_rfl
  | callable => exact List.prefix_append _ _
  | function => exact List.prefix_append _ _
  | lambda => exact addNamedLambda_keeps _ _ _ _ _

theorem Declared.symbols_kept (additions : Declared file site table after) :
    table.symbols <+: after.symbols := by
  induction additions with
  | refl => exact List.prefix_rfl
  | tail _ addition ih => exact ih.trans addition.symbols_kept

theorem addDeclarators_keeps (file : FileRef) (context : Context) {node : Node}
    {declarators : List Node} (ofNode : declarators ⊆ node.fieldChildren "declarator")
    (table : SymbolTable) :
    table.symbols <+: (declarators.foldl (addDeclarator file context node) table).symbols :=
  (declared_foldl (fun _ member table =>
    declared_addDeclarator file context table (ofNode member)) table).symbols_kept

theorem foldl_keeps_symbols {α : Type} {add : SymbolTable → α → SymbolTable}
    (step : ∀ table item, table.symbols <+: (add table item).symbols) (items : List α)
    (table : SymbolTable) : table.symbols <+: (items.foldl add table).symbols := by
  induction items generalizing table with
  | nil => exact List.prefix_rfl
  | cons item rest ih => exact (step table item).trans (ih _)

/-- What a place adds is still in the table of the unit. -/
theorem addSite_kept {files : List SourceFile} {unit : Path}
    {before after : List (FileRef × Site)}
    (met : walk files unit = before ++ (file, site) :: after) :
    (addSite file (.read before) site).symbols <+: (SymbolTable.ofFiles files unit).symbols := by
  rw [SymbolTable.ofFiles_eq_read, met]
  simp only [SymbolTable.read, List.foldl_append, List.foldl_cons]
  exact foldl_keeps_symbols (fun table place =>
    (declared_addSite place.1 place.2 table).symbols_kept) after _

/-- A function with a name is listed where the table ended before. -/
theorem addFunction_describes (file : FileRef) (context : Context) (table : SymbolTable)
    (declaration : Node) {shape : FunctionShape} (isDefinition : Bool) (body? : Option Node)
    (named : shape.final.1 ≠ "") :
    ∃ symbol : Symbol, symbol.Describes context table shape ∧ table.symbols ++ [symbol] <+:
      (addFunction file context table declaration shape isDefinition body?).symbols := by
  have spelled : ¬ (declaredSpelling (splitQualified shape.name).2).1 = "" := named
  unfold addFunction
  dsimp only
  rw [if_neg spelled]
  split
  · refine ⟨_, ?_, List.prefix_rfl⟩
    exact ⟨rfl, rfl, rfl, rfl, rfl⟩
  · -- The lambdas of the body follow after the function.
    refine ⟨_, ?_, foldl_keeps_symbols (addNamedLambda_keeps file _ true) _
      ((table.addSymbol _).addBody _)⟩
    exact ⟨rfl, rfl, rfl, rfl, rfl⟩

end Entry

/-! ### Declarators that the walk meets -/

/-- A declarator of a function with a name, met by the walk over a unit after the places `earlier`:
that of a function definition, or one of those of another declaration. The table of the unit lists
the function as `symbol`. -/
inductive Meets (files : List SourceFile) (unit : Path) :
    List Site → Context → FunctionShape → Symbol → Prop where
  | definition {before after : List (FileRef × Site)} {file : FileRef} {node : Node}
    {context : Context} {shape : FunctionShape} {symbol : Symbol}
    (met : walk files unit = before ++ (file, .functionDefinition node context) :: after)
    (declares : (node.field? "declarator").bind functionShape? = some shape)
    (named : shape.final.1 ≠ "")
    (listed : (SymbolTable.ofFiles files unit).symbols[(SymbolTable.read before).symbols.length]? =
      some symbol) :
    Meets files unit (before.map Prod.snd) context shape symbol
  | declarator {before after : List (FileRef × Site)} {file : FileRef} {node declarator : Node}
    {context : Context} {first rest : List Node} {shape : FunctionShape} {symbol : Symbol}
    (met : walk files unit = before ++ (file, .declaration node context) :: after)
    (split : node.fieldChildren "declarator" = first ++ declarator :: rest)
    (declares : functionShape? declarator = some shape) (named : shape.final.1 ≠ "")
    (listed : (SymbolTable.ofFiles files unit).symbols[(first.foldl
      (addDeclarator file context node) (SymbolTable.read before)).symbols.length]? = some symbol) :
    Meets files unit (before.map Prod.snd) context shape symbol

theorem getElem?_of_prefix_snoc {α : Type} {before list : List α} {item : α}
    (starts : before ++ [item] <+: list) : list[before.length]? = some item := by
  obtain ⟨rest, rfl⟩ := starts
  simp

theorem Meets.described {files : List SourceFile} {unit : Path} {earlier : List Site}
    {context : Context} {shape : FunctionShape} {symbol : Symbol}
    (meets : Meets files unit earlier context shape symbol) :
    ∃ table, Surroundings earlier table ∧ context.Opened earlier ∧
      symbol.Describes context table shape := by
  have inOpened := inOpened_walk files unit
  cases meets with
  | @definition before after file node _ _ _ met declares named listed =>
    rw [met, List.map_append] at inOpened
    obtain ⟨first, opened, _⟩ := InOpened.append_iff.mp inOpened
    refine ⟨.read before, surroundings_read first, opened context rfl, ?_⟩
    -- What is listed at this position when the function is read stays there.
    obtain ⟨other, described, starts⟩ := addFunction_describes file context (.read before) node
      ((node.field? "body").isSome || node.children.any (·.kind == "default_method_clause"))
      (node.field? "body") named
    have read : (SymbolTable.read before).symbols ++ [other] <+:
        (SymbolTable.ofFiles files unit).symbols := by
      refine .trans ?_ (addSite_kept met)
      simpa only [addSite, addFunctionDefinition, declares] using starts
    obtain rfl := Option.some.inj ((getElem?_of_prefix_snoc read).symm.trans listed)
    exact described
  | @declarator before after file node declarator _ first rest _ _ met split declares named
      listed =>
    rw [met, List.map_append] at inOpened
    obtain ⟨inOrder, opened, _⟩ := InOpened.append_iff.mp inOpened
    -- The declarators before it in the declaration may add fields, but they open nothing.
    have known := (surroundings_read inOrder).addDeclarators file (opened context rfl) node first
    refine ⟨_, known, opened context rfl, ?_⟩
    generalize table_eq : first.foldl (addDeclarator file context node) (.read before) = table
      at listed
    obtain ⟨other, described, starts⟩ := addFunction_describes file context table node false none
      named
    have read : table.symbols ++ [other] <+: (SymbolTable.ofFiles files unit).symbols := by
      refine .trans ?_ (addSite_kept met)
      have whole : addSite file (.read before) (.declaration node context) =
          rest.foldl (addDeclarator file context node)
            (addFunction file context table node shape false none) := by
        rw [addSite, split, List.foldl_append, table_eq, List.foldl_cons, addDeclarator, declares]
      have ofNode : rest ⊆ node.fieldChildren "declarator" := by simp [split]
      exact whole ▸ starts.trans (addDeclarators_keeps file context ofNode _)
    obtain rfl := Option.some.inj ((getElem?_of_prefix_snoc read).symm.trans listed)
    exact described

/-- A declarator of a function that a walk meets. -/
structure Meeting where
  files : List SourceFile
  unit : Path
  /-- The places that were met before. -/
  earlier : List Site
  context : Context
  shape : FunctionShape
  symbol : Symbol
  meets : Meets files unit earlier context shape symbol

namespace Meeting

/-- The scope path of the function: that of its context, and then what is written before its
name. -/
def path (meeting : Meeting) : List String := meeting.context.scope ++ meeting.shape.qualifiers

/-- The context is that of a class, or of the namespaces that its scope names. -/
def InNamespaceOrClass (meeting : Meeting) : Prop :=
  meeting.context.class? = none → meeting.context.scope = [] ∨
    OpensNamespace meeting.earlier (joinScope meeting.context.scope)

/-- The class or the namespace of the path was met before; there is always the global one. -/
def Known (meeting : Meeting) : Prop :=
  meeting.path = [] ∨ OpensClass meeting.earlier (joinScope meeting.path) ∨
    OpensNamespace meeting.earlier (joinScope meeting.path)

variable {meeting : Meeting}

/-- A function whose path names a class belongs to it. -/
theorem owner_of_class (place : meeting.InNamespaceOrClass) (inside : meeting.path ≠ [])
    (isClass : OpensClass meeting.earlier (joinScope meeting.path))
    (noNamespace : ¬ OpensNamespace meeting.earlier (joinScope meeting.path)) :
    meeting.symbol.owner? = some (joinScope meeting.path) := by
  obtain ⟨table, surroundings, opened, described⟩ := meeting.meets.described
  rw [described.owner_eq, ownerOf?]
  split
  · rename_i unqualified
    have whole : meeting.context.scope = meeting.path := by simp [path, unqualified]
    cases found : meeting.context.class? with
    | none =>
      rcases place found with global | isNamespace
      · exact absurd (whole ▸ global) inside
      · exact absurd (whole ▸ isNamespace) noNamespace
    | some name =>
      obtain ⟨_, same, _⟩ := opened name found
      rw [same, whole]
  · have known : table.hasClass (joinScope meeting.path) = true :=
      (surroundings.class_iff _).mpr isClass
    exact if_pos (by rw [← path, known, Bool.true_or])

/-- A function whose path names a namespace, or nothing, belongs to no class. -/
theorem owner_of_namespace (known : meeting.Known)
    (noClass : meeting.path = [] ∨ ¬ OpensClass meeting.earlier (joinScope meeting.path)) :
    meeting.symbol.owner? = none := by
  obtain ⟨table, surroundings, opened, described⟩ := meeting.meets.described
  rw [described.owner_eq, ownerOf?]
  split
  · rename_i unqualified
    have whole : meeting.context.scope = meeting.path := by simp [path, unqualified]
    -- A context that is a class was opened, and its path is not empty.
    by_contra isClass
    obtain ⟨name, found⟩ := Option.ne_none_iff_exists'.mp isClass
    obtain ⟨inside, same, opens⟩ := opened name found
    rw [whole] at inside same
    exact noClass.elim inside fun unopened => unopened (same ▸ opens)
  · rename_i qualified
    have inside : meeting.path ≠ [] := List.append_ne_nil_of_right_ne_nil _ qualified
    have unopened := noClass.resolve_left inside
    have isNamespace := (known.resolve_left inside).resolve_left unopened
    have noEntry : table.hasClass (joinScope meeting.path) = false := by
      rw [Bool.eq_false_iff]
      exact fun entry => unopened ((surroundings.class_iff _).mp entry)
    have listed : joinScope meeting.path ∈ table.namespaces :=
      (surroundings.namespace_iff _).mpr isNamespace
    exact if_neg (by rw [← path, noEntry, Bool.false_or]; simp [listed])

end Meeting

/-- Two callables are the same one, of the same class and kind, and stand for it in a diagram in the
same way, whichever unit each of them is observed in. -/
structure Symbol.SameIdentity (one other : Symbol) : Prop where
  scope_eq : one.fact.scope = other.fact.scope
  id_eq : one.id = other.id
  owner_eq : one.owner? = other.owner?
  kind_eq : one.fact.kind = other.fact.kind
  participant_eq : ∀ (root : DisplayRoot) (unit : Path),
    ({ one.fact with translationUnit := unit }.toCallable root).participant =
      ({ other.fact with translationUnit := unit }.toCallable root).participant

/-- The identity of a function does not depend on how its path is divided between the context of the
declarator and the qualifiers of its name. Where the path names a class or a namespace that was met
before, and not both, declarators with the same path, name and parameters are the same callable. -/
theorem identity_independent_of_split {one other : Meeting} (path : one.path = other.path)
    (name : one.shape.final = other.shape.final)
    (parameters : one.shape.parameters.display = other.shape.parameters.display)
    (place : one.InNamespaceOrClass) (place' : other.InNamespaceOrClass)
    (known : one.Known) (known' : other.Known)
    (apart : ¬ (OpensClass (one.earlier ++ other.earlier) (joinScope one.path) ∧
      OpensNamespace (one.earlier ++ other.earlier) (joinScope one.path))) :
    one.symbol.SameIdentity other.symbol := by
  obtain ⟨_, _, _, described⟩ := one.meets.described
  obtain ⟨_, _, _, described'⟩ := other.meets.described
  have scopes : one.symbol.fact.scope = other.symbol.fact.scope :=
    described.scope_eq.trans (path.trans described'.scope_eq.symm)
  have displays : one.symbol.fact.displayName = other.symbol.fact.displayName := by
    rw [described.display_eq, described'.display_eq, name, parameters]
  have owners : one.symbol.owner? = other.symbol.owner? := by
    have left : one.earlier ⊆ one.earlier ++ other.earlier := List.subset_append_left _ _
    have right : other.earlier ⊆ one.earlier ++ other.earlier := List.subset_append_right _ _
    -- Each walk has met the class or the namespace itself. That the path does not name both is
    -- asked of the two walks together, so they have met the same one of them.
    by_cases global : one.path = []
    · rw [Meeting.owner_of_namespace known (.inl global),
        Meeting.owner_of_namespace known' (.inl (path ▸ global))]
    · have global' : other.path ≠ [] := path ▸ global
      by_cases isClass : OpensClass (one.earlier ++ other.earlier) (joinScope one.path)
      · have noNamespace : ¬ OpensNamespace (one.earlier ++ other.earlier) (joinScope one.path) :=
          fun isNamespace => apart ⟨isClass, isNamespace⟩
        have unopened : ¬ OpensNamespace one.earlier (joinScope one.path) :=
          fun isNamespace => noNamespace (isNamespace.mono left)
        have unopened' : ¬ OpensNamespace other.earlier (joinScope other.path) :=
          fun isNamespace => noNamespace (path ▸ isNamespace.mono right)
        rw [Meeting.owner_of_class place global
            ((known.resolve_left global).resolve_right unopened) unopened,
          Meeting.owner_of_class place' global'
            ((known'.resolve_left global').resolve_right unopened') unopened', path]
      · rw [Meeting.owner_of_namespace known (.inr fun opens => isClass (opens.mono left)),
          Meeting.owner_of_namespace known'
            (.inr fun opens => isClass (path ▸ opens.mono right))]
  have kinds : one.symbol.fact.kind = other.symbol.fact.kind := by
    rw [described.kind_eq, described'.kind_eq, name, owners]
  have scopedNames : one.symbol.fact.scopedName = other.symbol.fact.scopedName := by
    rw [SymbolFact.scopedName, SymbolFact.scopedName, scopes, displays]
  constructor
  · exact scopes
  · rw [described.id_eq, described'.id_eq, SymbolFact.id, SymbolFact.id, scopedNames]
  · exact owners
  · exact kinds
  · intro root unit
    simp only [SymbolFact.toCallable, SymbolFact.participant, scopes, kinds]

section Example

open SyntaxTree (under)

/-- The tree of a list of one parameter of type `int`. -/
private def parameterList (name : String) : SyntaxTree :=
  under "parameters" "parameter_list" "" [
    under "" "parameter_declaration" "" [under "type" "primitive_type" "int" [],
      under "declarator" "identifier" name []]]

private def takesInt (name : SyntaxTree) (parameter : String) : SyntaxTree :=
  under "declarator" "function_declarator" "" [name, parameterList parameter]

private def plainName : SyntaxTree := under "declarator" "field_identifier" "f" []

private def qualifiedName : SyntaxTree :=
  under "declarator" "qualified_identifier" "" [under "scope" "namespace_identifier" "N" [],
    under "name" "qualified_identifier" "" [under "scope" "namespace_identifier" "A" [],
      under "name" "identifier" "f" []]]

private def methodDeclaration : SyntaxTree :=
  under "" "field_declaration" "" [takesInt plainName "a"]

private def methodDefinition : SyntaxTree :=
  under "" "function_definition" "" [takesInt qualifiedName "b",
    under "body" "compound_statement" "" []]

private def methodClass : SyntaxTree :=
  under "" "struct_specifier" "" [under "name" "type_identifier" "A" [],
    under "body" "field_declaration_list" "" [methodDeclaration]]

private def methodNamespace : SyntaxTree :=
  under "" "namespace_definition" "" [under "name" "namespace_identifier" "N" [],
    under "body" "declaration_list" "" [methodClass]]

/-- `namespace N { struct A { void f(int a); }; } void N::A::f(int b) {}`. -/
private def methodFile : SourceFile :=
  ⟨⟨"/w/m.cpp"⟩, "", under "" "translation_unit" "" [methodNamespace, methodDefinition], false⟩

private def insideClass : Site :=
  .declaration ⟨methodDeclaration, [0, 1, 0, 1, 0]⟩ ⟨["N", "A"], some "N::A"⟩

private def outsideClass : Site := .functionDefinition ⟨methodDefinition, [1]⟩ ⟨[], none⟩

private theorem sites_insideClass :
    sites ⟨["N", "A"], some "N::A"⟩ ⟨methodDeclaration, [0, 1, 0, 1, 0]⟩ = [insideClass] := by
  have untyped : (⟨methodDeclaration, [0, 1, 0, 1, 0]⟩ : Node).field? "type" = none := rfl
  exact sites_declaration (.inr rfl) (by simp [untyped]) _

private theorem sites_methodClass : sites ⟨["N"], none⟩ ⟨methodClass, [0, 1, 0]⟩ =
    [.openClass "N::A" [], insideClass] := by
  have name : (⟨methodClass, [0, 1, 0]⟩ : Node).field? "name" =
      some ⟨under "name" "type_identifier" "A" [], [0, 0, 1, 0]⟩ := rfl
  have members : bodyMembers ⟨methodClass, [0, 1, 0]⟩ =
      [⟨methodDeclaration, [0, 1, 0, 1, 0]⟩] := rfl
  have parts : qualifiedParts ⟨under "name" "type_identifier" "A" [], [0, 0, 1, 0]⟩ = ["A"] := by
    decide +kernel
  have qualified : joinScope ["N", "A"] = "N::A" := by decide
  rw [sites_eq, if_neg (by decide), if_neg (by decide), if_pos (by decide), name]
  simp only [parts, members, List.flatMap_singleton, List.singleton_append, qualified,
    sites_insideClass]
  rfl

private theorem sites_methodNamespace : sites ⟨[], none⟩ ⟨methodNamespace, [0]⟩ =
    [.openNamespace ["N"], .openClass "N::A" [], insideClass] := by
  have parts : namespaceParts ⟨methodNamespace, [0]⟩ = ["N"] := by decide +kernel
  have members : bodyMembers ⟨methodNamespace, [0]⟩ = [⟨methodClass, [0, 1, 0]⟩] := rfl
  have names : namespaceNames [] ["N"] = ["N"] := by decide
  rw [sites_eq, if_neg (by decide), if_pos (by decide), parts, members, names]
  simp only [List.flatMap_singleton, List.nil_append, sites_methodClass]

private theorem sites_methodDefinition :
    sites ⟨[], none⟩ ⟨methodDefinition, [1]⟩ = [outsideClass] :=
  sites_functionDefinition rfl _

private def methodRef : FileRef := ⟨0, ⟨"/w/m.cpp"⟩, ⟨"/w/m.cpp"⟩⟩

private theorem walk_method : walk [methodFile] ⟨"/w/m.cpp"⟩ =
    [(methodRef, .openNamespace ["N"]), (methodRef, .openClass "N::A" []),
      (methodRef, insideClass), (methodRef, outsideClass)] := by
  have top : (Node.ofTree methodFile.tree).namedChildren =
      [⟨methodNamespace, [0]⟩, ⟨methodDefinition, [1]⟩] := rfl
  have listed : methodFile.sites =
      [.openNamespace ["N"], .openClass "N::A" [], insideClass, outsideClass] := by
    rw [SourceFile.sites, sites_eq, if_pos (by decide), top]
    simp [sites_methodNamespace, sites_methodDefinition]
  rw [walk, List.zipIdx_singleton, List.flatMap_singleton]
  dsimp only
  rw [listed]
  rfl

private def methodSymbol (position : Nat) : Symbol :=
  ((SymbolTable.ofFiles [methodFile] ⟨"/w/m.cpp"⟩).symbols[position]?).getD default

private def placesBefore : List (FileRef × Site) :=
  [(methodRef, .openNamespace ["N"]), (methodRef, .openClass "N::A" [])]

private def shapeInClass : FunctionShape :=
  ⟨⟨plainName, [0, 0, 0, 1, 0, 1, 0]⟩, some ⟨parameterList "a", [1, 0, 0, 1, 0, 1, 0]⟩, []⟩

private def shapeOutside : FunctionShape :=
  ⟨⟨qualifiedName, [0, 0, 1]⟩, some ⟨parameterList "b", [1, 0, 1]⟩, []⟩

private theorem meets_inClass : Meets [methodFile] ⟨"/w/m.cpp"⟩ (placesBefore.map Prod.snd)
    ⟨["N", "A"], some "N::A"⟩ shapeInClass (methodSymbol 0) := by
  have declares : functionShape? ⟨takesInt plainName "a", [0, 0, 1, 0, 1, 0]⟩ =
      some shapeInClass := by
    cbv
  have split : (⟨methodDeclaration, [0, 1, 0, 1, 0]⟩ : Node).fieldChildren "declarator" =
      [] ++ ⟨takesInt plainName "a", [0, 0, 1, 0, 1, 0]⟩ :: [] := rfl
  exact .declarator walk_method split declares (by decide +kernel) (by decide +kernel)

private theorem meets_outside : Meets [methodFile] ⟨"/w/m.cpp"⟩
    ((placesBefore ++ [(methodRef, insideClass)]).map Prod.snd) ⟨[], none⟩ shapeOutside
    (methodSymbol 1) := by
  have declares : ((⟨methodDefinition, [1]⟩ : Node).field? "declarator").bind functionShape? =
      some shapeOutside := by
    cbv
  exact .definition walk_method declares (by decide +kernel) (by decide +kernel)

/-- The declaration in the class, with nothing before the name. -/
private def declaredInClass : Meeting := ⟨_, _, _, _, _, _, meets_inClass⟩

/-- The definition outside, with the names of the namespace and the class before the name. -/
private def definedOutside : Meeting := ⟨_, _, _, _, _, _, meets_outside⟩

/-- A method is the same callable where it is declared and where it is defined. -/
theorem method_declared_and_defined :
    declaredInClass.shape.qualifiers = [] ∧ definedOutside.shape.qualifiers = ["N", "A"] ∧
    declaredInClass.symbol.id = ⟨"N::A::f(int)"⟩ ∧
    declaredInClass.symbol.SameIdentity definedOutside.symbol := by
  have path : joinScope declaredInClass.path = "N::A" := by decide +kernel
  have path' : joinScope definedOutside.path = "N::A" := by decide +kernel
  have opens : OpensClass (placesBefore.map Prod.snd) "N::A" := ⟨[], by simp [placesBefore]⟩
  refine ⟨by decide +kernel, by decide +kernel, by decide +kernel, ?_⟩
  refine identity_independent_of_split (by decide +kernel) (by decide +kernel) (by decide +kernel)
    nofun (fun _ => .inl rfl) (.inr (.inl ?_)) (.inr (.inl ?_)) ?_
  · rw [path]
    exact opens
  · rw [path']
    exact opens.mono (List.map_subset _ (List.subset_append_left _ _))
  · -- The only namespace that is opened is the one around the class.
    rw [path]
    rintro ⟨_, names, member, among⟩
    obtain rfl : names = ["N"] := by
      simpa [declaredInClass, definedOutside, placesBefore, insideClass] using member
    simp at among

end Example

end CallGraph.Cpp
