import CallGraph.Proofs.Cpp.Resolution
import CallGraph.Proofs.Cpp.Scans

/-!
# Where reported calls come from

Main result: `reported_call_sound`. Each call that is reported comes from a node in a body of the
caller: a call, a creation, a deletion or a declaration of a variable. The callee admits the number
of arguments that the node passes and is no lambda of a function body; or it is a lambda and the
node calls the variable that holds it, which was declared before in the same body and in no other.

Every route by which a name is looked up tests the number of arguments, and either the owner or that
the callable is not local (`View.callee?_admits`). Lambdas have no owner (`LambdasStored`), so what
is left is the variables that the body has declared so far (`View.Progress.Accounted`).
-/
namespace CallGraph.Cpp

/-! ### Lambdas of function bodies -/

/-- The callable at a position is a lambda that a variable in the body of a function holds. -/
def SymbolTable.IsLocalLambda (table : SymbolTable) (files : List SourceFile) (position : Nat) :
    Prop :=
  ∃ source index, (source, index) ∈ files.zipIdx ∧ ∃ site ∈ source.sites, ∃ root,
    site.functionBody? = some root ∧ ∃ lambda ∈ lambdasIn root,
      (⟨index, lambda.node.address⟩, position) ∈ table.namedLambdas

/-- Local callables belong to no class, and what variables hold are lambdas of the files, local if
they are in the body of a function. -/
structure LambdasStored (files : List SourceFile) (table : SymbolTable) : Prop where
  unowned : ∀ symbol ∈ table.symbols, symbol.isLocal = true → symbol.owner? = none
  stored : ∀ entry ∈ table.namedLambdas, ∃ symbol, table.symbols[entry.2]? = some symbol ∧
    symbol.fact.kind = .lambda ∧ ∃ source, (source, entry.1.file) ∈ files.zipIdx ∧
      ∃ site ∈ source.sites, ∃ lambda, site.Stores lambda symbol.isLocal ∧
        lambda.node.address = entry.1.address

namespace LambdasStored

variable {files : List SourceFile} {table : SymbolTable}

theorem empty (files : List SourceFile) : LambdasStored files .empty := by
  constructor <;> simp [SymbolTable.empty]

theorem addSymbol (known : LambdasStored files table) {symbol : Symbol}
    (unowned : symbol.isLocal = true → symbol.owner? = none) :
    LambdasStored files (table.addSymbol symbol) where
  unowned other member := by
    rcases List.mem_append.mp member with old | new
    · exact known.unowned other old
    · exact List.mem_singleton.mp new ▸ unowned
  stored entry member := by
    obtain ⟨other, found, rest⟩ := known.stored entry member
    have inTable : entry.2 < table.symbols.length := (List.getElem?_eq_some_iff.mp found).1
    exact ⟨other, (List.getElem?_append_left inTable).trans found, rest⟩

theorem addBody (known : LambdasStored files table) (body : Body) :
    LambdasStored files (table.addBody body) :=
  { known with }

theorem addNamedLambda (known : LambdasStored files table) {source : SourceFile} {file : FileRef}
    (loaded : (source, file.index) ∈ files.zipIdx) {site : Site} (met : site ∈ source.sites)
    (scope : BodyScope) {isLocal : Bool} {lambda : NamedLambda}
    (stored : site.Stores lambda isLocal) :
    LambdasStored files (Cpp.addNamedLambda file scope isLocal table lambda) := by
  unfold Cpp.addNamedLambda
  dsimp only
  generalize Parameters.ofNode? _ = parameters
  generalize made : lambdaSymbol file scope.lambdas isLocal lambda.name parameters = symbol
  have isLambda : symbol.fact.kind = .lambda := made ▸ rfl
  have marked : symbol.isLocal = isLocal := made ▸ rfl
  have added : LambdasStored files (table.addSymbol symbol) := known.addSymbol fun _ => made ▸ rfl
  have named : LambdasStored files ((table.addSymbol symbol).addLambda
      ⟨file.index, lambda.node.address⟩ table.symbols.length) := by
    refine { added with stored := fun entry member => ?_ }
    rcases List.mem_cons.mp member with rfl | old
    · exact ⟨symbol, List.getElem?_concat_length, isLambda, source, loaded, site, met, lambda,
        marked ▸ stored, rfl⟩
    · exact added.stored entry old
  split
  · exact named
  · exact named.addBody _

theorem declares {source : SourceFile} {file : FileRef} {before after : SymbolTable}
    (known : LambdasStored files before) (loaded : (source, file.index) ∈ files.zipIdx)
    {site : Site} (met : site ∈ source.sites) (addition : Declares file site before after) :
    LambdasStored files after := by
  cases addition with
  | surroundings => exact { known with }
  | callable _ shared => exact known.addSymbol fun isLocal => by simp [shared] at isLocal
  | function _ shared =>
    exact (known.addSymbol fun isLocal => by simp [shared] at isLocal).addBody _
  | lambda scope stored => exact known.addNamedLambda loaded met scope stored

end LambdasStored

theorem SymbolTable.lambdasStored_ofFiles (files : List SourceFile) (unit : Path) :
    LambdasStored files (.ofFiles files unit) :=
  ofFiles_induction (.empty files) fun _ _ loaded _ met _ _ addition known =>
    known.declares loaded met addition

theorem Site.holds_of_stores {site : Site} {isLocal : Bool} {lambda : NamedLambda}
    (stored : site.Stores lambda isLocal) : site.Holds lambda.node := by
  cases site with
  | openNamespace names => exact stored.elim
  | openClass qualified bases => exact stored.elim
  | functionDefinition whole context =>
    obtain ⟨_, body, inField, member⟩ := stored
    obtain ⟨declarator, inside, held⟩ := exists_of_mem_lambdasIn member
    exact (inside_of_namedLambda? held).trans (inside.trans (.of_field? inField))
  | declaration whole context =>
    obtain ⟨_, declarator, member, held⟩ := stored
    exact ⟨declarator, member, inside_of_namedLambda? held⟩

/-- The lambdas of function bodies are marked as local. -/
theorem LambdasStored.isLocal_of_isLocalLambda {files : List SourceFile} {table : SymbolTable}
    (known : LambdasStored files table) {position : Nat} {symbol : Symbol}
    (isLambda : table.IsLocalLambda files position)
    (found : table.symbols[position]? = some symbol) : symbol.isLocal = true := by
  obtain ⟨source, index, loaded, site, met, root, own, lambda, member, named⟩ := isLambda
  obtain ⟨other, found', _, source', loaded', site', met', lambda', stored, here⟩ :=
    known.stored _ named
  obtain rfl := Option.some.inj (found'.symm.trans found)
  obtain rfl := source_eq_of_index loaded' loaded
  -- Both sites hold the lambda, so they are the same, and it is that of the function.
  have held := Site.holds_of_mem_lambdas (Site.lambdas_of_functionBody? own ▸ member)
  obtain rfl := eq_of_holds met' met (Site.holds_of_stores stored) held here
  cases site' with
  | functionDefinition whole context => exact stored.1
  | _ => cases own

/-! ### Reported calls -/

/-- How a call at a node of a body leads to a callable. Either the callable accepts what the node
passes, and then it is no lambda of a function body; or it is a lambda, and the node calls the
variable that holds it, declared at an earlier node of this body and of no other. -/
inductive CallSound (files : List SourceFile) (table : SymbolTable) (body : Body)
    (earlier : List Node) (node : Node) (position : Nat) (callee : Symbol) : Prop where
  | accepted {arguments : Nat} (passes : Passes node arguments)
    (accepts : callee.accepts arguments = true)
    (shared : ¬ table.IsLocalLambda files position)
  | held {name : String} {declaration : Node} (isLambda : callee.fact.kind = .lambda)
    (calls : CallsByName node name) (before : declaration ∈ earlier)
    (declares : table.DeclaresLambda body.file declaration name position)
    (only : table.scansOf ⟨body.file, declaration.address⟩ = [body])

/-- Each call that is reported comes from a node in a body of the caller. The callee accepts as many
arguments as the node passes, unless the node calls a lambda through the variable that holds it; and
a lambda of a function body is only called in this way, in the body that declares its variable. -/
theorem reported_call_sound {files : List SourceFile} {unit : Path} {call : Nat × Nat}
    (reported : call ∈ (SymbolTable.ofFiles files unit).calls) :
    ∃ body ∈ (SymbolTable.ofFiles files unit).bodies, body.symbol = call.1 ∧
      ∃ callee, (SymbolTable.ofFiles files unit).symbols[call.2]? = some callee ∧
        ∃ earlier node later,
          body.ownNodes (.ofFiles files unit) = earlier ++ node :: later ∧
          CallSound files (.ofFiles files unit) body earlier node call.2 callee := by
  have known := SymbolTable.lambdasStored_ofFiles files unit
  obtain ⟨body, listed, resolved⟩ := List.mem_flatMap.mp reported
  obtain ⟨position, reached, rfl⟩ := List.mem_map.mp resolved
  obtain ⟨earlier, node, later, split, reaches⟩ := body.callees_accounted _ position reached
  refine ⟨body, listed, rfl, ?_⟩
  cases reaches with
  | admitted passes admits =>
    obtain ⟨callee, found, accepts, member⟩ := admits
    refine ⟨callee, found, earlier, node, later, split, .accepted passes accepts fun isLambda => ?_⟩
    -- A lambda of a function body would be local and no member, so no look-up would give it.
    have isLocal := known.isLocal_of_isLocalLambda isLambda found
    have unowned := known.unowned callee (List.mem_of_getElem? found) isLocal
    simpa [unowned] using member isLocal
  | held calls before declares =>
    obtain ⟨_, _, _, _, _, lambda, _, _, _, named⟩ := id declares
    obtain ⟨callee, found, isLambda, _⟩ := known.stored _ named
    refine ⟨callee, found, earlier, node, later, split, .held isLambda calls before declares ?_⟩
    refine SymbolTable.scansOf_eq_singleton listed ?_
    rw [SymbolTable.Visits, Body.place, ← SymbolTable.ownNodes_eq listed, split]
    exact List.mem_append_left _ before

section Example

open SyntaxTree (under)

/-- The tree of `[] {}`. -/
private def heldLambda : SyntaxTree :=
  under "value" "lambda_expression" "" [under "body" "compound_statement" "" []]

private def holderBody : SyntaxTree :=
  under "body" "compound_statement" "" [
    under "" "declaration" "" [under "declarator" "init_declarator" "" [
      under "declarator" "identifier" "h" [], heldLambda]],
    under "" "call_expression" "" [under "function" "identifier" "h" [],
      under "arguments" "argument_list" "" [under "" "number_literal" "1" []]]]

private def holderFunction : SyntaxTree :=
  under "" "function_definition" "" [
    under "declarator" "function_declarator" "" [under "declarator" "identifier" "f" []], holderBody]

/-- `void f() { auto h = [] {}; h(1); }`. -/
private def holderFile : SourceFile :=
  ⟨⟨"/w/m.cpp"⟩, "", under "" "translation_unit" "" [holderFunction], false⟩

private theorem holder_met :
    .functionDefinition ⟨holderFunction, [0]⟩ ⟨[], none⟩ ∈ holderFile.sites := by
  refine @mem_sites_of_transparent _ _ ⟨holderFunction, [0]⟩ _ (by decide)
    (List.mem_of_getElem? (i := 0) rfl) ?_
  rw [sites_functionDefinition rfl]
  exact List.mem_singleton_self _

private theorem lambdas_holder : lambdasIn ⟨holderBody, [1, 0]⟩ =
    [⟨"h", ⟨heldLambda, [1, 0, 0, 1, 0]⟩⟩] := by
  cbv

private theorem holder_local :
    (SymbolTable.ofFiles [holderFile] ⟨"/w/m.cpp"⟩).IsLocalLambda [holderFile] 1 := by
  refine ⟨holderFile, 0, List.mem_singleton_self _, _, holder_met, ⟨holderBody, [1, 0]⟩, ?_,
    ⟨"h", ⟨heldLambda, [1, 0, 0, 1, 0]⟩⟩, by simp [lambdas_holder], by decide +kernel⟩
  have declares : ((⟨holderFunction, [0]⟩ : Node).field? "declarator").bind functionShape? =
      some ⟨⟨under "declarator" "identifier" "f" [], [0, 0, 0]⟩, none, []⟩ := by
    cbv
  exact recordedBody?_of_named declares (by decide +kernel)

/-- The function calls its lambda, with an argument too many, through the variable that holds it. -/
theorem local_lambda_called :
    (0, 1) ∈ (SymbolTable.ofFiles [holderFile] ⟨"/w/m.cpp"⟩).calls ∧
    ∃ callee, (SymbolTable.ofFiles [holderFile] ⟨"/w/m.cpp"⟩).symbols[1]? = some callee ∧
      callee.fact.kind = .lambda ∧ ∃ body node declaration name,
        CallsByName node name ∧ (SymbolTable.ofFiles [holderFile] ⟨"/w/m.cpp"⟩).DeclaresLambda
          body.file declaration name 1 ∧
        (SymbolTable.ofFiles [holderFile] ⟨"/w/m.cpp"⟩).scansOf ⟨body.file, declaration.address⟩ =
          [body] := by
  have reported : (0, 1) ∈ (SymbolTable.ofFiles [holderFile] ⟨"/w/m.cpp"⟩).calls := by
    decide +kernel
  obtain ⟨body, _, _, callee, found, _, node, _, _, sound⟩ := reported_call_sound reported
  refine ⟨reported, callee, found, ?_⟩
  cases sound with
  | accepted _ _ shared => exact absurd holder_local shared
  | held isLambda calls _ declares only => exact ⟨isLambda, body, node, _, _, calls, declares, only⟩

end Example

end CallGraph.Cpp
