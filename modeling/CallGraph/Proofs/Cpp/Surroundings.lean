import CallGraph.Proofs.Cpp.Declared
import CallGraph.Proofs.Cpp.Sites

/-!
# What a walk has opened

The classes and namespaces that a table knows are those that were opened so far
(`surroundings_read`), and the context that a declaration lies in was opened before it
(`inOpened_walk`): the walk enters a class only after it has opened it.
-/
namespace CallGraph.Cpp

/-! ### What the walk has opened -/

/-- One of the places opens the class. -/
def OpensClass (earlier : List Site) (name : String) : Prop :=
  ∃ bases, Site.openClass name bases ∈ earlier

/-- One of the places opens the namespace. -/
def OpensNamespace (earlier : List Site) (name : String) : Prop :=
  ∃ names, Site.openNamespace names ∈ earlier ∧ name ∈ names

/-- If the context is that of a class, it is the one that its scope names, opened before. -/
def Context.Opened (earlier : List Site) (context : Context) : Prop :=
  ∀ name, context.class? = some name →
    context.scope ≠ [] ∧ name = joinScope context.scope ∧ OpensClass earlier name

/-- Each of the places lies in a context that was opened before it. -/
def InOpened (earlier : List Site) : List Site → Prop
  | [] => True
  | site :: rest => (∀ context, site.context? = some context → context.Opened earlier) ∧
      InOpened (earlier ++ [site]) rest

theorem OpensClass.mono {earlier later : List Site} {name : String}
    (opens : OpensClass earlier name) (more : earlier ⊆ later) : OpensClass later name := by
  obtain ⟨bases, member⟩ := opens
  exact ⟨bases, more member⟩

theorem OpensNamespace.mono {earlier later : List Site} {name : String}
    (opens : OpensNamespace earlier name) (more : earlier ⊆ later) :
    OpensNamespace later name := by
  obtain ⟨names, member, among⟩ := opens
  exact ⟨names, more member, among⟩

theorem Context.Opened.mono {earlier later : List Site} {context : Context}
    (opened : context.Opened earlier) (more : earlier ⊆ later) : context.Opened later := by
  intro name isClass
  obtain ⟨inside, same, opens⟩ := opened name isClass
  exact ⟨inside, same, opens.mono more⟩

/-- No class need have been opened for a context outside classes. -/
theorem Context.Opened.of_none (earlier : List Site) (scope : List String) :
    Context.Opened earlier ⟨scope, none⟩ :=
  nofun

namespace InOpened

theorem mono {earlier later sites : List Site} (inOpened : InOpened earlier sites)
    (more : earlier ⊆ later) : InOpened later sites := by
  induction sites generalizing earlier later with
  | nil => trivial
  | cons site rest ih =>
    refine ⟨fun context lies => (inOpened.1 context lies).mono more, ih inOpened.2 ?_⟩
    exact List.append_subset.mpr
      ⟨fun _ member => List.mem_append_left _ (more member), List.subset_append_right _ _⟩

theorem append_iff {earlier first second : List Site} :
    InOpened earlier (first ++ second) ↔
      InOpened earlier first ∧ InOpened (earlier ++ first) second := by
  induction first generalizing earlier with
  | nil => simp [InOpened]
  | cons site rest ih => simp [InOpened, ih, and_assoc]

theorem flatMap {α : Type} {earlier : List Site} {items : List α} {sites : α → List Site}
    (each : ∀ item ∈ items, InOpened earlier (sites item)) :
    InOpened earlier (items.flatMap sites) := by
  induction items with
  | nil => trivial
  | cons item rest ih =>
    have later := ih fun other member => each other (List.mem_cons_of_mem _ member)
    exact append_iff.mpr ⟨each item List.mem_cons_self, later.mono (List.subset_append_left _ _)⟩

end InOpened

theorem qualifiedParts_ne_nil (name : Node) : qualifiedParts name ≠ [] := by
  simp [qualifiedParts]

/-- The walk opens a class before it goes into it. -/
theorem inOpened_sites (context : Context) (node : Node) :
    ∀ earlier, context.Opened earlier → InOpened earlier (sites context node) := by
  induction context, node using sites.induct with
  | case1 context node transparent ih =>
    intro earlier opened
    rw [sites_eq, if_pos transparent]
    exact .flatMap fun child member => ih ⟨child, member⟩ earlier opened
  | case2 context node solid isNamespace parts inner ih =>
    intro earlier opened
    rw [sites_eq, if_neg solid, if_pos isNamespace]
    exact ⟨by simp [Site.context?], .flatMap fun child member => ih ⟨child, member⟩ _ (.of_none _ _)⟩
  | case3 context node solid noNamespace isClass unnamed =>
    intro earlier opened
    rw [sites_eq, if_neg solid, if_neg noNamespace, if_pos isClass, unnamed]
    trivial
  | case4 context node solid noNamespace isClass name named scope qualified inner ih =>
    intro earlier opened
    rw [sites_eq, if_neg solid, if_neg noNamespace, if_pos isClass, named]
    refine ⟨by simp [Site.context?], .flatMap fun child member => ih ⟨child, member⟩ _ ?_⟩
    intro className isInner
    obtain rfl := Option.some.inj isInner
    refine ⟨?_, rfl, baseTypes context.scope node, List.mem_append_right _ ?_⟩
    · exact List.append_ne_nil_of_right_ne_nil _ (qualifiedParts_ne_nil name)
    · exact List.mem_singleton_self _
  | case5 context node solid noNamespace noClass isFunction =>
    intro earlier opened
    rw [sites_eq, if_neg solid, if_neg noNamespace, if_neg noClass, if_pos isFunction]
    exact ⟨fun _ lies => Option.some.inj lies ▸ opened, trivial⟩
  | case6 context node solid noNamespace noClass noFunction isDeclaration ih =>
    intro earlier opened
    rw [sites_eq, if_neg solid, if_neg noNamespace, if_neg noClass, if_neg noFunction,
      if_pos isDeclaration]
    refine ⟨fun _ lies => Option.some.inj lies ▸ opened, ?_⟩
    split
    · rename_i type inField
      split
      · exact ih type inField _ (opened.mono (List.subset_append_left _ _))
      · trivial
    · trivial
  | case7 context node solid noNamespace noClass noFunction noDeclaration =>
    intro earlier opened
    rw [sites_eq, if_neg solid, if_neg noNamespace, if_neg noClass, if_neg noFunction,
      if_neg noDeclaration]
    trivial

/-! ### What the table knows of it -/

theorem isSome_lookup_alterValue {α : Type} (key name : String) (initial : α) (change : α → α)
    (pairs : List (String × α)) :
    ((alterValue key initial change pairs).lookup name).isSome = true ↔
      name = key ∨ (pairs.lookup name).isSome = true := by
  rw [lookup_alterValue]
  split <;> rename_i same <;> simp [same]

theorem mem_foldl_insert {names known : List String} {name : String} :
    name ∈ names.foldl (fun known name => known.insert name) known ↔
      name ∈ names ∨ name ∈ known := by
  induction names generalizing known with
  | nil => simp
  | cons first rest ih =>
    rw [List.foldl_cons, ih, List.mem_insert_iff, List.mem_cons]
    exact or_left_comm.trans or_assoc.symm

/-- The classes and namespaces of the table are those that were opened. -/
structure Surroundings (earlier : List Site) (table : SymbolTable) : Prop where
  class_iff : ∀ name, table.hasClass name = true ↔ OpensClass earlier name
  namespace_iff : ∀ name, name ∈ table.namespaces ↔ OpensNamespace earlier name

namespace Surroundings

variable {earlier : List Site} {table : SymbolTable} {context : Context} (file : FileRef)

theorem empty : Surroundings [] .empty where
  class_iff name := by simp [OpensClass, SymbolTable.hasClass, SymbolTable.class?,
    SymbolTable.empty]
  namespace_iff name := by simp [OpensNamespace, SymbolTable.empty]

theorem addNamedLambda (known : Surroundings earlier table) (scope : BodyScope) (isLocal : Bool)
    (lambda : NamedLambda) :
    Surroundings earlier (Cpp.addNamedLambda file scope isLocal table lambda) := by
  unfold Cpp.addNamedLambda
  dsimp only
  split
  · exact ⟨known.class_iff, known.namespace_iff⟩
  · exact ⟨known.class_iff, known.namespace_iff⟩

theorem addFunction (known : Surroundings earlier table) (context : Context) (declaration : Node)
    (shape : FunctionShape) (isDefinition : Bool) (body? : Option Node) :
    Surroundings earlier
      (Cpp.addFunction file context table declaration shape isDefinition body?) := by
  unfold Cpp.addFunction
  dsimp only
  split
  · exact known
  · split
    · exact ⟨known.class_iff, known.namespace_iff⟩
    · refine List.foldlRecOn _ _ ⟨known.class_iff, known.namespace_iff⟩ ?_
      exact fun _ between lambda _ => between.addNamedLambda file _ _ lambda

/-- A field is added to a class that is open. -/
theorem addVariable (known : Surroundings earlier table) (opened : context.Opened earlier)
    (node declarator : Node) :
    Surroundings earlier (Cpp.addVariable context table node declarator) := by
  unfold Cpp.addVariable
  split
  · split
    · rename_i className isClass
      refine ⟨fun name => ?_, known.namespace_iff⟩
      have opens := (opened className isClass).2.2
      refine (isSome_lookup_alterValue className name _ _ _).trans ?_
      refine ⟨?_, fun other => .inr ((known.class_iff name).mpr other)⟩
      rintro (rfl | other)
      · exact opens
      · exact (known.class_iff name).mp other
    · exact ⟨known.class_iff, known.namespace_iff⟩
  · exact known

theorem addDeclarator (known : Surroundings earlier table) (opened : context.Opened earlier)
    (node declarator : Node) :
    Surroundings earlier (Cpp.addDeclarator file context node table declarator) := by
  unfold Cpp.addDeclarator
  split
  · exact known.addFunction file _ _ _ _ _
  · split
    · exact ⟨known.class_iff, known.namespace_iff⟩
    · split
      · exact known.addNamedLambda file _ _ _
      · exact known.addVariable opened node declarator

theorem addDeclarators (known : Surroundings earlier table) (opened : context.Opened earlier)
    (node : Node) (declarators : List Node) :
    Surroundings earlier (declarators.foldl (Cpp.addDeclarator file context node) table) :=
  declarators.foldlRecOn _ known fun _ between declarator _ =>
    between.addDeclarator file opened node declarator

/-- A place that opens nothing changes nothing about what is open. -/
theorem keep {site : Site} (noClass : ∀ name bases, site ≠ .openClass name bases)
    (noNamespace : ∀ names, site ≠ .openNamespace names) (known : Surroundings earlier table) :
    Surroundings (earlier ++ [site]) table where
  class_iff name := by
    have other (bases) : ¬ Site.openClass name bases = site := (noClass name bases ·.symm)
    simp [known.class_iff name, OpensClass, other]
  namespace_iff name := by
    have other (names) : ¬ Site.openNamespace names = site := (noNamespace names ·.symm)
    simp [known.namespace_iff name, OpensNamespace, other]

theorem addSite (known : Surroundings earlier table) {site : Site}
    (opened : ∀ context, site.context? = some context → context.Opened earlier) :
    Surroundings (earlier ++ [site]) (Cpp.addSite file table site) := by
  cases site with
  | openNamespace names =>
    refine ⟨fun name => ?_, fun name => mem_foldl_insert.trans ?_⟩
    · exact (known.class_iff name).trans (by simp [OpensClass])
    · rw [known.namespace_iff name]
      simp [OpensNamespace, or_and_right, exists_or, or_comm]
  | openClass qualified bases =>
    refine ⟨fun name => (isSome_lookup_alterValue qualified name _ _ _).trans ?_, fun name => ?_⟩
    · have classes := known.class_iff name
      rw [SymbolTable.hasClass, SymbolTable.class?] at classes
      rw [classes]
      simp [OpensClass, exists_or, or_comm]
    · exact (known.namespace_iff name).trans (by simp [OpensNamespace])
  | functionDefinition node context =>
    refine keep (by simp) (by simp) ?_
    rw [Cpp.addSite, addFunctionDefinition]
    split
    · exact known
    · exact known.addFunction file _ _ _ _ _
  | declaration node context =>
    exact keep (by simp) (by simp) (known.addDeclarators file (opened context rfl) node _)

end Surroundings

/-! ### The walk over a unit -/

/-- The places of a unit that declare something, each with its file. -/
def walk (files : List SourceFile) (unit : Path) : List (FileRef × Site) :=
  files.zipIdx.flatMap fun (source, index) =>
    source.sites.map fun site => (⟨index, source.path, unit⟩, site)

/-- The table after some places have been read. -/
def SymbolTable.read (places : List (FileRef × Site)) : SymbolTable :=
  places.foldl (fun table (file, site) => addSite file table site) .empty

theorem SymbolTable.ofFiles_eq_read (files : List SourceFile) (unit : Path) :
    ofFiles files unit = read (walk files unit) := by
  rw [ofFiles, read, walk, List.foldl_flatMap]
  congr 1
  funext table ⟨source, index⟩
  rw [List.foldl_map]
  rfl

theorem inOpened_walk (files : List SourceFile) (unit : Path) :
    InOpened [] ((walk files unit).map Prod.snd) := by
  rw [walk, List.map_flatMap]
  refine .flatMap fun (source, index) _ => ?_
  rw [List.map_map]
  have start : Context.Opened [] ⟨[], none⟩ := .of_none [] []
  simpa [Function.comp_def, SourceFile.sites] using inOpened_sites _ (.ofTree source.tree) _ start

theorem surroundings_read {places : List (FileRef × Site)}
    (inOpened : InOpened [] (places.map Prod.snd)) :
    Surroundings (places.map Prod.snd) (.read places) := by
  induction places using List.reverseRecOn with
  | nil => exact .empty
  | append_singleton before place ih =>
    rw [List.map_append] at inOpened ⊢
    obtain ⟨first, here⟩ := InOpened.append_iff.mp inOpened
    rw [SymbolTable.read, List.foldl_append]
    exact (ih first).addSite place.1 here.1

end CallGraph.Cpp
