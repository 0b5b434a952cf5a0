import CallGraph.Proofs.Index.Calls
import CallGraph.Proofs.Search.Settled

/-!
# Listings of a graph that grows

Main result: `listing_consistent`. Files are ingested while a listing is written, and yet it shows
one graph: below an occurrence of a callable stand the callees that the callable has in the end,
unless the occurrence is cut, or the callable had no callees when its own definition had been
searched for.

A listing is taken apart at an occurrence (`list_split`): after the line and the search for its
callable, the rest is the listing of an agenda that begins with the lines for the callees. Which of
the lines to come are those can be told by their depth, for what is written between the lines of an
agenda is deeper than they are, and the rest of the agenda is not deeper than the occurrence.
-/
namespace CallGraph

namespace ListingLine

/-- How many callables stand above a line; its text is indented by this. -/
def depth (line : ListingLine) : Nat := line.trail.length

/-- The lines for the callees of a callable that has just been listed, if it is to be followed:
a callable on its own path is not. -/
def followed (index : Index) (line : ListingLine) : List ListingLine :=
  if line.id ∈ line.trail then [] else line.children index

/-- The lines that stand directly below a line of some depth, among the lines after it. -/
def directlyBelow (depth : Nat) (after : List ListingLine) : List ListingLine :=
  (after.takeWhile fun other => depth < other.depth).filter fun other => other.depth = depth + 1

/-- No line of an agenda is deeper than one before it. -/
def Descending (agenda : List ListingLine) : Prop :=
  agenda.Pairwise fun earlier later => later.depth ≤ earlier.depth

theorem children_eq_map_calleeIds (index : Index) (line : ListingLine) :
    line.children index =
      (index.calleeIds line.id).map fun callee => ⟨line.trail ++ [line.id], callee⟩ := by
  rw [children, Index.calleeIds, List.map_map]
  rfl

theorem depth_of_mem_followed {index : Index} {line other : ListingLine}
    (member : other ∈ line.followed index) : other.depth = line.depth + 1 := by
  unfold followed at member
  split at member
  · cases member
  · obtain ⟨callee, _, rfl⟩ := List.mem_map.mp member
    simp [depth]

theorem Descending.follow {line : ListingLine} {rest : List ListingLine}
    (descending : Descending (line :: rest)) (index : Index) :
    Descending (line.followed index ++ rest) := by
  obtain ⟨above, later⟩ := List.pairwise_cons.mp descending
  refine List.pairwise_append.mpr ⟨List.pairwise_of_forall_mem_list ?_, later, ?_⟩
  · intro first atFirst second atSecond
    have firstDepth := depth_of_mem_followed atFirst
    have secondDepth := depth_of_mem_followed atSecond
    omega
  · intro child below other waiting
    have shallow := above other waiting
    rw [depth_of_mem_followed below]
    omega

theorem directlyBelow_cons (depth : Nat) (line : ListingLine) (rest : List ListingLine) :
    directlyBelow depth (line :: rest) =
      if depth < line.depth then
        if line.depth = depth + 1 then line :: directlyBelow depth rest
        else directlyBelow depth rest
      else [] := by
  by_cases deep : depth < line.depth
  · by_cases next : line.depth = depth + 1 <;> simp [directlyBelow, deep, next]
  · simp [directlyBelow, deep]

/-- What is followed from a line is not directly below a line above that line. -/
theorem directlyBelow_followed_append {depth : Nat} {line : ListingLine}
    (deep : depth < line.depth) (index : Index) (rest : List ListingLine) :
    directlyBelow depth (line.followed index ++ rest) = directlyBelow depth rest := by
  have each : ∀ other ∈ line.followed index, other.depth = line.depth + 1 :=
    fun other => depth_of_mem_followed
  -- Only the depth of what is followed matters: it is two steps down at least, so it is kept by the
  -- one cut and dropped by the other.
  generalize line.followed index = agenda at each
  induction agenda with
  | nil => rfl
  | cons other others ih =>
    rw [List.forall_mem_cons] at each
    rw [List.cons_append, directlyBelow_cons, if_pos (by omega), if_neg (by omega), ih each.2]

/-- What is followed from a line is directly below it, and nothing else on the agenda is. -/
theorem directlyBelow_followed {line : ListingLine} {rest : List ListingLine}
    (descending : Descending (line :: rest)) (index : Index) :
    directlyBelow line.depth (line.followed index ++ rest) = line.followed index := by
  have each : ∀ other ∈ line.followed index, other.depth = line.depth + 1 :=
    fun other => depth_of_mem_followed
  generalize line.followed index = agenda at each ⊢
  induction agenda with
  | nil =>
    cases rest with
    | nil => rfl
    | cons other others =>
      -- The next line on the agenda is not deeper than the line, so it ends what is below the line.
      have shallow := (List.pairwise_cons.mp descending).1 other List.mem_cons_self
      rw [List.nil_append, directlyBelow_cons, if_neg (by omega)]
  | cons other others ih =>
    rw [List.forall_mem_cons] at each
    rw [List.cons_append, directlyBelow_cons, if_pos (by omega), if_pos each.1, ih each.2]

end ListingLine

namespace DefinitionSearch

open ListingLine

variable {search : DefinitionSearch} {index last : Index} {agenda lines : List ListingLine}

/-- The index after a line has been written: the definition of the callable on it has been searched
for, unless the line is cut. -/
def visit (search : DefinitionSearch) (index : Index) (line : ListingLine) : Index :=
  if line.id ∈ line.trail then index
  else match index.find? line.id with
    | none => index
    | some callable => (search.define index callable).toOption.getD index

theorem visit_cut {line : ListingLine} (cut : line.id ∈ line.trail) :
    search.visit index line = index := if_pos cut

theorem visit_of_define {line : ListingLine} {callable : Callable} {grown : Index}
    (new : line.id ∉ line.trail) (found : index.find? line.id = some callable)
    (defined : search.define index callable = .ok grown) : search.visit index line = grown := by
  simp [visit, new, found, defined, Except.toOption]

theorem ingests_visit (search : DefinitionSearch) (wellFormed : WellFormed index.nodes)
    (line : ListingLine) : ∃ updated, search.Ingests index (search.visit index line) updated := by
  by_cases cut : line.id ∈ line.trail
  · exact ⟨[], visit_cut cut ▸ .none index⟩
  · cases found : index.find? line.id with
    | none => exact ⟨[], by simpa [visit, cut, found] using .none index⟩
    | some callable =>
      obtain ⟨grown, updated, defined, ingests, _⟩ := search.define_settles wellFormed found
      exact ⟨updated, visit_of_define cut found defined ▸ ingests⟩

theorem ingests_foldl_visit (search : DefinitionSearch) (wellFormed : WellFormed index.nodes)
    (lines : List ListingLine) :
    ∃ updated, search.Ingests index (lines.foldl search.visit index) updated := by
  induction lines generalizing index with
  | nil => exact ⟨[], .none index⟩
  | cons line rest ih =>
    obtain ⟨first, here⟩ := search.ingests_visit wellFormed line
    obtain ⟨others, later⟩ := ih (here.wellFormed wellFormed)
    exact ⟨first ++ others, here.trans later⟩

/-- The callees of a callable that has some stay what they are while further lines are written. -/
theorem children_stay (search : DefinitionSearch) (wellFormed : WellFormed index.nodes)
    {line : ListingLine} (calls : line.children index ≠ []) (lines : List ListingLine) :
    line.children (lines.foldl search.visit index) = line.children index := by
  obtain ⟨updated, ingests⟩ := search.ingests_foldl_visit wellFormed lines
  rw [children_eq_map_calleeIds, ne_eq, List.map_eq_nil_iff] at calls
  obtain ⟨callee, called⟩ := List.exists_mem_of_ne_nil _ calls
  rw [children_eq_map_calleeIds, children_eq_map_calleeIds,
    Index.calleeIds_of_call wellFormed (ingests.wellFormed wellFormed)
      (ingests.extendsNodes wellFormed) called]

/-! ### The listing of an agenda -/

theorem list_nil : search.list index [] = .ok (index, []) := by rw [list]

theorem eq_of_list_nil (listed : search.list index [] = .ok (last, lines)) :
    last = index ∧ lines = [] := by
  rw [list_nil, Except.ok.injEq, Prod.mk.injEq] at listed
  exact ⟨listed.1.symm, listed.2.symm⟩

/-- A line that is cut is written, and then the rest of the agenda. -/
theorem list_again {line : ListingLine} {rest after : List ListingLine} (cut : line.id ∈ line.trail)
    (listed : search.list index rest = .ok (last, after)) :
    search.list index (line :: rest) = .ok (last, line :: after) := by
  rw [list, dif_pos cut, listed]
  rfl

/-- A line that is followed is written, and then the agenda with the lines for the callees. -/
theorem list_visit {line : ListingLine} {rest after : List ListingLine} {callable : Callable}
    {grown : Index} (new : line.id ∉ line.trail) (found : index.find? line.id = some callable)
    (defined : search.define index callable = .ok grown)
    (listed : search.list grown (line.children grown ++ rest) = .ok (last, after)) :
    search.list index (line :: rest) = .ok (last, line :: after) := by
  rw [list, dif_neg new]
  split
  · rename_i unknown
    cases found.symm.trans unknown
  · rename_i other known
    obtain rfl := Option.some.inj (found.symm.trans known)
    split
    · rename_i failure
      cases defined.symm.trans failure
    · rename_i reached again
      obtain rfl := Except.ok.inj (defined.symm.trans again)
      rw [listed]
      rfl

theorem list_found {line : ListingLine} {rest after : List ListingLine} (grown : Index)
    (below : List ListingLine) (new : line.id ∉ line.trail)
    (defined : (index.find? line.id).map (search.define index) = some (.ok grown))
    (children : line.children grown = below)
    (listed : search.list grown (below ++ rest) = .ok (last, after)) :
    search.list index (line :: rest) = .ok (last, line :: after) := by
  obtain ⟨callable, found, success⟩ := Option.map_eq_some_iff.mp defined
  subst children
  exact list_visit new found success listed

theorem exists_of_map_eq_ok {α β ε : Type} {f : α → β} {result : Except ε α} {value : β}
    (success : result.map f = .ok value) : ∃ inner, result = .ok inner ∧ f inner = value := by
  cases result with
  | error error => cases success
  | ok inner => exact ⟨inner, rfl, Except.ok.inj success⟩

/-- The first line of an agenda is written first, and what is followed from it comes next. -/
theorem list_cons {line : ListingLine} {rest : List ListingLine}
    (listed : search.list index (line :: rest) = .ok (last, lines)) :
    ∃ after, lines = line :: after ∧
      search.list (search.visit index line)
        (line.followed (search.visit index line) ++ rest) = .ok (last, after) := by
  rw [list] at listed
  split at listed
  · rename_i cut
    obtain ⟨⟨reached, after⟩, listedRest, same⟩ := exists_of_map_eq_ok listed
    cases same
    rw [visit_cut cut, followed, if_pos cut]
    exact ⟨after, rfl, listedRest⟩
  · rename_i new
    split at listed
    · cases listed
    · rename_i callable found
      split at listed
      · cases listed
      · rename_i grown defined
        obtain ⟨⟨reached, after⟩, listedRest, same⟩ := exists_of_map_eq_ok listed
        cases same
        rw [visit_of_define new found defined, followed, if_neg new]
        exact ⟨after, rfl, listedRest⟩

/-- What holds where nothing is written, and holds from a line on if it holds after the line, holds
of every listing. -/
theorem list_induction {motive : Index → List ListingLine → List ListingLine → Prop}
    (nil : motive last [] [])
    (cons : ∀ index line rest after,
      motive (search.visit index line) (line.followed (search.visit index line) ++ rest) after →
      motive index (line :: rest) (line :: after))
    (listed : search.list index agenda = .ok (last, lines)) : motive index agenda lines := by
  -- Over the lines: there is one for the head of the agenda, and none only if the agenda is empty.
  induction lines generalizing index agenda with
  | nil =>
    cases agenda with
    | nil =>
      obtain ⟨rfl, _⟩ := eq_of_list_nil listed
      exact nil
    | cons line rest =>
      obtain ⟨_, same, _⟩ := list_cons listed
      cases same
  | cons first after ih =>
    cases agenda with
    | nil => cases (eq_of_list_nil listed).2
    | cons line rest =>
      obtain ⟨_, same, listedRest⟩ := list_cons listed
      cases same
      exact cons index first rest after (ih listedRest)

/-- The index in the end is what the visits to the lines lead to, one after the other. -/
theorem list_eq_foldl (listed : search.list index agenda = .ok (last, lines)) :
    last = lines.foldl search.visit index :=
  list_induction (motive := fun index _ lines => last = lines.foldl search.visit index) rfl
    (fun _ _ _ _ same => same) listed

/-- What is written between the lines of an agenda is deeper than they are. -/
theorem directlyBelow_list (listed : search.list index agenda = .ok (last, lines)) (depth : Nat) :
    directlyBelow depth lines = directlyBelow depth agenda := by
  refine list_induction
    (motive := fun _ agenda lines => directlyBelow depth lines = directlyBelow depth agenda) rfl
    (fun index line rest after ih => ?_) listed
  rw [directlyBelow_cons, directlyBelow_cons, ih]
  by_cases deep : depth < line.depth
  · rw [directlyBelow_followed_append deep]
  · rw [if_neg deep, if_neg deep]

/-- A listing can be taken apart before any of its lines: from there on it is the listing of an
agenda that begins with the line, and no line that waits is deeper than it. -/
theorem list_at {line : ListingLine} {before after : List ListingLine}
    (descending : Descending agenda)
    (listed : search.list index agenda = .ok (last, before ++ line :: after)) :
    ∃ rest, Descending (line :: rest) ∧
      search.list (before.foldl search.visit index) (line :: rest) = .ok (last, line :: after) := by
  induction before generalizing index agenda with
  | nil =>
    cases agenda with
    | nil => cases (eq_of_list_nil listed).2
    | cons first rest =>
      obtain ⟨_, same, _⟩ := list_cons listed
      cases same
      exact ⟨rest, descending, listed⟩
  | cons first earlier ih =>
    cases agenda with
    | nil => cases (eq_of_list_nil listed).2
    | cons _ rest =>
      obtain ⟨_, same, listedRest⟩ := list_cons listed
      cases same
      exact ih (descending.follow _) listedRest

/-- What comes after a line is the listing of what is followed from it, and of lines that are not
deeper than it. -/
theorem list_split {line : ListingLine} {before after : List ListingLine}
    (descending : Descending agenda)
    (listed : search.list index agenda = .ok (last, before ++ line :: after)) :
    let visited := search.visit (before.foldl search.visit index) line
    ∃ rest, Descending (line :: rest) ∧
      search.list visited (line.followed visited ++ rest) = .ok (last, after) := by
  obtain ⟨rest, below, listedAt⟩ := list_at descending listed
  obtain ⟨_, same, listedRest⟩ := list_cons listedAt
  cases same
  exact ⟨rest, below, listedRest⟩

/-- Directly below a line stand the callees that its callable had when it was visited, if it was
followed. -/
theorem directlyBelow_of_list {line : ListingLine} {before after : List ListingLine}
    (descending : Descending agenda)
    (listed : search.list index agenda = .ok (last, before ++ line :: after)) :
    directlyBelow line.depth after =
      line.followed (search.visit (before.foldl search.visit index) line) := by
  obtain ⟨rest, below, listedRest⟩ := list_split descending listed
  rw [directlyBelow_list listedRest, directlyBelow_followed below]

/-- What a listing of an agenda shows below one of its lines. -/
theorem list_consistent (wellFormed : WellFormed index.nodes) {line : ListingLine}
    {before after : List ListingLine} (descending : Descending agenda)
    (listed : search.list index agenda = .ok (last, before ++ line :: after)) :
    let visited := search.visit (before.foldl search.visit index) line
    let below := directlyBelow line.depth after
    (line.id ∈ line.trail → below = []) ∧
      (line.id ∉ line.trail → below ≠ [] → below = line.children last) ∧
      (line.id ∉ line.trail → below = [] → visited.calleeIds line.id = []) := by
  intro visited below
  have shown : below = line.followed visited := directlyBelow_of_list descending listed
  refine ⟨fun cut => ?_, fun new some => ?_, fun new none => ?_⟩
  · rw [shown, followed, if_pos cut]
  · -- The callees at the visit are those in the end, for a callable that has any is final.
    rw [shown, followed, if_neg new] at some ⊢
    have later : WellFormed visited.nodes := by
      obtain ⟨_, earlier⟩ := search.ingests_foldl_visit wellFormed before
      obtain ⟨_, here⟩ := search.ingests_visit (earlier.wellFormed wellFormed) line
      exact here.wellFormed (earlier.wellFormed wellFormed)
    rw [list_eq_foldl listed, List.foldl_append, List.foldl_cons]
    exact (children_stay search later some after).symm
  · rw [shown, followed, if_neg new, children_eq_map_calleeIds, List.map_eq_nil_iff] at none
    exact none

theorem wellFormed_ingestUntilDefined {id : CallableId} {files : List Path}
    (wellFormed : WellFormed index.nodes)
    (success : search.ingestUntilDefined id files index = .ok last) : WellFormed last.nodes := by
  induction files generalizing index with
  | nil =>
    cases success
    exact wellFormed
  | cons file rest ih =>
    rw [ingestUntilDefined] at success
    split at success
    · cases success
      exact wellFormed
    · split at success
      · cases success
      · rename_i middle report ingested
        exact ih (Index.wellFormed_ingest wellFormed ingested) success

end DefinitionSearch

namespace ListingRequest

/-- The root for the paths that are shown. -/
def root (request : ListingRequest) (catalog : Catalog) : DisplayRoot :=
  match request.displayRoot? with
  | some path => ⟨some path⟩
  | none => catalog.displayRoot

variable {request : ListingRequest} {tools : Toolchain} {last : Index} {lines : List ListingLine}

theorem mapError_eq_ok_iff {α ε ε' : Type} {f : ε → ε'} {result : Except ε α}
    {value : α} : result.mapError f = .ok value ↔ result = .ok value := by
  cases result <;> simp [Except.mapError]

/-- In a given catalog, a successful listing is that of the entry point, from the index in which the
entry point is defined. -/
theorem linesIn_eq_ok_iff {catalog : Catalog} :
    request.linesIn tools catalog = .ok (last, lines) ↔ ∃ start,
      DefinitionSearch.ingestUntilDefined ⟨tools, catalog, request.keepSystem⟩ request.entry
        catalog.paths (.empty (request.root catalog)) = .ok start ∧
      start.isDefined request.entry = true ∧
      DefinitionSearch.list ⟨tools, catalog, request.keepSystem⟩ start [⟨[], request.entry⟩] =
        .ok (last, lines) := by
  simp only [linesIn, root]
  generalize DefinitionSearch.ingestUntilDefined _ _ _ _ = ingested
  cases ingested with
  | error error => simp
  | ok start =>
    cases found : start.find? request.entry with
    | none => simp [Index.isDefined, found]
    | some callable =>
      by_cases defined : callable.isDefinition = true <;>
        simp [Index.isDefined, found, defined, mapError_eq_ok_iff]

theorem lines_eq_ok_iff :
    request.lines tools = .ok (last, lines) ↔ ∃ catalog,
      Catalog.ofPath tools.files request.source request.extraArguments = .ok catalog ∧
      request.linesIn tools catalog = .ok (last, lines) := by
  rw [ListingRequest.lines]
  cases Catalog.ofPath tools.files request.source request.extraArguments <;> simp

end ListingRequest

open ListingLine DefinitionSearch

/-- Where a request for a listing succeeds, its text is that of some lines, the first of which is
the entry point, and the index grows from line to line. Below an occurrence of a callable on its own
path stands nothing. What stands directly below any other occurrence are the callees of the callable
in the end, in their order, if it is anything; if it is nothing, then the callable had no callees
when its own definition had been searched for. -/
theorem listing_consistent (request : ListingRequest) (tools : Toolchain) {text : String}
    (success : request.text tools = .ok text) :
    ∃ catalog start last lines,
      Catalog.ofPath tools.files request.source request.extraArguments = .ok catalog ∧
      request.lines tools = .ok (last, lines) ∧
      text = String.join (lines.map render) ∧ lines.head? = some ⟨[], request.entry⟩ ∧
      let search : DefinitionSearch := ⟨tools, catalog, request.keepSystem⟩
      search.ingestUntilDefined request.entry catalog.paths (.empty (request.root catalog)) =
        .ok start ∧
      last = lines.foldl search.visit start ∧
      ∀ before line after, lines = before ++ line :: after →
        let visited := search.visit (before.foldl search.visit start) line
        let below := directlyBelow line.depth after
        (line.id ∈ line.trail → below = []) ∧
        (line.id ∉ line.trail → below ≠ [] → below = line.children last) ∧
        (line.id ∉ line.trail → below = [] → visited.calleeIds line.id = []) := by
  obtain ⟨⟨last, lines⟩, listed, rfl⟩ := exists_of_map_eq_ok success
  obtain ⟨catalog, opened, listedIn⟩ := ListingRequest.lines_eq_ok_iff.mp listed
  obtain ⟨start, ingested, _, listing⟩ := ListingRequest.linesIn_eq_ok_iff.mp listedIn
  have wellFormed : WellFormed start.nodes := wellFormed_ingestUntilDefined .nil ingested
  have first : lines.head? = some ⟨[], request.entry⟩ := by
    obtain ⟨after, rfl, _⟩ := list_cons listing
    rfl
  refine ⟨catalog, start, last, lines, opened, listed, rfl, first, ingested,
    list_eq_foldl listing, ?_⟩
  rintro before line after rfl
  exact list_consistent wellFormed (List.pairwise_singleton _ _) listing

section Example

private def chainFact (file : Path) (name : String) (isDefinition : Bool) : Fact :=
  .callable ⟨.function, [], name, name ++ "()", "void", isDefinition, file, file⟩

private def chainFiles : FileSystem :=
  [(⟨"/w/a.cpp"⟩, "step setup"), (⟨"/w/b.cpp"⟩, "setup"), (⟨"/w/c.cpp"⟩, "finish"),
    (⟨"/w/db.json"⟩,
      "[[\"a.cpp\",null,null,[]],[\"b.cpp\",null,null,[]],[\"c.cpp\",null,null,[]]]")].foldl
    (fun files (path, text) => files.addFile path (Utf8.encode text)) (.empty ⟨"/w"⟩)

/-- In `a.cpp`, `run()` calls `step()` and `setup()`. In `b.cpp` are `setup()`, which calls `step()`,
and, from a header, `step()`, which calls `finish()` and `setup()`; its own text does not mention
`step`. In `c.cpp` is `finish()`. -/
private def chainTools : Toolchain where
  files := chainFiles
  analyze path _ := .ok
    { translationUnit := path
      facts :=
        if path = ⟨"/w/a.cpp"⟩ then
          [chainFact path "step" false, chainFact path "setup" false, chainFact path "run" true,
            .call ⟨"run()"⟩ ⟨"step()"⟩, .call ⟨"run()"⟩ ⟨"setup()"⟩]
        else if path = ⟨"/w/b.cpp"⟩ then
          [chainFact path "finish" false, chainFact path "setup" true, chainFact path "step" true,
            .call ⟨"setup()"⟩ ⟨"step()"⟩, .call ⟨"step()"⟩ ⟨"finish()"⟩,
            .call ⟨"step()"⟩ ⟨"setup()"⟩]
        else [chainFact path "finish" true]
      warnings := [] }
  systemDirectories _ := []

private def chainRequest : ListingRequest where
  entry := ⟨"run()"⟩
  source := ⟨"db.json"⟩
  keepSystem := false
  extraArguments := []
  displayRoot? := none

private def chainCatalog : Catalog :=
  ⟨⟨"/w/db.json"⟩, [(⟨"/w/a.cpp"⟩, []), (⟨"/w/b.cpp"⟩, []), (⟨"/w/c.cpp"⟩, [])]⟩

/-- The graph once some of the files have been ingested. -/
private def chainIndex (files : List Path) : Index :=
  .run chainCatalog.displayRoot (files.map fun file => ⟨chainTools.toWorkspace, [], file, []⟩)

private def lineFor (trail : List String) (id : String) : ListingLine :=
  ⟨trail.map CallableId.mk, ⟨id⟩⟩

private theorem chain_opened :
    Catalog.ofPath chainTools.files chainRequest.source chainRequest.extraArguments =
      .ok chainCatalog := by
  have parts : (Catalog.ofPath chainTools.files chainRequest.source
      chainRequest.extraArguments).toOption.map (fun catalog => (catalog.source, catalog.entries)) =
        some (chainCatalog.source, chainCatalog.entries) := by decide +kernel
  cases opened : Catalog.ofPath chainTools.files chainRequest.source
    chainRequest.extraArguments with
  | error error =>
    rw [opened] at parts
    cases parts
  | ok catalog =>
    rw [opened] at parts
    cases catalog
    cases parts
    rfl

/-- `step()` is listed before `b.cpp` is ingested for `setup()`, and again after that. -/
private theorem chain_listed :
    chainRequest.lines chainTools =
      .ok (chainIndex [⟨"/w/a.cpp"⟩, ⟨"/w/b.cpp"⟩, ⟨"/w/c.cpp"⟩],
        [lineFor [] "run()", lineFor ["run()"] "step()", lineFor ["run()"] "setup()",
          lineFor ["run()", "setup()"] "step()", lineFor ["run()", "setup()", "step()"] "finish()",
          lineFor ["run()", "setup()", "step()"] "setup()"]) := by
  refine ListingRequest.lines_eq_ok_iff.mpr ⟨chainCatalog, chain_opened, ?_⟩
  refine ListingRequest.linesIn_eq_ok_iff.mpr
    ⟨chainIndex [⟨"/w/a.cpp"⟩], by decide +kernel, by decide +kernel, ?_⟩
  refine list_found (chainIndex [⟨"/w/a.cpp"⟩])
    [lineFor ["run()"] "step()", lineFor ["run()"] "setup()"]
    (by decide +kernel) (by decide +kernel) (by decide +kernel) ?_
  refine list_found (chainIndex [⟨"/w/a.cpp"⟩]) []
    (by decide +kernel) (by decide +kernel) (by decide +kernel) ?_
  refine list_found (chainIndex [⟨"/w/a.cpp"⟩, ⟨"/w/b.cpp"⟩])
    [lineFor ["run()", "setup()"] "step()"]
    (by decide +kernel) (by decide +kernel) (by decide +kernel) ?_
  refine list_found (chainIndex [⟨"/w/a.cpp"⟩, ⟨"/w/b.cpp"⟩])
    [lineFor ["run()", "setup()", "step()"] "finish()",
      lineFor ["run()", "setup()", "step()"] "setup()"]
    (by decide +kernel) (by decide +kernel) (by decide +kernel) ?_
  refine list_found (chainIndex [⟨"/w/a.cpp"⟩, ⟨"/w/b.cpp"⟩, ⟨"/w/c.cpp"⟩]) []
    (by decide +kernel) (by decide +kernel) (by decide +kernel) ?_
  refine list_again (by decide +kernel) ?_
  exact list_nil

/-- `step()` has nothing below it where it is listed first, and its callees in the end where it is
listed next. -/
theorem callee_listed_while_it_grows :
    chainRequest.text chainTools =
        .ok "run()\n  step()\n  setup()\n    step()\n      finish()\n      setup()\n" ∧
      ∃ last lines, chainRequest.lines chainTools = .ok (last, lines) ∧
        ∀ before line after, lines = before ++ line :: after → line.id ∉ line.trail →
          directlyBelow line.depth after ≠ [] →
            directlyBelow line.depth after = line.children last := by
  have success : chainRequest.text chainTools =
      .ok "run()\n  step()\n  setup()\n    step()\n      finish()\n      setup()\n" := by
    rw [ListingRequest.text, chain_listed]
    decide +kernel
  obtain ⟨_, _, last, lines, _, listed, _, _, _, _, each⟩ :=
    listing_consistent chainRequest chainTools success
  exact ⟨success, last, lines, listed, fun before line after split new =>
    (each before line after split).2.1 new⟩

end Example

end CallGraph
