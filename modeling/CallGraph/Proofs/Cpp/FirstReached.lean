import CallGraph.Proofs.Cpp.PostOrder
import CallGraph.Proofs.Traversal.DepthFirst

/-!
# The order in which a load comes to files

A load puts the files of a unit in post-order (`loadUnit_post_order`) but reads them, and reports
what is wrong with each, in the order in which it first comes to them. That is the depth-first order
of the include graph (`reachedPaths`), with each file's includes in the order of its text.

The stack of a load is an agenda for that order: the includes to come of each file on it are to be
visited below that file and the ones that it was reached through. Each step either leaves out a path
that has been seen or visits the first one that remains (`InOrder.step`), so that the paths that
have been seen, the last one first, are always the first part of the order.
-/
namespace CallGraph.Cpp

section Order

variable (files : FileSystem) (grammar : Grammar) (search : IncludeSearch)

/-- What some include directives of a file are resolved to. -/
def targets (including : Path) (includes : List Include) : List Path :=
  includes.filterMap fun directive =>
    search.resolve files including directive.target directive.quoted

/-- Files lead to what they include, in the order of their texts. -/
def includeGraph : OrderedGraph Path where
  next path := targets files search path (includesOf files grammar path)
  pool := files.filePaths
  next_mem path target member := by
    obtain ⟨directive, _, resolved⟩ := List.mem_filterMap.mp member
    exact IncludeSearch.mem_filePaths_of_resolve resolved

/-- The paths that a load comes to, in the order in which it first comes to them. -/
def reachedPaths (root : Path) : List Path :=
  ((includeGraph files grammar search).walk [] root).eraseDups

/-- The files at some paths, as far as they can be read. -/
def sourcesAt (root : Path) (paths : List Path) : List SourceFile :=
  paths.filterMap fun path =>
    (readSource files grammar path (systemFlag search root path)).toOption

/-- The files of a unit in the order in which its load first comes to them. -/
def firstReached (root : Path) : List SourceFile :=
  sourcesAt files grammar search root (reachedPaths files grammar search root)

/-- What is still to be visited for the files on a stack: what their includes to come are resolved
to, below the file and those that it was reached through. -/
def agenda : List Frame → List (List Path × Path)
  | [] => []
  | frame :: outer =>
    (targets files search frame.file.path frame.includes).map
      (fun path => (pathsOf ((frame :: outer).map Frame.file), path)) ++ agenda outer

end Order

variable {files : FileSystem} {grammar : Grammar} {search : IncludeSearch} {root : Path}

theorem mem_next_iff {includer included : Path} :
    included ∈ (includeGraph files grammar search).next includer ↔
      HasInclude files grammar search includer included :=
  List.mem_filterMap

theorem mem_reachedPaths_iff {path : Path} :
    path ∈ reachedPaths files grammar search root ↔ LeadsTo files grammar search root path := by
  rw [reachedPaths, List.mem_eraseDups, OrderedGraph.mem_walk_nil_iff, LeadsTo]
  simp only [mem_next_iff]

theorem nodup_reachedPaths : (reachedPaths files grammar search root).Nodup := nodup_eraseDups _

theorem toOption_readSource_eq_some_iff {path : Path} {isSystem : Bool} {file : SourceFile} :
    (readSource files grammar path isSystem).toOption = some file ↔
      readSource files grammar path isSystem = .ok file := by
  cases readSource files grammar path isSystem <;> simp [Except.toOption]

theorem mem_sourcesAt_iff {paths : List Path} {file : SourceFile} :
    file ∈ sourcesAt files grammar search root paths ↔ file.path ∈ paths ∧
      readSource files grammar file.path (systemFlag search root file.path) = .ok file := by
  simp only [sourcesAt, List.mem_filterMap, toOption_readSource_eq_some_iff]
  constructor
  · rintro ⟨path, member, read⟩
    obtain ⟨rfl, _⟩ := readSource_fields read
    exact ⟨member, read⟩
  · exact fun ⟨member, read⟩ => ⟨file.path, member, read⟩

theorem nodup_sourcesAt {paths : List Path} (distinct : paths.Nodup) :
    (sourcesAt files grammar search root paths).Nodup := by
  refine distinct.filterMap fun path other file read again => ?_
  rw [Option.mem_def, toOption_readSource_eq_some_iff] at read again
  exact (readSource_fields read).1.symm.trans (readSource_fields again).1

theorem sourcesAt_append_of_ok {path : Path} {file : SourceFile}
    (read : readSource files grammar path (systemFlag search root path) = .ok file)
    (paths : List Path) : sourcesAt files grammar search root (paths ++ [path]) =
      sourcesAt files grammar search root paths ++ [file] := by
  simp [sourcesAt, read, Except.toOption]

theorem sourcesAt_append_of_error {path : Path} {error : Error}
    (failure : readSource files grammar path (systemFlag search root path) = .error error)
    (paths : List Path) : sourcesAt files grammar search root (paths ++ [path]) =
      sourcesAt files grammar search root paths := by
  simp [sourcesAt, failure, Except.toOption]

/-- The files of a unit are those that are reached. -/
theorem PostOrder.perm_firstReached {unit : LoadedUnit}
    (postOrder : PostOrder files grammar search root unit) :
    unit.files.Perm (firstReached files grammar search root) := by
  refine (List.perm_ext_iff_of_nodup (.of_map _ postOrder.distinct)
    (nodup_sourcesAt nodup_reachedPaths)).mpr fun file => ?_
  rw [mem_sourcesAt_iff, mem_reachedPaths_iff]
  constructor
  · intro member
    have reached := (postOrder.mem_iff file.path).mp (List.mem_map_of_mem member)
    exact ⟨reached.2, postOrder.read file member⟩
  · rintro ⟨leads, read⟩
    have among := (postOrder.mem_iff file.path).mpr ⟨readable_of_readSource read, leads⟩
    obtain ⟨other, member, same⟩ := List.mem_map.mp among
    have again := postOrder.read other member
    rw [same, read] at again
    exact Except.ok.inj again ▸ member

/-! ### What is to be visited -/

section Agenda

variable {file : SourceFile} {directive : Include} {rest : List Include} {outer : List Frame}
  {path : Path}

theorem agenda_unresolved
    (nowhere : search.resolve files file.path directive.target directive.quoted = none) :
    agenda files search (⟨file, directive :: rest⟩ :: outer) =
      agenda files search (⟨file, rest⟩ :: outer) := by
  simp [agenda, targets, nowhere]

theorem agenda_resolved
    (resolved : search.resolve files file.path directive.target directive.quoted = some path) :
    agenda files search (⟨file, directive :: rest⟩ :: outer) =
      (pathsOf (file :: outer.map Frame.file), path) ::
        agenda files search (⟨file, rest⟩ :: outer) := by
  simp [agenda, targets, resolved]

/-- A file that has just been read is to be followed by what it includes. -/
theorem agenda_ofFile (search : IncludeSearch) {isSystem : Bool}
    (read : readSource files grammar path isSystem = .ok file) (outer : List Frame) :
    agenda files search (Frame.ofFile file :: outer) =
      (includeGraph files grammar search).below (pathsOf (outer.map Frame.file)) path ++
        agenda files search outer := by
  obtain ⟨rfl, _⟩ := readSource_fields read
  simp [agenda, Frame.ofFile, OrderedGraph.below, includeGraph, includesOf_of_readSource read,
    pathsOf]

/-- What cannot be read is followed by nothing. -/
theorem below_of_error {error : Error} {isSystem : Bool}
    (failure : readSource files grammar path isSystem = .error error) (above : List Path) :
    (includeGraph files grammar search).below above path = [] := by
  have none : includesOf files grammar path = [] := by
    unfold includesOf
    split
    · rename_i source read
      rw [readSource_flag read] at failure
      cases failure
    · rfl
  simp [OrderedGraph.below, includeGraph, targets, none]

end Agenda

/-! ### The invariant -/

/-- What has been seen comes first in the order, and what the stack leads to comes next. -/
structure InOrder (files : FileSystem) (grammar : Grammar) (search : IncludeSearch) (root : Path)
    (state : Loading) : Prop where
  covers : (includeGraph files grammar search).Covers state.seen (agenda files search state.stack)
  order : state.seen.reverse ++ (includeGraph files grammar search).remaining state.seen
    (agenda files search state.stack) = reachedPaths files grammar search root

theorem inOrder_start {first : SourceFile}
    (read : readSource files grammar root false = .ok first) (diagnostics : List Diagnostic) :
    InOrder files grammar search root ⟨[root], [Frame.ofFile first], [], diagnostics⟩ := by
  -- At first there is nothing but the root on the agenda; the load begins when it has been visited.
  have opening := agenda_ofFile search read []
  obtain ⟨covers, all⟩ := (includeGraph files grammar search).remaining_start root
  obtain ⟨covers, first⟩ := OrderedGraph.remaining_visit covers List.not_mem_nil
  constructor
  · exact opening ▸ covers
  · rw [reachedPaths, ← all, first, opening]
    rfl

theorem InOrder.step {before after : Loading} (step : LoadStep files grammar search before after)
    (inOrder : InOrder files grammar search root before) :
    InOrder files grammar search root after := by
  obtain ⟨covers, order⟩ := inOrder
  cases step with
  | finish => exact ⟨covers, order⟩
  | unresolved nowhere =>
    rw [agenda_unresolved nowhere] at covers order
    exact ⟨covers, order⟩
  | again resolved old =>
    rw [agenda_resolved resolved] at covers order
    obtain ⟨later, same⟩ := OrderedGraph.remaining_skip covers old
    exact ⟨later, same ▸ order⟩
  | enter resolved new read =>
    rw [agenda_resolved resolved] at covers order
    obtain ⟨later, next⟩ := OrderedGraph.remaining_visit covers new
    -- The file goes on top of the stack, so what it includes comes before what is left.
    have opening := agenda_ofFile search read
    constructor
    · exact (opening _).symm ▸ later
    · rw [← order, next, opening]
      simp
  | passOver resolved new failure =>
    rw [agenda_resolved resolved] at covers order
    obtain ⟨later, next⟩ := OrderedGraph.remaining_visit covers new
    -- What cannot be read counts as seen, but leads nowhere.
    rw [below_of_error failure, List.nil_append] at later next
    refine ⟨later, ?_⟩
    rw [← order, next]
    simp

/-- A load that is through has come to everything in order. -/
theorem InOrder.reverse_seen {last : Loading} (inOrder : InOrder files grammar search root last)
    (done : last.stack = []) : last.seen.reverse = reachedPaths files grammar search root := by
  have order := inOrder.order
  rwa [done, agenda, OrderedGraph.remaining_nil, List.append_nil] at order

end CallGraph.Cpp
