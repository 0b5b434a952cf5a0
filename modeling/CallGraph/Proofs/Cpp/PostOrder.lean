import CallGraph.Proofs.Catalog.Entries
import CallGraph.Proofs.Cpp.Loading
import CallGraph.Proofs.FileSystem.Canonical
import CallGraph.Proofs.Syntax.Faults
import Mathlib.Data.List.Chain
import Mathlib.Data.List.Count
import Mathlib.Data.List.Nodup

/-!
# The order of loading

Main result: `loadUnit_post_order`. A unit is loaded whenever its main file can be read. Its files
are those that can be read among the ones that the main file leads to, each once, the main file
last. A file comes after what it includes, unless what it includes leads back to it. Of the includes
that name no file exactly the quoted ones are reported, each once, with a warning at its place.

The stack is a chain of includes up from the file that is being worked on, so a file that is found
on the stack leads to the one that includes it. That is the one way for a file to be finished
before something that it includes (`DepthFirst.ordered`).
-/
namespace CallGraph.Cpp

variable {files : FileSystem} {grammar : Grammar} {search : IncludeSearch} {root : Path}

/-- The files that have been read; those on the stack are not finished. -/
def Loading.reached (state : Loading) : List SourceFile :=
  state.loaded ++ state.stack.map Frame.file

theorem Loading.top_reached (seen : List Path) (file : SourceFile) (includes : List Include)
    (below : List Frame) (loaded : List SourceFile) (diagnostics : List Diagnostic) :
    file ∈ Loading.reached ⟨seen, ⟨file, includes⟩ :: below, loaded, diagnostics⟩ :=
  List.mem_append_right _ List.mem_cons_self

theorem Loading.reached_finish (seen : List Path) (file : SourceFile) (below : List Frame)
    (loaded : List SourceFile) (diagnostics : List Diagnostic) :
    Loading.reached ⟨seen, below, loaded ++ [file], diagnostics⟩ =
      Loading.reached ⟨seen, ⟨file, []⟩ :: below, loaded, diagnostics⟩ := by
  simp [Loading.reached]

theorem Loading.mem_reached_enter {seen later : List Path} {file header source : SourceFile}
    {includes rest : List Include} {below : List Frame} {loaded : List SourceFile}
    {diagnostics reported : List Diagnostic} :
    source ∈ Loading.reached
        ⟨later, Frame.ofFile header :: ⟨file, rest⟩ :: below, loaded, reported⟩ ↔
      source = header ∨
        source ∈ Loading.reached ⟨seen, ⟨file, includes⟩ :: below, loaded, diagnostics⟩ := by
  simp [Loading.reached, Frame.ofFile, or_left_comm]

/-- The paths of some files. -/
def pathsOf (sources : List SourceFile) : List Path := sources.map SourceFile.path

/-- Whether a file counts as a system header; the main file does not. -/
def systemFlag (search : IncludeSearch) (root path : Path) : Bool :=
  path ≠ root && search.isSystem path

/-- What holds while the files are visited depth first. -/
structure DepthFirst (files : FileSystem) (grammar : Grammar) (search : IncludeSearch)
    (root : Path) (state : Loading) : Prop where
  read : ∀ file ∈ state.reached,
    readSource files grammar file.path (systemFlag search root file.path) = .ok file
  distinct : (pathsOf state.reached).Nodup
  reached_iff : ∀ path, path ∈ pathsOf state.reached ↔
    path ∈ state.seen ∧ Readable files grammar path
  leads : ∀ path ∈ state.seen, LeadsTo files grammar search root path
  ends : (pathsOf state.reached).getLast? = some root
  /-- What the includes that are done were resolved to has been seen. -/
  worked : ∀ frame ∈ state.stack, ∃ done, frame.file.includes = done ++ frame.includes ∧
    ∀ directive ∈ done, ∀ path,
      search.resolve files frame.file.path directive.target directive.quoted = some path →
      path ∈ state.seen
  chain : state.stack.IsChain fun inner outer =>
    HasInclude files grammar search outer.file.path inner.file.path
  ordered : ∀ file ∈ state.loaded, ∀ path, HasInclude files grammar search file.path path →
    path ∈ state.seen ∧ (Readable files grammar path →
      [path, file.path].Sublist (pathsOf state.loaded) ∨
        LeadsTo files grammar search path file.path)

/-- The quoted includes of a file that name no file. -/
def SourceFile.lost (files : FileSystem) (search : IncludeSearch) (file : SourceFile) :
    List Include :=
  file.includes.filter fun directive => directive.quoted &&
    (search.resolve files file.path directive.target directive.quoted).isNone

/-- What is reported of a file as such, and of those of its includes that name no file. -/
def SourceFile.reports (files : FileSystem) (search : IncludeSearch) (file : SourceFile) :
    List Diagnostic :=
  file.syntaxErrors ++ (file.lost files search).map (Include.notFound file)

/-- Told include by include, the reports are those that loading makes of each. -/
theorem reports_eq (files : FileSystem) (search : IncludeSearch) (file : SourceFile) :
    file.reports files search =
      file.syntaxErrors ++ file.includes.flatMap (Include.missing files search file) := by
  unfold SourceFile.reports SourceFile.lost
  congr 1
  induction file.includes with
  | nil => rfl
  | cons directive rest ih =>
    rw [List.flatMap_cons, ← ih, Include.missing, List.filter_cons]
    cases search.resolve files file.path directive.target directive.quoted with
    | some path => simp
    | none => cases directive.quoted <;> simp

/-- The diagnostic is about an include of a file among some, which names a file that cannot be
read. -/
def AboutUnread (files : FileSystem) (grammar : Grammar) (search : IncludeSearch)
    (sources : List SourceFile) (diagnostic : Diagnostic) : Prop :=
  ∃ file ∈ sources, ∃ directive ∈ file.includes, ∃ path error,
    search.resolve files file.path directive.target directive.quoted = some path ∧
    readSource files grammar path (search.isSystem path) = .error error ∧
    diagnostic = directive.unread file path error

/-- What has been reported and what the includes still to come will be reported for make up the
reports of all files that have been reached. -/
def Accounted (files : FileSystem) (grammar : Grammar) (search : IncludeSearch)
    (state : Loading) : Prop :=
  ∃ unread, (∀ diagnostic ∈ unread, AboutUnread files grammar search state.reached diagnostic) ∧
    (state.diagnostics ++ state.stack.flatMap fun frame =>
      frame.includes.flatMap (Include.missing files search frame.file)).Perm
        (state.reached.flatMap (SourceFile.reports files search) ++ unread)

/-! ### The start -/

theorem depthFirst_start {first : SourceFile}
    (read : readSource files grammar root false = .ok first) (diagnostics : List Diagnostic) :
    DepthFirst files grammar search root ⟨[root], [Frame.ofFile first], [], diagnostics⟩ := by
  obtain ⟨rfl, _⟩ := readSource_fields read
  constructor
  · intro file member
    obtain rfl := List.mem_singleton.mp member
    simpa [systemFlag] using read
  · exact List.nodup_singleton _
  · intro path
    have readable := readable_of_readSource read
    simp only [Loading.reached, pathsOf, Frame.ofFile, List.map_cons, List.map_nil,
      List.nil_append, List.mem_singleton]
    exact ⟨fun same => ⟨same, same ▸ readable⟩, And.left⟩
  · intro path member
    obtain rfl := List.mem_singleton.mp member
    exact .refl
  · rfl
  · intro frame member
    obtain rfl := List.mem_singleton.mp member
    exact ⟨[], rfl, by simp⟩
  · exact .singleton _
  · simp

theorem accounted_start (first : SourceFile) :
    Accounted files grammar search ⟨[root], [Frame.ofFile first], [], first.syntaxErrors⟩ := by
  refine ⟨[], by simp, ?_⟩
  simp [Loading.reached, Frame.ofFile, reports_eq]

/-! ### The steps -/

namespace DepthFirst

variable {seen : List Path} {file : SourceFile} {directive : Include} {rest : List Include}
  {below : List Frame} {loaded : List SourceFile} {diagnostics : List Diagnostic}

theorem seen_of_reached {state : Loading} (before : DepthFirst files grammar search root state)
    {source : SourceFile} (member : source ∈ state.reached) : source.path ∈ state.seen :=
  ((before.reached_iff source.path).mp (List.mem_map_of_mem member)).1

theorem root_seen {state : Loading} (before : DepthFirst files grammar search root state) :
    root ∈ state.seen :=
  ((before.reached_iff root).mp (List.mem_of_getLast? before.ends)).1

/-- The files on the stack lead to the innermost of them. -/
theorem leads_to_top {frame : Frame} {stack : List Frame}
    (chain : (frame :: stack).IsChain fun inner outer =>
      HasInclude files grammar search outer.file.path inner.file.path)
    {outer : Frame} (member : outer ∈ frame :: stack) :
    LeadsTo files grammar search outer.file.path frame.file.path := by
  induction stack generalizing frame with
  | nil =>
    obtain rfl := List.mem_singleton.mp member
    exact .refl
  | cons next stack ih =>
    obtain ⟨edge, chain⟩ := List.isChain_cons_cons.mp chain
    rcases List.mem_cons.mp member with rfl | deeper
    · exact .refl
    · exact .tail (ih chain deeper) edge

/-- The directive at hand is one of the file's. -/
theorem directive_mem
    (before : DepthFirst files grammar search root
      ⟨seen, ⟨file, directive :: rest⟩ :: below, loaded, diagnostics⟩) :
    directive ∈ file.includes := by
  obtain ⟨done, split, _⟩ := before.worked _ List.mem_cons_self
  rw [split]
  simp

theorem hasInclude_iff {state : Loading} (before : DepthFirst files grammar search root state)
    {source : SourceFile} (member : source ∈ state.reached) {path : Path} :
    HasInclude files grammar search source.path path ↔ ∃ directive ∈ source.includes,
      search.resolve files source.path directive.target directive.quoted = some path := by
  rw [HasInclude, includesOf_of_readSource (before.read source member)]

/-- What the directive at hand is resolved to is included, so the main file leads to it. -/
theorem leads_of_resolved (before : DepthFirst files grammar search root
      ⟨seen, ⟨file, directive :: rest⟩ :: below, loaded, diagnostics⟩) {path : Path}
    (resolved : search.resolve files file.path directive.target directive.quoted = some path) :
    HasInclude files grammar search file.path path ∧
      LeadsTo files grammar search root path := by
  have here := Loading.top_reached seen file (directive :: rest) below loaded diagnostics
  have edge := (before.hasInclude_iff here).mpr ⟨directive, before.directive_mem, resolved⟩
  exact ⟨edge, (before.leads _ (before.seen_of_reached here)).tail edge⟩

theorem mem_of_resolved {path : Path} {later : List Path}
    (resolved : search.resolve files file.path directive.target directive.quoted = some path)
    (member : path ∈ later) (other : Path)
    (found : search.resolve files file.path directive.target directive.quoted = some other) :
    other ∈ later := by
  obtain rfl := Option.some.inj (resolved.symm.trans found)
  exact member

/-- A directive is done once what it was resolved to has been seen. -/
theorem worked_rest (before : DepthFirst files grammar search root
      ⟨seen, ⟨file, directive :: rest⟩ :: below, loaded, diagnostics⟩) {later : List Path}
    (kept : ∀ path ∈ seen, path ∈ later)
    (resolved : ∀ path, search.resolve files file.path directive.target directive.quoted =
      some path → path ∈ later) :
    ∀ frame ∈ ⟨file, rest⟩ :: below, ∃ done, frame.file.includes = done ++ frame.includes ∧
      ∀ other ∈ done, ∀ path,
        search.resolve files frame.file.path other.target other.quoted = some path →
        path ∈ later := by
  intro frame member
  rcases List.mem_cons.mp member with rfl | deeper
  · obtain ⟨done, split, found⟩ := before.worked _ List.mem_cons_self
    refine ⟨done ++ [directive], by simpa using split, fun other among path leadsThere => ?_⟩
    rcases List.mem_append.mp among with old | last
    · exact kept path (found other old path leadsThere)
    · obtain rfl := List.mem_singleton.mp last
      exact resolved path leadsThere
  · obtain ⟨done, split, found⟩ := before.worked frame (List.mem_cons_of_mem _ deeper)
    exact ⟨done, split, fun other among path leadsThere =>
      kept path (found other among path leadsThere)⟩

/-- Which includes are still to come does not matter to the chain of the files. -/
theorem chain_rest {includes : List Include}
    (chain : (⟨file, includes⟩ :: below).IsChain fun inner outer =>
      HasInclude files grammar search outer.file.path inner.file.path) (rest : List Include) :
    (⟨file, rest⟩ :: below).IsChain fun inner outer =>
      HasInclude files grammar search outer.file.path inner.file.path := by
  cases below with
  | nil => exact .singleton _
  | cons next deeper =>
    obtain ⟨edge, chain⟩ := List.isChain_cons_cons.mp chain
    exact List.isChain_cons_cons.mpr ⟨edge, chain⟩

/-- A directive that leads to nothing new that can be read. -/
theorem consume (before : DepthFirst files grammar search root
      ⟨seen, ⟨file, directive :: rest⟩ :: below, loaded, diagnostics⟩) {later : List Path}
    (kept : ∀ path ∈ seen, path ∈ later)
    (added : ∀ path ∈ later, path ∉ seen →
      LeadsTo files grammar search root path ∧ ¬Readable files grammar path)
    (resolved : ∀ path, search.resolve files file.path directive.target directive.quoted =
      some path → path ∈ later) (reported : List Diagnostic) :
    DepthFirst files grammar search root ⟨later, ⟨file, rest⟩ :: below, loaded, reported⟩ := by
  constructor
  · exact before.read
  · exact before.distinct
  · intro path
    rw [show pathsOf (Loading.reached ⟨later, ⟨file, rest⟩ :: below, loaded, reported⟩) =
      pathsOf (Loading.reached ⟨seen, ⟨file, directive :: rest⟩ :: below, loaded, diagnostics⟩)
        from rfl, before.reached_iff]
    constructor
    · exact fun ⟨old, readable⟩ => ⟨kept path old, readable⟩
    · rintro ⟨member, readable⟩
      by_contra new
      exact (added path member fun old => new ⟨old, readable⟩).2 readable
  · intro path member
    by_cases old : path ∈ seen
    · exact before.leads path old
    · exact (added path member old).1
  · exact before.ends
  · exact before.worked_rest kept resolved
  · exact chain_rest before.chain rest
  · intro source finished path edge
    obtain ⟨member, order⟩ := before.ordered source finished path edge
    exact ⟨kept path member, order⟩

/-- A header that is new goes onto the stack, below the file that includes it in the order. -/
theorem enter (before : DepthFirst files grammar search root
      ⟨seen, ⟨file, directive :: rest⟩ :: below, loaded, diagnostics⟩) {path : Path}
    {header : SourceFile}
    (resolved : search.resolve files file.path directive.target directive.quoted = some path)
    (new : path ∉ seen)
    (read : readSource files grammar path (search.isSystem path) = .ok header)
    (reported : List Diagnostic) :
    DepthFirst files grammar search root
      ⟨path :: seen, Frame.ofFile header :: ⟨file, rest⟩ :: below, loaded, reported⟩ := by
  obtain ⟨rfl, _⟩ := readSource_fields read
  have readable := readable_of_readSource read
  obtain ⟨edge, leads⟩ := before.leads_of_resolved resolved
  have notRoot : header.path ≠ root := fun same => new (same ▸ before.root_seen)
  -- The header comes right before the stack among the files that have been reached.
  have reached : pathsOf (Loading.reached
      ⟨header.path :: seen, Frame.ofFile header :: ⟨file, rest⟩ :: below, loaded, reported⟩) =
        pathsOf loaded ++ header.path :: pathsOf (file :: below.map Frame.file) := by
    simp [Loading.reached, pathsOf, Frame.ofFile]
  have reachedBefore : pathsOf (Loading.reached
      ⟨seen, ⟨file, directive :: rest⟩ :: below, loaded, diagnostics⟩) =
        pathsOf loaded ++ pathsOf (file :: below.map Frame.file) := by
    simp [Loading.reached, pathsOf]
  constructor
  · intro source member
    rcases Loading.mem_reached_enter.mp member with rfl | old
    · simpa [systemFlag, notRoot] using read
    · exact before.read source old
  · rw [reached, List.nodup_middle, List.nodup_cons, ← reachedBefore]
    refine ⟨fun old => new ((before.reached_iff _).mp old).1, before.distinct⟩
  · intro path
    have old := before.reached_iff path
    rw [reachedBefore] at old
    rw [reached, List.mem_cons, List.perm_middle.mem_iff, List.mem_cons, old]
    constructor
    · rintro (rfl | ⟨member, canRead⟩)
      · exact ⟨.inl rfl, readable⟩
      · exact ⟨.inr member, canRead⟩
    · rintro ⟨rfl | member, canRead⟩
      · exact .inl rfl
      · exact .inr ⟨member, canRead⟩
  · exact List.forall_mem_cons.mpr ⟨leads, before.leads⟩
  · have last := before.ends
    rw [reachedBefore, List.getLast?_append_of_ne_nil _ (by simp [pathsOf])] at last
    rw [reached, List.getLast?_append_of_ne_nil _ (List.cons_ne_nil _ _)]
    exact last
  · intro frame member
    rcases List.mem_cons.mp member with rfl | deeper
    · exact ⟨[], rfl, by simp⟩
    · exact before.worked_rest (fun _ old => List.mem_cons_of_mem _ old)
        (mem_of_resolved resolved List.mem_cons_self) frame deeper
  · exact List.isChain_cons_cons.mpr ⟨edge, chain_rest before.chain rest⟩
  · intro source finished path edge
    obtain ⟨member, order⟩ := before.ordered source finished path edge
    exact ⟨List.mem_cons_of_mem _ member, order⟩

/-- The innermost file is finished when all of its includes are done. What it includes is finished
by then, or is on the stack and leads to it. -/
theorem finish (before : DepthFirst files grammar search root
      ⟨seen, ⟨file, []⟩ :: below, loaded, diagnostics⟩) :
    DepthFirst files grammar search root ⟨seen, below, loaded ++ [file], diagnostics⟩ := by
  have reached := Loading.reached_finish seen file below loaded diagnostics
  have here := Loading.top_reached seen file [] below loaded diagnostics
  constructor
  · exact reached ▸ before.read
  · exact reached ▸ before.distinct
  · exact reached ▸ before.reached_iff
  · exact before.leads
  · exact reached ▸ before.ends
  · exact fun frame deeper => before.worked frame (List.mem_cons_of_mem _ deeper)
  · exact before.chain.suffix (List.suffix_cons _ _)
  · intro source finished path edge
    rcases List.mem_append.mp finished with old | last
    · obtain ⟨member, order⟩ := before.ordered source old path edge
      refine ⟨member, fun readable => (order readable).imp_left fun earlier => ?_⟩
      rw [pathsOf, List.map_append]
      exact earlier.trans (List.sublist_append_left _ _)
    · obtain rfl := List.mem_singleton.mp last
      obtain ⟨directive, listed, resolved⟩ := (before.hasInclude_iff here).mp edge
      obtain ⟨done, split, found⟩ := before.worked _ List.mem_cons_self
      rw [List.append_nil] at split
      have member := found directive (split ▸ listed) path resolved
      refine ⟨member, fun readable => ?_⟩
      have among := (before.reached_iff path).mpr ⟨member, readable⟩
      obtain ⟨target, isReached, rfl⟩ := List.mem_map.mp among
      rcases List.mem_append.mp isReached with finishedBefore | onStack
      · left
        rw [pathsOf, List.map_append]
        exact (List.singleton_sublist.mpr (List.mem_map_of_mem finishedBefore)).append
          (List.Sublist.refl _)
      · right
        obtain ⟨frame, held, rfl⟩ := List.mem_map.mp onStack
        exact leads_to_top before.chain held

theorem step {before after : Loading} (step : LoadStep files grammar search before after)
    (valid : DepthFirst files grammar search root before) :
    DepthFirst files grammar search root after := by
  cases step with
  | finish => exact valid.finish
  | unresolved nowhere =>
    refine valid.consume (fun _ old => old) (fun _ member new => absurd member new) ?_ _
    intro path found
    rw [nowhere] at found
    cases found
  | again resolved old =>
    exact valid.consume (fun _ old => old) (fun _ member new => absurd member new)
      (mem_of_resolved resolved old) _
  | enter resolved new read => exact valid.enter resolved new read _
  | passOver resolved new failure =>
    refine valid.consume (fun _ old => List.mem_cons_of_mem _ old) ?_
      (mem_of_resolved resolved List.mem_cons_self) _
    intro other member fresh
    obtain rfl := (List.mem_cons.mp member).resolve_right fresh
    refine ⟨(valid.leads_of_resolved resolved).2, ?_⟩
    rintro ⟨source, read⟩
    rw [readSource_flag read] at failure
    cases failure

end DepthFirst

theorem AboutUnread.mono {sources more : List SourceFile} {diagnostic : Diagnostic}
    (about : AboutUnread files grammar search sources diagnostic)
    (subset : ∀ file ∈ sources, file ∈ more) :
    AboutUnread files grammar search more diagnostic := by
  obtain ⟨file, member, rest⟩ := about
  exact ⟨file, subset file member, rest⟩

theorem missing_of_resolved {file : SourceFile} {directive : Include} {path : Path}
    (resolved : search.resolve files file.path directive.target directive.quoted = some path) :
    directive.missing files search file = [] := by
  rw [Include.missing, resolved]

/-- Each step reports what it takes from the includes to come, or what it adds to the files. -/
theorem Accounted.step {before after : Loading} (step : LoadStep files grammar search before after)
    (valid : DepthFirst files grammar search root before)
    (accounted : Accounted files grammar search before) :
    Accounted files grammar search after := by
  obtain ⟨unread, about, same⟩ := accounted
  rw [List.perm_iff_count] at same
  cases step with
  | finish seen file below loaded diagnostics =>
    have reached := Loading.reached_finish seen file below loaded diagnostics
    refine ⟨unread, reached ▸ about, ?_⟩
    rw [List.perm_iff_count, reached]
    simpa using same
  | unresolved nowhere =>
    refine ⟨unread, about, ?_⟩
    rw [List.perm_iff_count]
    intro diagnostic
    have here := same diagnostic
    simp only [Loading.reached, List.flatMap_cons, List.count_append, List.map_cons] at here ⊢
    omega
  | again resolved old =>
    refine ⟨unread, about, ?_⟩
    rw [List.perm_iff_count]
    simpa [Loading.reached, missing_of_resolved resolved] using same
  | @enter seen file header directive rest below loaded diagnostics path resolved new read =>
    refine ⟨unread, fun diagnostic member => (about diagnostic member).mono fun source old =>
      Loading.mem_reached_enter.mpr (.inr old), ?_⟩
    · rw [List.perm_iff_count]
      intro diagnostic
      have here := same diagnostic
      simp only [Loading.reached, Frame.ofFile, reports_eq, List.flatMap_cons,
        List.flatMap_append, List.count_append, List.map_cons, missing_of_resolved resolved,
        List.count_nil] at here ⊢
      omega
  | @passOver seen file directive rest below loaded diagnostics path error resolved new failure =>
    refine ⟨directive.unread file path error :: unread, ?_, ?_⟩
    · rintro diagnostic (_ | ⟨_, old⟩)
      · exact ⟨file, Loading.top_reached _ _ _ _ _ _, directive, valid.directive_mem, path, error,
          resolved, failure, rfl⟩
      · exact about diagnostic old
    · rw [List.perm_iff_count]
      intro diagnostic
      have here := same diagnostic
      simp only [Loading.reached, List.flatMap_cons, List.count_append, List.map_cons,
        missing_of_resolved resolved, List.count_nil, List.count_cons] at here ⊢
      omega

/-! ### The places of includes -/

/-- The include comes from a directive of the file and stands where the directive begins: right
behind the text before it. It is quoted if its path is written as a string. -/
def Include.Placed (file : SourceFile) (directive : Include) : Prop :=
  ∃ node path : Node, node.Inside (.ofTree file.tree) ∧ node.kind = "preproc_include" ∧
    node.field? "path" = some path ∧
    (directive.quoted = true ↔ path.kind = "string_literal") ∧
    ∀ before rest, file.text.toList = before ++ rest → Position.size before = node.start →
      directive.position = Position.behind before

theorem placed_of_mem_includes {file : SourceFile} {directive : Include}
    (member : directive ∈ file.includes) : directive.Placed file := by
  obtain ⟨node, visited, found⟩ := List.mem_filterMap.mp member
  unfold include? at found
  split at found
  · rename_i kind
    obtain ⟨path, hasPath, rfl⟩ := Option.map_eq_some_iff.mp found
    refine ⟨node, path, Node.inside_of_mem_visit visited, kind, hasPath, beq_iff_eq, ?_⟩
    intro before rest split begins
    rw [← begins, Position.ofOffset_eq_behind split]
  · cases found

/-! ### The unit -/

/-- The files of a unit are those that its main file leads to, in post-order, and its diagnostics
are theirs. -/
structure PostOrder (files : FileSystem) (grammar : Grammar) (search : IncludeSearch)
    (root : Path) (unit : LoadedUnit) : Prop where
  read : ∀ file ∈ unit.files,
    readSource files grammar file.path (systemFlag search root file.path) = .ok file
  distinct : (pathsOf unit.files).Nodup
  canonical : ∀ path ∈ pathsOf unit.files, ∃ written, files.canonical? written = some path
  mem_iff : ∀ path, path ∈ pathsOf unit.files ↔
    Readable files grammar path ∧ LeadsTo files grammar search root path
  ends : (pathsOf unit.files).getLast? = some root
  ordered : ∀ includer included, HasInclude files grammar search includer included →
    includer ∈ pathsOf unit.files → included ∈ pathsOf unit.files →
    ¬LeadsTo files grammar search included includer →
    [included, includer].Sublist (pathsOf unit.files)
  /-- Besides syntax errors and includes that cannot be read, each quoted include that names no file
  is reported once, by a warning with its file, line and column. -/
  reported : ∃ unread,
    (∀ diagnostic ∈ unread, AboutUnread files grammar search unit.files diagnostic) ∧
    unit.diagnostics.Perm (unit.files.flatMap (SourceFile.reports files search) ++ unread)
  placed : ∀ file ∈ unit.files, ∀ directive ∈ file.includes, directive.Placed file

theorem canonical_of_leadsTo {main path : Path} (found : files.canonical? main = some root)
    (leads : LeadsTo files grammar search root path) :
    ∃ written, files.canonical? written = some path := by
  rcases Relation.ReflTransGen.cases_tail leads with rfl | ⟨_, _, _, _, resolved⟩
  · exact ⟨main, found⟩
  · exact canonical?_of_resolve resolved

/-- A load that is through has visited all that its main file leads to. -/
theorem postOrder_of_depthFirst {main : Path} {last : Loading}
    (found : files.canonical? main = some root) (done : last.stack = [])
    (valid : DepthFirst files grammar search root last)
    (accounted : Accounted files grammar search last) :
    PostOrder files grammar search root ⟨last.loaded, last.diagnostics⟩ := by
  have reached : last.reached = last.loaded := by simp [Loading.reached, done]
  have closed (path) (leads : LeadsTo files grammar search root path) : path ∈ last.seen := by
    induction leads with
    | refl => exact valid.root_seen
    | tail _ edge ih =>
      have among := (valid.reached_iff _).mpr ⟨ih, readable_of_hasInclude edge⟩
      obtain ⟨source, finished, rfl⟩ := List.mem_map.mp (reached ▸ among)
      exact (valid.ordered source finished _ edge).1
  have reachedIff := valid.reached_iff
  rw [reached] at reachedIff
  constructor
  · exact reached ▸ valid.read
  · exact reached ▸ valid.distinct
  · intro path member
    exact canonical_of_leadsTo found (valid.leads path ((reachedIff path).mp member).1)
  · intro path
    rw [reachedIff]
    constructor
    · exact fun ⟨member, readable⟩ => ⟨readable, valid.leads path member⟩
    · exact fun ⟨readable, leads⟩ => ⟨closed path leads, readable⟩
  · exact reached ▸ valid.ends
  · intro includer included edge finished among apart
    obtain ⟨source, member, rfl⟩ := List.mem_map.mp finished
    obtain ⟨_, order⟩ := valid.ordered source member included edge
    exact (order ((reachedIff included).mp among).2).resolve_right apart
  · obtain ⟨unread, about, same⟩ := accounted
    refine ⟨unread, reached ▸ about, ?_⟩
    simpa [done, reached] using same
  · exact fun file _ directive member => placed_of_mem_includes member

theorem loadUnit_of_readSource {main : Path} {first : SourceFile}
    (found : files.canonical? main = some root)
    (read : readSource files grammar root false = .ok first) :
    ∃ unit, loadUnit files grammar search main = .ok unit ∧
      PostOrder files grammar search root unit := by
  obtain ⟨last, ⟨valid, accounted⟩, done, loaded⟩ := load_induction
    (motive := fun state => DepthFirst files grammar search root state ∧
      Accounted files grammar search state)
    (fun _ _ step ⟨valid, accounted⟩ => ⟨valid.step step, accounted.step step valid⟩)
    ⟨depthFirst_start read first.syntaxErrors, accounted_start first⟩
  refine ⟨_, ?_, postOrder_of_depthFirst found done valid accounted⟩
  rw [loadUnit, found]
  simp only [read]
  rw [loaded]

theorem postOrder_of_loadUnit {main : Path} {unit : LoadedUnit}
    (success : loadUnit files grammar search main = .ok unit) :
    ∃ root, files.canonical? main = some root ∧ PostOrder files grammar search root unit := by
  have inverse := success
  unfold loadUnit at inverse
  split at inverse
  · cases inverse
  · rename_i root found
    split at inverse
    · cases inverse
    · rename_i first read
      obtain ⟨same, again, postOrder⟩ := loadUnit_of_readSource found read
      obtain rfl := Except.ok.inj (again.symm.trans success)
      exact ⟨root, found, postOrder⟩

section Example

private def includeTree (kind path : String) (start : Nat) : SyntaxTree :=
  .node ⟨"preproc_include", none, true, false, false, false, path, start⟩
    [.node ⟨kind, some "path", true, false, false, false, path, start⟩ []]

private def mainText : String := "#include \"a.h\"\n#include \"c.h\"\n#include <c.h>\n"

private def mainIncludes : List SyntaxTree := [includeTree "string_literal" "\"a.h\"" 0,
  includeTree "string_literal" "\"c.h\"" 15, includeTree "system_lib_string" "<c.h>" 30]

/-- A text other than that of the main file is the name that it includes. -/
private def cyclicGrammar : Grammar := fun text =>
  some (.node ⟨"translation_unit", none, true, false, false, false, text, 0⟩
    (if text = mainText then mainIncludes else [includeTree "string_literal" text 0]))

/-- The two headers include each other. -/
private def cyclicHeaders : FileSystem :=
  [(⟨"/w/m.cpp"⟩, mainText), (⟨"/w/a.h"⟩, "b.h"), (⟨"/w/b.h"⟩, "a.h")].foldl
    (fun files (path, text) => files.addFile path (Utf8.encode text)) (.empty ⟨"/w"⟩)

/-- The paths that a file's includes are resolved to. -/
private def targetsOf (path : Path) : List (Option Path) :=
  (includesOf cyclicHeaders cyclicGrammar path).map fun directive =>
    IncludeSearch.resolve ⟨[], [], []⟩ cyclicHeaders path directive.target directive.quoted

private theorem hasInclude_iff_target {includer included : Path} :
    HasInclude cyclicHeaders cyclicGrammar ⟨[], [], []⟩ includer included ↔
      some included ∈ targetsOf includer := by
  simp [HasInclude, targetsOf]

private theorem headers_lead_to_headers {path : Path}
    (leads : LeadsTo cyclicHeaders cyclicGrammar ⟨[], [], []⟩ ⟨"/w/a.h"⟩ path) :
    path = ⟨"/w/a.h"⟩ ∨ path = ⟨"/w/b.h"⟩ := by
  have ofFirst : targetsOf ⟨"/w/a.h"⟩ = [some ⟨"/w/b.h"⟩] := by decide +kernel
  have ofSecond : targetsOf ⟨"/w/b.h"⟩ = [some ⟨"/w/a.h"⟩] := by decide +kernel
  induction leads with
  | refl => exact .inl rfl
  | tail _ edge ih =>
    rw [hasInclude_iff_target] at edge
    rcases ih with rfl | rfl
    · rw [ofFirst] at edge
      exact .inr (by simpa using edge)
    · rw [ofSecond] at edge
      exact .inl (by simpa using edge)

private theorem main_leads_to_headers {path : Path}
    (leads : LeadsTo cyclicHeaders cyclicGrammar ⟨[], [], []⟩ ⟨"/w/m.cpp"⟩ path) :
    path = ⟨"/w/m.cpp"⟩ ∨ path = ⟨"/w/a.h"⟩ ∨ path = ⟨"/w/b.h"⟩ := by
  have ofMain : targetsOf ⟨"/w/m.cpp"⟩ = [some ⟨"/w/a.h"⟩, none, none] := by decide +kernel
  rcases Relation.ReflTransGen.cases_head leads with rfl | ⟨header, edge, onward⟩
  · exact .inl rfl
  · rw [hasInclude_iff_target, ofMain] at edge
    obtain rfl : header = ⟨"/w/a.h"⟩ := by simpa using edge
    exact .inr (headers_lead_to_headers onward)

private def unitSource (path text : String) (includes : List SyntaxTree) (isSystem : Bool) :
    SourceFile :=
  ⟨⟨path⟩, text, .node ⟨"translation_unit", none, true, false, false, false, text, 0⟩ includes,
    isSystem⟩

private theorem read_main (isSystem : Bool) :
    readSource cyclicHeaders cyclicGrammar ⟨"/w/m.cpp"⟩ isSystem =
      .ok (unitSource "/w/m.cpp" mainText mainIncludes isSystem) := rfl

private theorem read_first (isSystem : Bool) :
    readSource cyclicHeaders cyclicGrammar ⟨"/w/a.h"⟩ isSystem =
      .ok (unitSource "/w/a.h" "b.h" [includeTree "string_literal" "b.h" 0] isSystem) := rfl

private theorem read_second (isSystem : Bool) :
    readSource cyclicHeaders cyclicGrammar ⟨"/w/b.h"⟩ isSystem =
      .ok (unitSource "/w/b.h" "a.h" [includeTree "string_literal" "a.h" 0] isSystem) := rfl

/-- All files of the unit can be read, and only the main file has an include that names none. -/
private theorem reports_cyclicHeaders {file : SourceFile} {isSystem : Bool}
    (read : readSource cyclicHeaders cyclicGrammar file.path isSystem = .ok file)
    (leads : LeadsTo cyclicHeaders cyclicGrammar ⟨[], [], []⟩ ⟨"/w/m.cpp"⟩ file.path) :
    file.reports cyclicHeaders ⟨[], [], []⟩ = if file.path = ⟨"/w/m.cpp"⟩ then
      [⟨.warning, "'c.h' file not found", ⟨"/w/m.cpp"⟩, 2, 1⟩] else [] := by
  rcases main_leads_to_headers leads with isFile | isFile | isFile <;> rw [isFile] at read
  · cases (read_main isSystem).symm.trans read
    cases isSystem <;> decide +kernel
  · cases (read_first isSystem).symm.trans read
    cases isSystem <;> decide +kernel
  · cases (read_second isSystem).symm.trans read
    cases isSystem <;> decide +kernel

private theorem readable_cyclicHeaders {path : Path} (isSystem : Bool)
    (leads : LeadsTo cyclicHeaders cyclicGrammar ⟨[], [], []⟩ ⟨"/w/m.cpp"⟩ path) (error : Error) :
    readSource cyclicHeaders cyclicGrammar path isSystem ≠ .error error := by
  rcases main_leads_to_headers leads with rfl | rfl | rfl <;>
    simp [read_main, read_first, read_second]

end Example

end CallGraph.Cpp
