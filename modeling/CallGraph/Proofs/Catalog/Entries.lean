import CallGraph.Index.Pending
import CallGraph.Proofs.FileSystem.Canonical

/-!
# Entries of a catalog

Main result: `entries_ofPath`. However a catalog is opened, the arguments of each file end with the
extra ones, and the path of a file is canonical if the file exists. However it is built, no two of
its paths are the same (`Built.distinct`).
-/
namespace CallGraph

theorem forall_mem_of_mapM {ε α β : Type} {f : α → Except ε β} {P : β → Prop} {xs : List α}
    {ys : List β} (each : ∀ x y, f x = .ok y → P y) (success : xs.mapM f = .ok ys) :
    ∀ y ∈ ys, P y := by
  induction xs generalizing ys with
  | nil =>
    cases success
    simp
  | cons x xs ih =>
    rw [List.mapM_cons] at success
    cases first : f x with
    | error error =>
      rw [first] at success
      cases success
    | ok y =>
      cases rest : xs.mapM f with
      | error error =>
        rw [first, rest] at success
        cases success
      | ok others =>
        rw [first, rest] at success
        cases success
        intro z member
        rcases List.mem_cons.mp member with rfl | later
        · exact each x z first
        · exact ih rest z later

namespace Catalog

/-- What holds of the files and of the arguments of some assignments. -/
def ForEach (OfFile : Path → Prop) (OfArguments : List String → Prop)
    (entries : List (Path × List String)) : Prop :=
  ∀ entry ∈ entries, OfFile entry.1 ∧ OfArguments entry.2

variable {OfFile : Path → Prop} {OfArguments : List String → Prop}

/-- An entry keeps its path when its arguments are set anew. -/
theorem ForEach.setArguments {entries : List (Path × List String)} {file : Path}
    {arguments : List String} (each : ForEach OfFile OfArguments entries) (ofFile : OfFile file)
    (ofArguments : OfArguments arguments) :
    ForEach OfFile OfArguments (setArguments file arguments entries) := by
  induction entries with
  | nil => simpa [ForEach, Catalog.setArguments] using ⟨ofFile, ofArguments⟩
  | cons first rest ih =>
    obtain ⟨known, old⟩ := first
    have here := each (known, old) List.mem_cons_self
    have later : ForEach OfFile OfArguments rest :=
      fun entry member => each entry (List.mem_cons_of_mem _ member)
    rw [Catalog.setArguments]
    split
    · exact List.forall_mem_cons.mpr ⟨⟨here.1, ofArguments⟩, later⟩
    · exact List.forall_mem_cons.mpr ⟨here, ih later⟩

theorem ForEach.ofAssignments {assignments : List (Path × List String)}
    (each : ForEach OfFile OfArguments assignments) :
    ForEach OfFile OfArguments (ofAssignments assignments) := by
  refine List.foldlRecOn (motive := ForEach OfFile OfArguments) assignments _ (by simp [ForEach]) ?_
  intro entries known assignment member
  obtain ⟨ofFile, ofArguments⟩ := each assignment member
  exact known.setArguments ofFile ofArguments

end Catalog

/-- A path that is canonical if it leads anywhere. -/
def FileSystem.Settles (files : FileSystem) (path : Path) : Prop :=
  ∀ place, files.canonical? path = some place → place = path

theorem FileSystem.settles_canonical {files : FileSystem} (wellNamed : files.WellNamed)
    (path : Path) : files.Settles (files.canonical path) := by
  intro place found
  cases leads : files.canonical? path with
  | none =>
    -- The path stays as it is, and so it still leads nowhere.
    have same : files.canonical path = path := by rw [canonical, leads, Option.getD_none]
    rw [same, leads] at found
    cases found
  | some settled =>
    have same : files.canonical path = settled := by rw [canonical, leads, Option.getD_some]
    have again := canonical?_canonical wellNamed leads
    rw [same] at found ⊢
    exact Option.some.inj (found.symm.trans again)

namespace Catalog

variable {files : FileSystem} {path : Path} {extra : List String} {catalog : Catalog}

theorem assignment_ends {base : Path} {entry : Database.Entry} {made : Path × List String}
    (wellNamed : files.WellNamed) (success : assignment files base extra entry = .ok made) :
    files.Settles made.1 ∧ extra <:+ made.2 := by
  rw [assignment] at success
  cases raw : rawArguments entry with
  | error reason =>
    rw [raw] at success
    cases success
  | ok words =>
    rw [raw] at success
    cases success
    exact ⟨FileSystem.settles_canonical wellNamed _, List.suffix_append _ _⟩

theorem entries_ofDatabase (wellNamed : files.WellNamed)
    (opened : ofDatabase files path extra = .ok catalog) :
    ForEach files.Settles (extra <:+ ·) catalog.entries := by
  unfold ofDatabase at opened
  split at opened
  · cases opened
  · split at opened
    · cases opened
    · dsimp only at opened
      split at opened
      · cases opened
      · rename_i assignments assigned
        cases opened
        exact .ofAssignments (forall_mem_of_mapM (fun _ _ => assignment_ends wellNamed) assigned)

/-- Whatever catalog a path stands for, its arguments end with the extra ones. -/
theorem entries_ofPath (wellNamed : files.WellNamed)
    (opened : ofPath files path extra = .ok catalog) :
    ForEach files.Settles (extra <:+ ·) catalog.entries := by
  unfold ofPath at opened
  split at opened
  · cases opened
  · split at opened
    · exact entries_ofDatabase wellNamed opened
    · cases opened
      have settles := FileSystem.settles_canonical wellNamed path
      simpa [ForEach, ofSourceFile] using settles

/-- A catalog that cannot be opened is missing, unreadable or malformed. -/
theorem error_of_ofPath {error : Error} (failure : ofPath files path extra = .error error) :
    error = .sourceNotFound path ∨ (∃ cause, error = .io cause) ∨
      ∃ reason, error = .invalidDatabase path reason := by
  unfold ofPath at failure
  split at failure
  · cases failure
    exact .inl rfl
  · split at failure
    · unfold ofDatabase at failure
      split at failure
      · cases failure
        exact .inr (.inl ⟨_, rfl⟩)
      · split at failure
        · cases failure
          exact .inr (.inr ⟨_, rfl⟩)
        · dsimp only at failure
          split at failure
          · cases failure
            exact .inr (.inr ⟨_, rfl⟩)
          · cases failure
    · cases failure

/-! ### Paths that are listed once -/

/-- Setting the arguments of a file lists its path, unless it is listed already. -/
theorem map_fst_setArguments (file : Path) (arguments : List String)
    (entries : List (Path × List String)) :
    (setArguments file arguments entries).map Prod.fst =
      addPath (entries.map Prod.fst) file := by
  have symmetric : ∀ known : Path, known.same file = file.same known :=
    fun known => Bool.beq_comm
  induction entries with
  | nil => rfl
  | cons first rest ih =>
    obtain ⟨known, old⟩ := first
    rw [setArguments, symmetric]
    by_cases here : file.same known = true
    · simp [here, addPath]
    · rw [if_neg here, List.map_cons, ih, List.map_cons]
      by_cases later : (rest.map Prod.fst).any file.same = true
      · simp only [addPath, List.any_cons, later, Bool.or_true, if_true]
      · simp only [addPath, List.any_cons, later, here, Bool.or_false, Bool.false_eq_true, if_false,
          List.cons_append]

/-- No two of some paths are the same. -/
def Distinct (paths : List Path) : Prop := (paths.map Path.components).Nodup

theorem Distinct.addPath {paths : List Path} (distinct : Distinct paths) (path : Path) :
    Distinct (addPath paths path) := by
  unfold CallGraph.addPath
  split
  · exact distinct
  · rename_i new
    have unlisted : path.components ∉ paths.map Path.components := by
      intro listed
      obtain ⟨known, member, same⟩ := List.mem_map.mp listed
      exact new (List.any_eq_true.mpr ⟨known, member, Path.same_iff.mpr same.symm⟩)
    rw [Distinct, List.map_append, List.map_singleton]
    exact List.nodup_append.mpr ⟨distinct, by simp, by simpa using unlisted⟩

theorem distinct_ofAssignments (assignments : List (Path × List String)) :
    Distinct ((ofAssignments assignments).map Prod.fst) := by
  refine List.foldlRecOn (motive := fun entries : List (Path × List String) =>
    Distinct (entries.map Prod.fst)) assignments _ List.nodup_nil ?_
  intro entries distinct assignment _
  rw [map_fst_setArguments]
  exact distinct.addPath assignment.1

/-- All ways to come by a catalog. -/
inductive Built (files : FileSystem) : Catalog → Prop where
  | ofSourceFile (path : Path) (extra : List String) : Built files (ofSourceFile files path extra)
  | ofDatabase {path : Path} {extra : List String} {catalog : Catalog}
    (read : Catalog.ofDatabase files path extra = .ok catalog) : Built files catalog
  | ofEntries (source : Path) (entries : List (Path × List String)) :
    Built files (ofEntries files source entries)

theorem Built.of_ofPath (opened : ofPath files path extra = .ok catalog) :
    Built files catalog := by
  unfold ofPath at opened
  split at opened
  · cases opened
  · split at opened
    · exact .ofDatabase opened
    · cases opened
      exact .ofSourceFile path extra

theorem Built.settles (built : Built files catalog) (wellNamed : files.WellNamed) :
    ∀ file ∈ catalog.paths, files.Settles file := by
  intro file listed
  obtain ⟨entry, member, rfl⟩ := List.mem_map.mp listed
  cases built with
  | ofSourceFile path extra =>
    rw [List.mem_singleton.mp member]
    exact FileSystem.settles_canonical wellNamed path
  | ofDatabase read => exact (entries_ofDatabase wellNamed read entry member).1
  | ofEntries source entries =>
    have each : ForEach files.Settles (fun _ => True)
        (entries.map fun entry => (files.canonical entry.1, entry.2)) := by
      intro assignment assigned
      obtain ⟨given, _, rfl⟩ := List.mem_map.mp assigned
      exact ⟨FileSystem.settles_canonical wellNamed given.1, trivial⟩
    exact (each.ofAssignments entry member).1

theorem Built.distinct (built : Built files catalog) : Distinct catalog.paths := by
  cases built with
  | ofSourceFile path extra => exact List.pairwise_singleton _ _
  | ofDatabase read =>
    unfold Catalog.ofDatabase at read
    split at read
    · cases read
    · split at read
      · cases read
      · dsimp only at read
        split at read
        · cases read
        · cases read
          exact distinct_ofAssignments _
  | ofEntries source entries => exact distinct_ofAssignments _

/-- A file has arguments only if a path of the catalog is its canonical one. -/
theorem listed_of_arguments? {file : Path} {arguments : List String}
    (found : catalog.arguments? files file = some arguments) :
    ∃ listed ∈ catalog.paths, listed.same (files.canonical file) = true := by
  obtain ⟨entry, atEntry, _⟩ := Option.map_eq_some_iff.mp found
  have same := List.find?_some atEntry
  exact ⟨entry.1, List.mem_map_of_mem (List.mem_of_find?_eq_some atEntry), same⟩

end Catalog

end CallGraph
