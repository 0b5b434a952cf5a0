import CallGraph.Catalog.Basic
import CallGraph.Index.Pending
import CallGraph.Proofs.DisplayRoot.CommonDirectory

/-!
# Labels of paths

Main result: `labels_lossless`. A label shows a path in full or by what follows the display root, and
which of the two it is can be seen from the label: joined to the root, it gives the path back. So two
paths never have one label. If the root is the common directory of a catalog, no label of its files
is shown in full.
-/
namespace CallGraph

theorem Path.components_of_isAbsolute {path : Path} (absolute : path.isAbsolute = true) :
    [Component.root] <+: path.components := by
  have front : path.front = .root := by simpa [isAbsolute] using absolute
  rw [components, front]
  exact List.prefix_append [Component.root] _

theorem FileSystem.isAbsolute_of_canonical? {files : FileSystem} {path place : Path}
    (found : files.canonical? path = some place) : place.isAbsolute = true := by
  unfold canonical? at found
  split at found
  · cases found
    simp [Path.isAbsolute, Path.front, Path.ofLocation, Path.splitFront]
  · cases found

namespace DisplayRoot

theorem label_cases (root : DisplayRoot) (path : Path) :
    root.label path = path.text ∨ ∃ directory rest, root.path? = some directory ∧
      path.stripBase? directory = some rest ∧ root.label path = rest.text := by
  unfold label
  split
  · rename_i rest found
    obtain ⟨directory, atRoot, stripped⟩ := Option.bind_eq_some_iff.mp found
    split
    · exact .inl rfl
    · exact .inr ⟨directory, rest, atRoot, stripped, rfl⟩
  · exact .inl rfl

/-- The path that a label stands for. -/
def named (root : DisplayRoot) (label : String) : Path :=
  match root.path? with
  | some directory => directory.join ⟨label⟩
  | none => ⟨label⟩

/-- The label of an absolute path stands for that path. -/
theorem components_named_label (root : DisplayRoot) {path : Path}
    (absolute : path.isAbsolute = true) :
    (root.named (root.label path)).components = path.components := by
  rcases root.label_cases path with full | ⟨directory, rest, atRoot, stripped, short⟩
  · rw [full, named]
    split
    · rw [Path.join_of_isAbsolute absolute]
    · rfl
  · obtain ⟨again, front⟩ := Path.components_of_stripBase? stripped
    rw [short, named, atRoot, again]
    change (directory.join rest).components = _
    by_cases empty : directory.components = []
    · rw [Path.join_of_components_eq_nil empty, empty, List.nil_append]
    · rw [if_neg empty] at front
      rw [Path.components_join empty (by simp [Path.isAbsolute, front]),
        Path.stepsIn_of_front_eq_none front]

/-- A path below the display root is shown by what follows the root. -/
theorem label_below {root : DisplayRoot} {directory path : Path} {more : List Component}
    (atRoot : root.path? = some directory) (nonempty : directory.components ≠ [])
    (split : path.components = directory.components ++ more) (below : more ≠ []) :
    ∃ rest : Path, root.label path = rest.text ∧ rest.front = .none ∧ rest.components = more := by
  have leads : path.stripBase? directory ≠ none :=
    fun apart => Path.stripBase?_eq_none_iff.mp apart ⟨more, split.symm⟩
  obtain ⟨rest, stripped⟩ := Option.ne_none_iff_exists'.mp leads
  obtain ⟨again, front⟩ := Path.components_of_stripBase? stripped
  rw [if_neg nonempty] at front
  have same : rest.components = more := List.append_cancel_left (again.symm.trans split)
  have written : rest.text ≠ "" := mt Path.components_eq_nil_iff.mpr (same ▸ below)
  refine ⟨rest, ?_, front, same⟩
  rw [label, atRoot, Option.bind_some, stripped]
  exact if_neg written

/-- The common directory of absolute paths other than the root leads each of them, and is neither
empty nor the whole of it. -/
theorem leads_of_commonDirectory? {paths : List Path} {common : Path}
    (found : commonDirectory? paths = some common)
    (proper : ∀ path ∈ paths, path.isAbsolute = true ∧ path.components ≠ [.root]) :
    common.components ≠ [] ∧
      ∀ path ∈ paths, ∃ more, more ≠ [] ∧ path.components = common.components ++ more := by
  have nonempty : paths ≠ [] := by
    rintro rfl
    cases found
  obtain ⟨same, foundToo, isLead⟩ := greatestLead_commonDirectory? nonempty
  cases found.symm.trans foundToo
  have above (path : Path) (listed : path ∈ paths) : ∃ last, last ≠ .root ∧
      path.components = (directoryOf path).components ++ [last] := by
    have absolute := Path.components_of_isAbsolute (proper path listed).1
    rcases path.parent?_cases with ⟨_, empty | root⟩ | ⟨directory, last, parent, step, split⟩
    · rw [empty] at absolute
      simp at absolute
    · exact absurd root (proper path listed).2
    · exact ⟨last, step, by rw [directoryOf, parent]; exact split⟩
  constructor
  · -- The root leads all directories, and so it leads what they share.
    have rooted : [Component.root] <+: common.components := by
      refine isLead.greatest _ fun components member => ?_
      obtain ⟨path, listed, rfl⟩ := List.mem_map.mp member
      obtain ⟨last, step, split⟩ := above path listed
      have absolute := Path.components_of_isAbsolute (proper path listed).1
      rw [split] at absolute
      refine (List.prefix_concat_iff.mp absolute).resolve_left fun same => ?_
      cases above : (directoryOf path).components with
      | nil =>
        rw [above] at same
        exact step (List.cons.inj same).1.symm
      | cons first rest =>
        rw [above] at same
        simp at same
    intro empty
    rw [empty] at rooted
    simp at rooted
  · intro path listed
    obtain ⟨last, _, split⟩ := above path listed
    obtain ⟨between, same⟩ := isLead.leads _ (List.mem_map_of_mem listed)
    exact ⟨between ++ [last], by simp, by rw [split, ← same, List.append_assoc]⟩

/-- A label tells which path it stands for. Whatever the display root, two absolute paths have one
label only if they are the same path, and two units of a file system only if they are one unit. If
the root is that of a catalog, and all files of the catalog are absolute paths other than the root of
the file system, then the label of each is a relative path that is not empty, and gives the file back
when it is joined to the display root. -/
theorem labels_lossless :
    (∀ (root : DisplayRoot) (left right : Path), left.isAbsolute = true → right.isAbsolute = true →
      root.label left = root.label right → left.same right = true) ∧
    (∀ (root : DisplayRoot) (files : FileSystem) (left right unit other : Path), files.WellNamed →
      files.canonical? left = some unit → files.canonical? right = some other →
      root.label unit = root.label other → unit = other) ∧
    ∀ catalog : Catalog,
      (∀ file ∈ catalog.paths, file.isAbsolute = true ∧ file.components ≠ [.root]) →
      ∀ file ∈ catalog.paths, ∃ directory, catalog.displayRoot.path? = some directory ∧
        let label : Path := ⟨catalog.displayRoot.label file⟩
        label.isAbsolute = false ∧ label.text ≠ "" ∧ (directory.join label).same file = true := by
  have injective (root : DisplayRoot) {left right : Path} (absoluteLeft : left.isAbsolute = true)
      (absoluteRight : right.isAbsolute = true) (same : root.label left = root.label right) :
      left.components = right.components := by
    rw [← root.components_named_label absoluteLeft, same, root.components_named_label absoluteRight]
  refine ⟨fun root left right absoluteLeft absoluteRight same => ?_, ?_, ?_⟩
  · exact Path.same_iff.mpr (injective root absoluteLeft absoluteRight same)
  · intro root files left right unit other wellNamed atLeft atRight same
    exact FileSystem.eq_of_components_eq wellNamed atLeft atRight
      (injective root (FileSystem.isAbsolute_of_canonical? atLeft)
        (FileSystem.isAbsolute_of_canonical? atRight) same)
  · intro catalog proper file listed
    obtain ⟨directory, found, _⟩ := greatestLead_commonDirectory? (List.ne_nil_of_mem listed)
    obtain ⟨nonempty, leads⟩ := leads_of_commonDirectory? found proper
    obtain ⟨more, moreNonempty, split⟩ := leads file listed
    have atRoot : catalog.displayRoot.path? = some directory := found
    obtain ⟨rest, shown, front, same⟩ := label_below atRoot nonempty split moreNonempty
    have back := components_named_label catalog.displayRoot (proper file listed).1
    rw [named, atRoot] at back
    refine ⟨directory, atRoot, ?_, ?_, Path.same_iff.mpr back⟩
    · rw [shown]
      simp [Path.isAbsolute, front]
    · rw [shown]
      exact mt Path.components_eq_nil_iff.mpr (same ▸ moreNonempty)

section Example

private def sourceRoot : DisplayRoot := ⟨some ⟨"/w/src"⟩⟩

private def labelledFiles : FileSystem := (FileSystem.empty ⟨"/w"⟩).addFile ⟨"/w/src/x.cpp"⟩ []

/-- Neither file exists, so the paths are kept as they are written. -/
private def labelledCatalog : Catalog :=
  .ofEntries labelledFiles ⟨"/w"⟩ [(⟨"/w/src//a.cpp"⟩, []), (⟨"/w/lib/../b.cpp"⟩, [])]

/-- Doubled slashes, a `.` and a slash at the end do not show in a label, but what lies between the
steps below the root does. -/
theorem labels_of_written_paths :
    (sourceRoot.label ⟨"/w/src/x.cpp"⟩ = sourceRoot.label ⟨"/w//src/./x.cpp/"⟩ ∧
      Path.same ⟨"/w/src/x.cpp"⟩ ⟨"/w//src/./x.cpp/"⟩ = true) ∧
    (∃ unit other, labelledFiles.canonical? ⟨"src/x.cpp"⟩ = some unit ∧
      labelledFiles.canonical? ⟨"/w/./src//x.cpp"⟩ = some other ∧
      sourceRoot.label unit = sourceRoot.label other ∧ unit = other) ∧
    (∀ file ∈ labelledCatalog.paths, file.isAbsolute = true ∧ file.components ≠ [.root]) ∧
    labelledCatalog.displayRoot.label ⟨"/w/src//a.cpp"⟩ = "src//a.cpp" ∧
    ∃ directory, labelledCatalog.displayRoot.path? = some directory ∧
      (directory.join ⟨"src//a.cpp"⟩).same ⟨"/w/src//a.cpp"⟩ = true := by
  obtain ⟨paths, units, catalogs⟩ := labels_lossless
  have wellNamed : labelledFiles.WellNamed := (FileSystem.wellNamed_empty _).addFile _ _
  have same : sourceRoot.label ⟨"/w/src/x.cpp"⟩ = sourceRoot.label ⟨"/w//src/./x.cpp/"⟩ := by
    decide +kernel
  have atUnit : labelledFiles.canonical? ⟨"src/x.cpp"⟩ = some ⟨"/w/src/x.cpp"⟩ := by decide +kernel
  have atOther : labelledFiles.canonical? ⟨"/w/./src//x.cpp"⟩ = some ⟨"/w/src/x.cpp"⟩ := by
    decide +kernel
  have proper : ∀ file ∈ labelledCatalog.paths,
      file.isAbsolute = true ∧ file.components ≠ [.root] := by
    decide +kernel
  have shown : labelledCatalog.displayRoot.label ⟨"/w/src//a.cpp"⟩ = "src//a.cpp" := by
    decide +kernel
  obtain ⟨directory, atRoot, _, _, back⟩ :=
    catalogs labelledCatalog proper ⟨"/w/src//a.cpp"⟩ (by decide +kernel)
  rw [shown] at back
  exact ⟨⟨same, paths _ _ _ (by decide +kernel) (by decide +kernel) same⟩,
    ⟨_, _, atUnit, atOther, rfl, units sourceRoot _ _ _ _ _ wellNamed atUnit atOther rfl⟩,
    proper, shown, directory, atRoot, back⟩

end Example

end DisplayRoot

end CallGraph
