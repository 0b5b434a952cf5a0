import CallGraph.FileSystem
import Mathlib.Data.List.Basic

/-!
# Canonical paths

Main result: `canonical?_canonical`. What a path leads to has a canonical path, and that path leads
to the same place: taking it again changes nothing.

A walk along a path goes through directories only and collects names without slashes, so the text
of the place where it ends is split into exactly the names that it was joined from.
-/
namespace CallGraph

/-- A name that the text of a path can hold: no slashes, and no step of another kind. -/
structure ProperName (name : String) : Prop where
  no_slash : '/' ∉ name.toList
  not_blank : Path.isBlank name.toList = false
  not_parent : name.toList ≠ ['.', '.']

/-- The working directory is given by proper names. -/
def FileSystem.WellNamed (files : FileSystem) : Prop :=
  ∀ name ∈ files.workingDirectory, ProperName name

/-! ### Splitting at slashes -/

theorem not_mem_of_mem_splitSlashes {chars piece : List Char}
    (member : piece ∈ splitSlashes chars) : '/' ∉ piece := by
  induction chars generalizing piece with
  | nil => simp_all [splitSlashes]
  | cons c rest ih =>
    rw [splitSlashes] at member
    split at member
    · rcases List.mem_cons.mp member with rfl | later
      · simp
      · exact ih later
    · rename_i noSlash
      split at member
      · rw [List.mem_singleton.mp member]
        simpa using Ne.symm noSlash
      · rename_i first others pieces
        rcases List.mem_cons.mp member with rfl | later
        · have unslashed := ih (pieces ▸ List.mem_cons_self)
          simp [Ne.symm noSlash, unslashed]
        · exact ih (pieces ▸ List.mem_cons_of_mem _ later)

theorem splitSlashes_of_not_mem {piece : List Char} (unslashed : '/' ∉ piece) :
    splitSlashes piece = [piece] := by
  induction piece with
  | nil => rfl
  | cons c rest ih =>
    rw [List.mem_cons, not_or] at unslashed
    rw [splitSlashes, if_neg (Ne.symm unslashed.1), ih unslashed.2]

theorem splitSlashes_append {piece : List Char} (unslashed : '/' ∉ piece) (rest : List Char) :
    splitSlashes (piece ++ '/' :: rest) = piece :: splitSlashes rest := by
  induction piece with
  | nil => simp [splitSlashes]
  | cons c more ih =>
    rw [List.mem_cons, not_or] at unslashed
    rw [List.cons_append, splitSlashes, if_neg (Ne.symm unslashed.1), ih unslashed.2]

/-- Pieces without slashes are what their joined text is split into. -/
theorem splitSlashes_joinSlashes {pieces : List (List Char)} (nonempty : pieces ≠ [])
    (unslashed : ∀ piece ∈ pieces, '/' ∉ piece) : splitSlashes (joinSlashes pieces) = pieces := by
  induction pieces with
  | nil => exact absurd rfl nonempty
  | cons piece rest ih =>
    have first := unslashed piece List.mem_cons_self
    cases rest with
    | nil => exact splitSlashes_of_not_mem first
    | cons next others =>
      have later := ih (List.cons_ne_nil _ _) fun other member =>
        unslashed other (List.mem_cons_of_mem _ member)
      rw [joinSlashes, splitSlashes_append first, later]
      exact List.cons_ne_nil _ _

/-! ### Entries above an entry -/

theorem Entry.find?_append (above below : List String) (entry : Entry) :
    entry.find? (above ++ below) = (entry.find? above).bind (Entry.find? below) := by
  induction above generalizing entry with
  | nil => rfl
  | cons name above ih =>
    rw [List.cons_append, find?, find?, Option.bind_assoc]
    exact Option.bind_congr fun child _ => ih child

namespace FileSystem

variable {files : FileSystem}

/-- Something lies at a location. -/
def Holds (files : FileSystem) (location : Location) : Prop :=
  (files.entry? location).isSome = true

theorem isDirectoryAt_of_holds_below {location below : Location} {name : String}
    (held : files.Holds (location ++ name :: below)) : files.isDirectoryAt location = true := by
  obtain ⟨entry, found⟩ := Option.isSome_iff_exists.mp held
  unfold entry? at found
  rw [Entry.find?_append, Option.bind_eq_some_iff] at found
  obtain ⟨above, atAbove, below⟩ := found
  -- A file has no children, so it is a directory that the name is looked up in.
  cases above with
  | file bytes => simp [Entry.find?, Entry.children] at below
  | directory children => simp [isDirectoryAt, entry?, atAbove, Entry.isDirectory]

theorem holds_of_isDirectoryAt {location : Location}
    (directory : files.isDirectoryAt location = true) : files.Holds location := by
  cases found : files.entry? location with
  | none => simp [isDirectoryAt, found] at directory
  | some entry => simp [Holds, found]

theorem holds_of_prefix {location below : Location} (held : files.Holds (location ++ below)) :
    files.Holds location := by
  cases below with
  | nil => simpa using held
  | cons name below => exact holds_of_isDirectoryAt (isDirectoryAt_of_holds_below held)

/-! ### Walks -/

theorem isDirectoryAt_of_follow {location last : Location} {piece : List Char}
    {pieces : List (List Char)} (walked : files.follow location (piece :: pieces) = .ok last) :
    files.isDirectoryAt location = true := by
  rw [follow] at walked
  split at walked
  · cases walked
  · rename_i directory
    simpa using directory

/-- A walk ends at an entry, with proper names on the way to it. -/
theorem holds_of_follow {location last : Location} {pieces : List (List Char)}
    (held : files.Holds location) (proper : ∀ name ∈ location, ProperName name)
    (unslashed : ∀ piece ∈ pieces, '/' ∉ piece)
    (walked : files.follow location pieces = .ok last) :
    files.Holds last ∧ ∀ name ∈ last, ProperName name := by
  induction pieces generalizing location with
  | nil =>
    rw [follow, Except.ok.injEq] at walked
    exact walked ▸ ⟨held, proper⟩
  | cons piece pieces ih =>
    have unslashedRest : ∀ other ∈ pieces, '/' ∉ other :=
      fun other member => unslashed other (List.mem_cons_of_mem _ member)
    rw [follow] at walked
    split at walked
    · cases walked
    · split at walked
      · exact ih held proper unslashedRest walked
      · rename_i notBlank
        split at walked
        · -- A step up leads to a directory that was passed before.
          refine ih ?_ (fun name member => proper name (List.dropLast_subset location member))
            unslashedRest walked
          rcases List.eq_nil_or_concat location with rfl | ⟨above, name, rfl⟩
          · exact held
          · rw [List.concat_eq_append] at held ⊢
            rw [List.dropLast_concat]
            exact holds_of_prefix held
        · rename_i notParent
          dsimp only at walked
          split at walked
          · rename_i next
            refine ih next ?_ unslashedRest walked
            intro name member
            rcases List.mem_append.mp member with old | new
            · exact proper name old
            · rw [List.mem_singleton.mp new]
              constructor
              · simpa using unslashed piece List.mem_cons_self
              · simpa using notBlank
              · simpa using notParent
          · cases walked

/-- Proper names are walked along as they are. -/
theorem follow_names {location names : Location} (held : files.Holds (location ++ names))
    (proper : ∀ name ∈ names, ProperName name) :
    files.follow location (names.map String.toList) = .ok (location ++ names) := by
  induction names generalizing location with
  | nil => simp [follow]
  | cons name names ih =>
    have directory := isDirectoryAt_of_holds_below held
    have named := proper name List.mem_cons_self
    have split : location ++ name :: names = (location ++ [name]) ++ names := by simp
    have next : (files.entry? (location ++ [name])).isSome = true :=
      holds_of_prefix (split ▸ held)
    rw [List.map_cons, follow]
    simp only [directory, named.not_blank, named.not_parent, next, String.ofList_toList,
      Bool.not_true, Bool.false_eq_true, if_false, if_true]
    rw [ih (split ▸ held) fun other member => proper other (List.mem_cons_of_mem _ member), split]

/-- The path of a location leads to the location. -/
theorem locate_ofLocation {location : Location} (held : files.Holds location)
    (root : files.isDirectoryAt [] = true) (proper : ∀ name ∈ location, ProperName name) :
    files.locate (Path.ofLocation location) = .ok location := by
  have absolute : (Path.ofLocation location).isAbsolute = true := by
    simp [Path.isAbsolute, Path.front, Path.ofLocation, Path.splitFront]
  have nonempty : (Path.ofLocation location).text ≠ "" := by
    simp [Path.ofLocation]
  have blank : Path.isBlank [] = true := rfl
  rw [locate, if_neg nonempty, if_pos absolute]
  cases location with
  | nil =>
    simp [Path.ofLocation, joinSlashes, splitSlashes, follow, root, blank]
  | cons name names =>
    have pieces : splitSlashes (joinSlashes ((name :: names).map String.toList)) =
        (name :: names).map String.toList := by
      apply splitSlashes_joinSlashes (by simp)
      intro piece member
      obtain ⟨other, known, rfl⟩ := List.mem_map.mp member
      exact (proper other known).no_slash
    have split : splitSlashes (Path.ofLocation (name :: names)).text.toList =
        [] :: (name :: names).map String.toList := by
      rw [Path.ofLocation, String.toList_ofList, splitSlashes, if_pos rfl, pieces]
    rw [split, follow]
    simp only [root, blank, Bool.not_true, Bool.false_eq_true, if_false, if_true]
    exact follow_names held proper

/-- A canonical path is that of a location where something lies, under proper names. -/
theorem location_of_canonical? (wellNamed : files.WellNamed) {path place : Path}
    (found : files.canonical? path = some place) :
    ∃ location, place = Path.ofLocation location ∧ files.Holds location ∧
      files.isDirectoryAt [] = true ∧ ∀ name ∈ location, ProperName name := by
  unfold canonical? at found
  split at found
  · rename_i location located
    rw [Option.some.injEq] at found
    subst found
    rw [locate] at located
    split at located
    · cases located
    · -- The walk takes at least one step, so it starts in a directory.
      obtain ⟨piece, pieces, split⟩ := List.exists_cons_of_ne_nil
        (splitSlashes_ne_nil path.text.toList)
      rw [split] at located
      have directory := isDirectoryAt_of_follow located
      have properStart : ∀ name ∈ (if path.isAbsolute then [] else files.workingDirectory),
          ProperName name := by
        split
        · simp
        · exact wellNamed
      have unslashed : ∀ other ∈ piece :: pieces, '/' ∉ other :=
        fun other member => not_mem_of_mem_splitSlashes (split ▸ member)
      obtain ⟨held, proper⟩ :=
        holds_of_follow (holds_of_isDirectoryAt directory) properStart unslashed located
      have root : files.isDirectoryAt [] = true := by
        generalize (if path.isAbsolute then [] else files.workingDirectory) = start at directory
        cases start with
        | nil => exact directory
        | cons name names =>
          exact @isDirectoryAt_of_holds_below _ [] _ _ (holds_of_isDirectoryAt directory)
      exact ⟨location, rfl, held, root, proper⟩
  · cases found

/-- A canonical path is its own canonical path. -/
theorem canonical?_canonical (wellNamed : files.WellNamed) {path place : Path}
    (found : files.canonical? path = some place) : files.canonical? place = some place := by
  obtain ⟨location, rfl, held, root, proper⟩ := location_of_canonical? wellNamed found
  rw [canonical?, locate_ofLocation held root proper]

theorem components_ofLocation {location : Location} (proper : ∀ name ∈ location, ProperName name) :
    (Path.ofLocation location).components = .root :: location.map .name := by
  have unslashed : ∀ piece ∈ location.map String.toList, '/' ∉ piece := by
    intro piece member
    obtain ⟨name, known, rfl⟩ := List.mem_map.mp member
    exact (proper name known).no_slash
  have steps : (location.map String.toList).filterMap Path.stepOf = location.map .name := by
    rw [List.filterMap_map, ← List.filterMap_eq_map]
    apply List.filterMap_congr
    intro name member
    have named := proper name member
    simp [Path.stepOf, named.not_blank, named.not_parent]
  have pieces : (splitSlashes (joinSlashes (location.map String.toList))).filterMap Path.stepOf =
      location.map .name := by
    cases location with
    | nil => rfl
    | cons name names => rw [splitSlashes_joinSlashes (by simp) unslashed, steps]
  have split : Path.splitFront (Path.ofLocation location).text.toList =
      (.root, joinSlashes (location.map String.toList)) := by
    simp [Path.ofLocation, Path.splitFront]
  rw [Path.components, Path.front, Path.pieces, split, pieces]
  rfl

/-- Canonical paths are compared by their texts. -/
theorem eq_of_components_eq (wellNamed : files.WellNamed) {left right leftPlace rightPlace : Path}
    (atLeft : files.canonical? left = some leftPlace)
    (atRight : files.canonical? right = some rightPlace)
    (same : leftPlace.components = rightPlace.components) : leftPlace = rightPlace := by
  obtain ⟨location, rfl, _, _, proper⟩ := location_of_canonical? wellNamed atLeft
  obtain ⟨other, rfl, _, _, properOther⟩ := location_of_canonical? wellNamed atRight
  rw [components_ofLocation proper, components_ofLocation properOther, List.cons.injEq] at same
  have injective : Function.Injective Component.name := fun _ _ => Component.name.inj
  rw [List.map_injective_iff.mpr injective same.2]

end FileSystem

/-! ### File systems that are built up -/

theorem Path.properName_of_mem_names {path : Path} {name : String} (member : name ∈ path.names) :
    ProperName name := by
  obtain ⟨component, listed, named⟩ := List.mem_filterMap.mp member
  rcases List.mem_append.mp listed with front | step
  · -- What a path starts with is no name.
    cases frontCase : path.front <;> rw [frontCase] at front <;>
      simp only [Front.components, List.mem_singleton, List.not_mem_nil] at front
    · subst front
      cases named
    · subst front
      cases named
  · obtain ⟨piece, known, stepped⟩ := List.mem_filterMap.mp step
    unfold stepOf at stepped
    split at stepped
    · cases stepped
    · rename_i notBlank
      split at stepped
      · cases stepped
        cases named
      · rename_i notParent
        cases stepped
        cases named
        constructor
        · simpa using not_mem_of_mem_splitSlashes known
        · simpa using notBlank
        · simpa using notParent

namespace FileSystem

theorem wellNamed_empty (workingDirectory : Path) : (empty workingDirectory).WellNamed :=
  fun _ member => Path.properName_of_mem_names member

theorem WellNamed.addFile {files : FileSystem} (wellNamed : files.WellNamed) (path : Path)
    (bytes : List UInt8) : (files.addFile path bytes).WellNamed := wellNamed

end FileSystem

end CallGraph
