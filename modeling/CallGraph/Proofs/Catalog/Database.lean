import CallGraph.DefinitionSearch
import CallGraph.Proofs.Catalog.Entries
import Mathlib.Data.List.Induction

/-!
# Catalogs of databases

Main result: `ofDatabase_outcome`. A database becomes a catalog as a whole or not at all. The catalog
lists the file of each entry once, where it is first named, with the arguments of the entry that names
it last, and finds these arguments by every path that leads to the file.

A catalog is built up by assignments. What it lists comes from the first assignment to a file and what
it holds for it from the last, so both are read off the list of all assignments.
-/
namespace CallGraph

section Traversal

variable {ε α β : Type} {f : α → Except ε β} {xs : List α}

/-- A traversal succeeds if each step does. -/
theorem mapM_eq_ok_map {g : α → β} (each : ∀ x ∈ xs, f x = .ok (g x)) :
    xs.mapM f = .ok (xs.map g) := by
  induction xs with
  | nil => rfl
  | cons x xs ih =>
    obtain ⟨first, rest⟩ := List.forall_mem_cons.mp each
    rw [List.mapM_cons, first, ih rest]
    rfl

/-- A traversal fails if some step does. -/
theorem exists_error_of_mapM (failing : ∃ x ∈ xs, ∃ error, f x = .error error) :
    ∃ error, xs.mapM f = .error error := by
  induction xs with
  | nil => simp at failing
  | cons x xs ih =>
    rw [List.mapM_cons]
    cases first : f x with
    | error error => exact ⟨error, rfl⟩
    | ok y =>
      obtain ⟨z, member, error, failed⟩ := failing
      rcases List.mem_cons.mp member with rfl | later
      · cases first.symm.trans failed
      · obtain ⟨other, rest⟩ := ih ⟨z, later, error, failed⟩
        exact ⟨other, by rw [rest]; rfl⟩

end Traversal

namespace Catalog

/-! ### Assignments -/

/-- Files are listed in the order in which they are first named. -/
theorem foldl_addPath (known paths : List Path) :
    paths.foldl addPath known =
      known ++ (paths.filter fun path => !known.any path.same).eraseDupsBy Path.same := by
  induction paths generalizing known with
  | nil => simp
  | cons path paths ih =>
    rw [List.foldl_cons, ih, addPath]
    by_cases listed : known.any path.same = true
    · rw [if_pos listed, List.filter_cons_of_neg (by simp [listed])]
    · rw [if_neg listed, List.filter_cons_of_pos (by simp [listed]), List.eraseDupsBy_cons,
        List.filter_filter, List.append_assoc, List.singleton_append]
      congr 4
      funext other
      simp [Bool.and_comm]

theorem ofAssignments_concat (assignments : List (Path × List String))
    (last : Path × List String) :
    ofAssignments (assignments ++ [last]) =
      setArguments last.1 last.2 (ofAssignments assignments) := by
  simp [ofAssignments]

theorem paths_ofAssignments (assignments : List (Path × List String)) :
    (ofAssignments assignments).map Prod.fst =
      (assignments.map Prod.fst).eraseDupsBy Path.same := by
  have listed : (ofAssignments assignments).map Prod.fst =
      (assignments.map Prod.fst).foldl addPath [] := by
    induction assignments using List.reverseRecOn with
    | nil => rfl
    | append_singleton assignments last ih =>
      rw [ofAssignments_concat, map_fst_setArguments, ih, List.map_append, List.foldl_append]
      rfl
  rw [listed, foldl_addPath]
  simp

/-- What entries hold for a path. -/
def held (entries : List (Path × List String)) (wanted : Path) : Option (List String) :=
  (entries.find? fun entry => entry.1.same wanted).map Prod.snd

theorem held_cons (entry : Path × List String) (entries : List (Path × List String))
    (wanted : Path) :
    held (entry :: entries) wanted =
      if entry.1.same wanted then some entry.2 else held entries wanted := by
  unfold held
  by_cases here : entry.1.same wanted = true <;> simp [here]

theorem held_setArguments (file : Path) (arguments : List String)
    (entries : List (Path × List String)) (wanted : Path) :
    held (setArguments file arguments entries) wanted =
      if file.same wanted then some arguments else held entries wanted := by
  induction entries with
  | nil => exact held_cons (file, arguments) [] wanted
  | cons first rest ih =>
    obtain ⟨known, old⟩ := first
    rw [setArguments]
    by_cases same : known.same file = true
    · have alike : known.same wanted = file.same wanted := by
        rw [Path.same_iff] at same
        simp [Path.same, same]
      rw [if_pos same, held_cons, held_cons, alike]
      by_cases here : file.same wanted = true <;> simp [here]
    · rw [if_neg same, held_cons, held_cons, ih]
      by_cases here : known.same wanted = true
      · have apart : ¬file.same wanted = true := by
          rw [Path.same_iff] at here same ⊢
          exact fun other => same (here.trans other.symm)
        simp [here, apart]
      · simp [here]

/-- The last assignment to a path counts. -/
theorem held_ofAssignments (assignments : List (Path × List String)) (wanted : Path) :
    held (ofAssignments assignments) wanted =
      (assignments.reverse.find? fun assignment => assignment.1.same wanted).map Prod.snd := by
  induction assignments using List.reverseRecOn with
  | nil => rfl
  | append_singleton assignments last ih =>
    rw [ofAssignments_concat, held_setArguments, ih, List.reverse_concat]
    exact (held_cons last assignments.reverse wanted).symm

/-- Where no path is listed twice, each entry is found by its path. -/
theorem held_of_mem {entries : List (Path × List String)} {file wanted : Path}
    {arguments : List String} (distinct : Distinct (entries.map Prod.fst))
    (member : (file, arguments) ∈ entries) (same : file.same wanted = true) :
    held entries wanted = some arguments := by
  induction entries with
  | nil => cases member
  | cons first rest ih =>
    obtain ⟨new, distinctRest⟩ := List.nodup_cons.mp distinct
    rw [held_cons]
    rcases List.mem_cons.mp member with rfl | later
    · exact if_pos same
    · have apart : ¬first.1.same wanted = true := by
        intro here
        rw [Path.same_iff] at here same
        refine new (List.mem_map.mpr ⟨file, List.mem_map_of_mem (f := Prod.fst) later, ?_⟩)
        rw [same, here]
      rw [if_neg apart]
      exact ih distinctRest later

theorem held_eq_none_iff {entries : List (Path × List String)} {wanted : Path} :
    held entries wanted = none ↔ ∀ file ∈ entries.map Prod.fst, file.same wanted = false := by
  simp [held, Path.same]

/-- The last of some assignments to a path. -/
theorem exists_last_of_held {assignments : List (Path × List String)} {wanted : Path}
    {arguments : List String} (found : held (ofAssignments assignments) wanted = some arguments) :
    ∃ before file after, assignments = before ++ (file, arguments) :: after ∧
      file.same wanted = true ∧ ∀ later ∈ after, later.1.same wanted = false := by
  rw [held_ofAssignments, Option.map_eq_some_iff] at found
  obtain ⟨⟨file, _⟩, last, rfl⟩ := found
  obtain ⟨same, after, before, split, apart⟩ := List.find?_eq_some_iff_append.mp last
  refine ⟨before.reverse, file, after.reverse, ?_, same, fun later member => ?_⟩
  · simpa using congrArg List.reverse split
  · simpa using apart later (List.mem_reverse.mp member)

/-! ### Entries of a database -/

/-- The file of a database entry, as the catalog lists it. -/
def fileOf (files : FileSystem) (base : Path) (entry : Database.Entry) : Path :=
  files.canonical ((directoryOf base entry).join ⟨entry.file⟩)

/-- The arguments that an entry writes, in a list of its own or in the words of a command line. -/
def writtenArguments (entry : Database.Entry) : List String :=
  entry.arguments?.getD ((entry.command?.bind ShellWords.split?).getD [])

/-- An entry without a list of arguments whose command line cannot be split, or is missing. -/
inductive Unusable (entry : Database.Entry) : Prop where
  | unbalanced (line : String) (unlisted : entry.arguments? = none)
    (command : entry.command? = some line) (unsplit : ShellWords.split? line = none)
  | silent (unlisted : entry.arguments? = none) (uncommanded : entry.command? = none)

theorem unusable_iff {entry : Database.Entry} :
    Unusable entry ↔ entry.arguments? = none ∧ entry.command?.bind ShellWords.split? = none := by
  constructor
  · rintro (⟨line, unlisted, command, unsplit⟩ | ⟨unlisted, uncommanded⟩)
    · exact ⟨unlisted, by rw [command]; exact unsplit⟩
    · exact ⟨unlisted, by rw [uncommanded]; rfl⟩
  · rintro ⟨unlisted, unread⟩
    cases command : entry.command? with
    | none => exact .silent unlisted command
    | some line => exact .unbalanced line unlisted command (by rwa [command] at unread)

instance (entry : Database.Entry) : Decidable (Unusable entry) :=
  decidable_of_iff _ unusable_iff.symm

/-- What an entry gives to its file. -/
def given (files : FileSystem) (base : Path) (extra : List String) (entry : Database.Entry) :
    Path × List String :=
  (fileOf files base entry,
    normalizeArguments files ⟨directoryOf base entry, ⟨entry.file⟩, fileOf files base entry⟩
      (writtenArguments entry) ++ extra)

theorem rawArguments_of_unusable {entry : Database.Entry} (unusable : Unusable entry) :
    ∃ reason, rawArguments entry = .error reason := by
  unfold rawArguments
  cases unusable with
  | unbalanced line unlisted command unsplit => simp [unlisted, command, unsplit]
  | silent unlisted uncommanded => simp [unlisted, uncommanded]

theorem rawArguments_of_usable {entry : Database.Entry} (usable : ¬Unusable entry) :
    rawArguments entry = .ok (writtenArguments entry) := by
  unfold rawArguments writtenArguments
  cases unlisted : entry.arguments? with
  | some arguments => rfl
  | none =>
    cases command : entry.command? with
    | none => exact absurd (.silent unlisted command) usable
    | some line =>
      cases unsplit : ShellWords.split? line with
      | none => exact absurd (.unbalanced line unlisted command unsplit) usable
      | some words => simp [unsplit]

variable {files : FileSystem} {base path : Path} {extra : List String}

theorem assignment_of_unusable {entry : Database.Entry} (unusable : Unusable entry) :
    ∃ reason, assignment files base extra entry = .error reason := by
  obtain ⟨reason, failed⟩ := rawArguments_of_unusable unusable
  exact ⟨reason, by rw [assignment, failed]; rfl⟩

theorem assignment_of_usable {entry : Database.Entry} (usable : ¬Unusable entry) :
    assignment files base extra entry = .ok (given files base extra entry) := by
  rw [assignment, rawArguments_of_usable usable]
  rfl

theorem ofDatabase_of_unusable {document : String} {entries : List Database.Entry}
    (read : files.readText path = .ok document)
    (parsed : Database.ofDocument document = .ok entries)
    (unusable : ∃ entry ∈ entries, Unusable entry) :
    ∃ reason, ofDatabase files path extra = .error (.invalidDatabase path reason) := by
  obtain ⟨reason, failed⟩ := exists_error_of_mapM
    (f := assignment files (path.parent?.getD ⟨""⟩) extra)
    (unusable.imp fun _ ⟨member, bad⟩ => ⟨member, assignment_of_unusable bad⟩)
  refine ⟨reason, ?_⟩
  rw [ofDatabase, read]
  simp only [parsed, failed]

theorem ofDatabase_of_usable {document : String} {entries : List Database.Entry}
    (read : files.readText path = .ok document)
    (parsed : Database.ofDocument document = .ok entries)
    (usable : ∀ entry ∈ entries, ¬Unusable entry) (extra : List String) :
    ofDatabase files path extra = .ok ⟨files.canonical path,
      ofAssignments (entries.map (given files (path.parent?.getD ⟨""⟩) extra))⟩ := by
  have assigned := mapM_eq_ok_map
    (f := assignment files (path.parent?.getD ⟨""⟩) extra)
    fun entry member => assignment_of_usable (usable entry member)
  rw [ofDatabase, read]
  simp only [parsed, assigned]

/-- Arguments are those of the last entry of a database for a file. -/
def GivenLast (files : FileSystem) (base : Path) (extra : List String)
    (entries : List Database.Entry) (file : Path) (arguments : List String) : Prop :=
  ∃ before entry after, entries = before ++ entry :: after ∧
    (fileOf files base entry).same file = true ∧
    (∀ later ∈ after, (fileOf files base later).same file = false) ∧
    arguments = normalizeArguments files ⟨directoryOf base entry, ⟨entry.file⟩,
      fileOf files base entry⟩ (writtenArguments entry) ++ extra

theorem givenLast_of_held {entries : List Database.Entry} {file : Path} {arguments : List String}
    (found : held (ofAssignments (entries.map (given files base extra))) file = some arguments) :
    GivenLast files base extra entries file arguments := by
  obtain ⟨before, known, after, split, same, apart⟩ := exists_last_of_held found
  obtain ⟨entriesBefore, rest, rfl, _, made⟩ := List.map_eq_append_iff.mp split
  obtain ⟨entry, entriesAfter, rfl, madeHere, rfl⟩ := List.map_eq_cons_iff.mp made
  rw [given, Prod.mk.injEq] at madeHere
  refine ⟨entriesBefore, entry, entriesAfter, rfl, madeHere.1 ▸ same, fun later member => ?_,
    madeHere.2.symm⟩
  exact apart (given files base extra later) (List.mem_map_of_mem member)

/-- A file of a catalog is found under its own path. -/
theorem Built.exists_arguments? {catalog : Catalog} (built : Built files catalog)
    (wellNamed : files.WellNamed) {file : Path} (listed : file ∈ catalog.paths) :
    ∃ arguments, catalog.arguments? files file = some arguments := by
  obtain ⟨⟨known, arguments⟩, member, rfl⟩ := List.mem_map.mp listed
  have settles := built.settles wellNamed known listed
  have same : known.same (files.canonical known) = true := by
    rw [FileSystem.canonical]
    cases leads : files.canonical? known with
    | none => exact Path.same_iff.mpr rfl
    | some place => exact Path.same_iff.mpr (congrArg Path.components (settles place leads).symm)
  exact ⟨arguments, held_of_mem built.distinct member same⟩

/-- A database that cannot be read as a list of entries, or with an entry that has no list of
arguments and either no command line or one with open quotes, becomes no catalog at all. Any other
becomes a catalog that lists the file of each entry, each once and in the order in which they are
first named, with the normalized arguments of the last entry for the file and the extra ones after
them. By a path that leads to a listed file, or leads nowhere and is the same as a listed one, these
arguments are found, and by any other path none. So there are arguments for every file that a listing
or a search for definitions takes from the catalog. -/
theorem ofDatabase_outcome (wellNamed : files.WellNamed) {document : String}
    (read : files.readText path = .ok document) (extra : List String) :
    (∀ fault, Database.ofDocument document = .error fault →
      ∃ reason, ofDatabase files path extra = .error (.invalidDatabase path reason)) ∧
    ∀ entries, Database.ofDocument document = .ok entries →
      ((∃ entry ∈ entries, Unusable entry) →
        ∃ reason, ofDatabase files path extra = .error (.invalidDatabase path reason)) ∧
      ((∀ entry ∈ entries, ¬Unusable entry) →
        ∃ catalog, ofDatabase files path extra = .ok catalog ∧
          let base := path.parent?.getD ⟨""⟩
          Distinct catalog.paths ∧
          catalog.paths = (entries.map (fileOf files base)).eraseDupsBy Path.same ∧
          (∀ file arguments, (file, arguments) ∈ catalog.entries →
            GivenLast files base extra entries file arguments ∧
            ∀ query, (files.canonical query).same file = true →
              catalog.arguments? files query = some arguments) ∧
          (∀ query, (∀ file ∈ catalog.paths, (files.canonical query).same file = false) →
            catalog.arguments? files query = none) ∧
          ∀ search : DefinitionSearch, search.catalog = catalog → search.tools.files = files →
            ∀ index callable file,
              file ∈ catalog.paths ∨ file ∈ search.candidates index callable →
                catalog.arguments? files file = some (search.argumentsOf file)) := by
  refine ⟨fun fault malformed => ?_, fun entries parsed =>
    ⟨ofDatabase_of_unusable read parsed, fun usable => ?_⟩⟩
  · refine ⟨fault.message, ?_⟩
    rw [ofDatabase, read]
    simp only [malformed]
  · have opened := ofDatabase_of_usable read parsed usable extra
    have built : Built files _ := .ofDatabase opened
    refine ⟨_, opened, built.distinct, ?_, ?_, ?_, ?_⟩
    · rw [paths, paths_ofAssignments, List.map_map]
      rfl
    · intro file arguments member
      refine ⟨givenLast_of_held (held_of_mem built.distinct member (Path.same_iff.mpr rfl)),
        fun query leads => ?_⟩
      refine held_of_mem built.distinct member (Path.same_iff.mpr ?_)
      exact (Path.same_iff.mp leads).symm
    · intro query apart
      refine held_eq_none_iff.mpr fun file listed => ?_
      rw [← apart file listed, Path.same, Path.same, Bool.beq_comm]
    · rintro search sameCatalog sameFiles index callable file listed
      have inCatalog : file ∈ search.catalog.paths := by
        rcases listed with listed | candidate
        · exact sameCatalog ▸ listed
        · exact DefinitionSearch.mem_paths_of_mem_candidates candidate
      rw [DefinitionSearch.argumentsOf, sameCatalog, sameFiles]
      obtain ⟨arguments, found⟩ := built.exists_arguments? wellNamed (sameCatalog ▸ inCatalog)
      rw [found]
      rfl

section Example

private def sharedDocument : String :=
  "[[\"src/a.cpp\", null, \"ccache c++ -Iinc -c src/a.cpp\"], [\"gone.cpp\", null, null, [\"c++\"]],
    [\"a.cpp\", \"src\", \"unbalanced '\", [\"c++\", \"-Iinc\", \"-DX\", \"../src/a.cpp\"]]]"

private def sharedFiles : FileSystem :=
  ((FileSystem.empty ⟨"/w"⟩).addFile ⟨"/w/src/a.cpp"⟩ []).addFile ⟨"/w/db.json"⟩
    (Utf8.encode sharedDocument)

private def sharedEntries : List Database.Entry :=
  [⟨"src/a.cpp", none, some "ccache c++ -Iinc -c src/a.cpp", none⟩,
    ⟨"gone.cpp", none, none, some ["c++"]⟩,
    ⟨"a.cpp", some "src", some "unbalanced '", some ["c++", "-Iinc", "-DX", "../src/a.cpp"]⟩]

private theorem shared_read : sharedFiles.readText ⟨"db.json"⟩ = .ok sharedDocument := by
  decide +kernel

private theorem shared_parsed : Database.ofDocument sharedDocument = .ok sharedEntries := by
  decide +kernel

private theorem shared_usable : ∀ entry ∈ sharedEntries, ¬Unusable entry := by
  decide +kernel

/-- Of two entries for one file, which name it in different ways, the place of the first counts and
the arguments of the last. The other file does not exist and is listed as it is written. -/
theorem last_entry_counts :
    sharedFiles.readText ⟨"db.json"⟩ = .ok sharedDocument ∧
      Database.ofDocument sharedDocument = .ok sharedEntries ∧
      (∀ entry ∈ sharedEntries, ¬Unusable entry) ∧
      ∃ catalog, ofDatabase sharedFiles ⟨"db.json"⟩ ["-Wall"] = .ok catalog ∧
        catalog.paths = [⟨"/w/src/a.cpp"⟩, ⟨"gone.cpp"⟩] ∧
        catalog.arguments? sharedFiles ⟨"./src//a.cpp"⟩ = some ["-Isrc/inc", "-DX", "-Wall"] ∧
        catalog.arguments? sharedFiles ⟨"gone.cpp/"⟩ = some ["-Wall"] ∧
        catalog.arguments? sharedFiles ⟨"src/b.cpp"⟩ = none := by
  have wellNamed : sharedFiles.WellNamed := FileSystem.wellNamed_empty _
  obtain ⟨_, outcome⟩ := ofDatabase_outcome wellNamed shared_read ["-Wall"]
  obtain ⟨catalog, opened, _, paths, found, missing, _⟩ :=
    (outcome sharedEntries shared_parsed).2 shared_usable
  have made : catalog.entries = [(⟨"/w/src/a.cpp"⟩, ["-Isrc/inc", "-DX", "-Wall"]),
      (⟨"gone.cpp"⟩, ["-Wall"])] := by
    cases opened.symm.trans (ofDatabase_of_usable shared_read shared_parsed shared_usable _)
    decide +kernel
  refine ⟨shared_read, shared_parsed, shared_usable, catalog, opened, by rw [Catalog.paths, made]; rfl,
    ?_, ?_, ?_⟩
  · exact (found ⟨"/w/src/a.cpp"⟩ _ (by simp [made])).2 _ (by decide +kernel)
  · exact (found ⟨"gone.cpp"⟩ _ (by simp [made])).2 _ (by decide +kernel)
  · refine missing _ ?_
    rw [Catalog.paths, made]
    decide +kernel

/-- A command line with open quotes does no harm beside a list of arguments. -/
theorem unbalanced_command_unread :
    sharedFiles.readText ⟨"db.json"⟩ = .ok sharedDocument ∧
      Database.ofDocument sharedDocument = .ok sharedEntries ∧
      (∃ entry ∈ sharedEntries, ∃ line, entry.command? = some line ∧
        ShellWords.split? line = none) ∧
      ∃ catalog, ofDatabase sharedFiles ⟨"db.json"⟩ [] = .ok catalog :=
  ⟨shared_read, shared_parsed, by decide +kernel,
    _, ofDatabase_of_usable shared_read shared_parsed shared_usable []⟩

end Example

end Catalog

end CallGraph
