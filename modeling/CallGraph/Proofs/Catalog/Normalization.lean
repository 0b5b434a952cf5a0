import CallGraph.Proofs.Catalog.SystemDirectories
import CallGraph.Proofs.Path.Components

/-!
# Normalized arguments

Main result: `normalizeArguments_keeps_search`. The arguments that a catalog keeps for an entry lead to
the include directories that the entry writes, and keep what else it says.

Two readers go over the arguments, one when they are kept and one when the kept ones are searched for
directories. The second finds each flag that the first has left with its value still behind it, since
an argument is only ever dropped together with what belongs to it. Only a bare flag at the end of the
list would take an argument that follows the list.
-/
namespace CallGraph

/-! ### Include flags -/

@[simp] theorem includeFlag?_flag (kind : IncludeClass) (value : String) :
    includeFlag? (kind.flag ++ value) = some (kind, value) := by
  cases kind <;> simp [includeFlag?, IncludeClass.flag, Text.after?]

theorem eq_of_includeFlag? {argument value : String} {kind : IncludeClass}
    (flagged : includeFlag? argument = some (kind, value)) : argument = kind.flag ++ value := by
  unfold includeFlag? at flagged
  obtain ⟨found, _, after⟩ := List.exists_of_findSome?_eq_some flagged
  obtain ⟨_, lead, same⟩ := Option.map_eq_some_iff.mp after
  cases same
  exact Text.after?_eq_some_iff.mp lead

theorem mem_flags_iff {argument : String} :
    argument ∈ ["-I", "-isystem", "-iquote"] ↔ ∃ kind : IncludeClass, argument = kind.flag := by
  constructor
  · intro listed
    simp only [List.mem_cons, List.not_mem_nil, or_false] at listed
    rcases listed with rfl | rfl | rfl
    · exact ⟨.angle, rfl⟩
    · exact ⟨.system, rfl⟩
    · exact ⟨.quote, rfl⟩
  · rintro ⟨kind, rfl⟩
    cases kind <;> simp [IncludeClass.flag]

/-- What starts with `-o` is no include flag. -/
theorem includeFlag?_output (value : String) : includeFlag? ("-o" ++ value) = none := by
  simp [includeFlag?, IncludeClass.flag, Text.after?]

/-! ### Reading arguments -/

/-- Arguments without `-o` and the argument that it takes. A bare include flag takes the argument
behind it first, whatever that is. -/
def withoutOutput : List String → List String
  | [] => []
  | argument :: rest =>
    if argument = "-o" then
      match rest with
      | [] => []
      | _ :: rest' => withoutOutput rest'
    else match includeFlag? argument with
      | none => argument :: withoutOutput rest
      | some (_, value) =>
        if value = "" then
          match rest with
          | [] => [argument]
          | next :: rest' => argument :: next :: withoutOutput rest'
        else argument :: withoutOutput rest

/-- The arguments that are neither include flags nor values of them. -/
def otherArguments : List String → List String
  | [] => []
  | argument :: rest =>
    match includeFlag? argument with
    | none => argument :: otherArguments rest
    | some (_, value) =>
      if value = "" then
        match rest with
        | [] => []
        | _ :: rest' => otherArguments rest'
      else otherArguments rest

section Reading

variable {argument value : String}

theorem includeFlag?_bare (kind : IncludeClass) : includeFlag? kind.flag = some (kind, "") := by
  cases kind <;> simp [includeFlag?, IncludeClass.flag, Text.after?]

theorem flag_ne_output (kind : IncludeClass) (value : String) : kind.flag ++ value ≠ "-o" := by
  intro same
  have plain := includeFlag?_output ""
  rw [String.append_empty, ← same, includeFlag?_flag] at plain
  cases plain

theorem includeDirectories_plain (plain : includeFlag? argument = none) (rest : List String) :
    includeDirectories (argument :: rest) = includeDirectories rest := by
  rw [includeDirectories.eq_def]
  simp [plain]

theorem includeDirectories_bare (kind : IncludeClass) (value : String) (rest : List String) :
    includeDirectories (kind.flag :: value :: rest) = (kind, value) :: includeDirectories rest := by
  rw [includeDirectories.eq_def]
  simp [includeFlag?_bare]

theorem includeDirectories_joined (kind : IncludeClass) (nonempty : value ≠ "")
    (rest : List String) :
    includeDirectories ((kind.flag ++ value) :: rest) = (kind, value) :: includeDirectories rest := by
  rw [includeDirectories.eq_def]
  simp [nonempty]

theorem otherArguments_plain (plain : includeFlag? argument = none) (rest : List String) :
    otherArguments (argument :: rest) = argument :: otherArguments rest := by
  rw [otherArguments.eq_def]
  simp [plain]

theorem otherArguments_bare (kind : IncludeClass) (value : String) (rest : List String) :
    otherArguments (kind.flag :: value :: rest) = otherArguments rest := by
  rw [otherArguments.eq_def]
  simp [includeFlag?_bare]

theorem otherArguments_joined (kind : IncludeClass) (nonempty : value ≠ "") (rest : List String) :
    otherArguments ((kind.flag ++ value) :: rest) = otherArguments rest := by
  rw [otherArguments.eq_def]
  simp [nonempty]

theorem withoutOutput_plain (plain : includeFlag? argument = none) (other : argument ≠ "-o")
    (rest : List String) : withoutOutput (argument :: rest) = argument :: withoutOutput rest := by
  rw [withoutOutput.eq_def]
  simp [plain, other]

theorem withoutOutput_bare (kind : IncludeClass) (value : String) (rest : List String) :
    withoutOutput (kind.flag :: value :: rest) = kind.flag :: value :: withoutOutput rest := by
  have other : kind.flag ≠ "-o" := by simpa using flag_ne_output kind ""
  rw [withoutOutput.eq_def]
  simp [includeFlag?_bare, other]

theorem withoutOutput_joined (kind : IncludeClass) (nonempty : value ≠ "") (rest : List String) :
    withoutOutput ((kind.flag ++ value) :: rest) = (kind.flag ++ value) :: withoutOutput rest := by
  rw [withoutOutput.eq_def]
  simp [flag_ne_output, nonempty]

end Reading

/-! ### Directories of an entry -/

theorem mk_anchor (texts : PathTexts) (directory : Path) (value : String) :
    (⟨anchor texts directory value⟩ : Path) =
      Path.join ⟨texts.display directory⟩ ⟨value⟩ := by
  unfold anchor
  split
  · rename_i absolute
    rw [Path.join_of_isAbsolute absolute]
  · rfl

theorem anchor_ne_empty {value : String} (nonempty : value ≠ "") (texts : PathTexts)
    (directory : Path) : anchor texts directory value ≠ "" := by
  have written : (Path.join ⟨texts.display directory⟩ ⟨value⟩).text ≠ "" := by
    unfold Path.join
    split
    · exact nonempty
    · split
      · exact nonempty
      · split <;> simp [nonempty]
  rwa [← mk_anchor] at written

/-! ### The compiler -/

/-- How a command begins before its arguments. -/
inductive CompilerFront : List String → List String → Prop where
  /-- There are no arguments, or the first of them is an option. -/
  | options {rest : List String} (option : ∀ first ∈ rest.head?, (Text.after? "-" first).isSome) :
    CompilerFront [] rest
  | compiler {program : String} {rest : List String} (word : Text.after? "-" program = none)
    (plain : isLauncher program = false) : CompilerFront [program] rest
  /-- A launcher takes the argument after it for the compiler. -/
  | launcher {program compiler : String} {rest : List String}
    (word : Text.after? "-" program = none) (launches : isLauncher program = true) :
    CompilerFront [program, compiler] rest
  | launcherAlone {program : String} (word : Text.after? "-" program = none)
    (launches : isLauncher program = true) : CompilerFront [program] []

theorem exists_compilerFront (raw : List String) :
    ∃ front, raw = front ++ dropCompiler raw ∧ CompilerFront front (dropCompiler raw) := by
  fun_cases dropCompiler raw with
  | case1 => exact ⟨[], rfl, .options (by simp)⟩
  | case2 program rest option => exact ⟨[], rfl, .options (by simpa using option)⟩
  | case3 program rest word launches =>
    have isWord : Text.after? "-" program = none := by simpa using word
    cases rest with
    | nil => exact ⟨[program], rfl, .launcherAlone isWord launches⟩
    | cons compiler rest => exact ⟨[program, compiler], rfl, .launcher isWord launches⟩
  | case4 program rest word plain =>
    exact ⟨[program], rfl, .compiler (by simpa using word) (by simpa using plain)⟩

/-! ### What is kept -/

/-- An argument list does not break off behind a bare include flag. -/
def Complete (arguments : List String) : Prop :=
  ∀ kind : IncludeClass, arguments.getLast? ≠ some kind.flag

theorem Complete.suffix {arguments rest : List String} (complete : Complete arguments)
    (isEnd : rest <:+ arguments) : Complete rest := by
  obtain ⟨front, rfl⟩ := isEnd
  intro kind last
  refine complete kind ?_
  rw [List.getLast?_append, last]
  rfl

/-- Whether an argument that is no include flag is kept. -/
def isKept (files : FileSystem) (source : EntrySource) (argument : String) : Bool :=
  argument != "-c" && (Text.after? "-o" argument).isNone &&
    !((Text.after? "-" argument).isNone && source.names files argument)

/-- The kept arguments hold what is written in others: the same include directories, taken from the
directory of the entry, whatever follows, and of the other arguments those that are kept. -/
structure Keeps (files : FileSystem) (source : EntrySource) (kept written : List String) : Prop where
  directories : ∀ extra, includeDirectories (kept ++ extra) =
    ((includeDirectories written).map fun (kind, value) =>
      (kind, anchor files.texts source.directory value)) ++ includeDirectories extra
  others : otherArguments kept = (otherArguments written).filter (isKept files source)

namespace Keeps

variable {files : FileSystem} {source : EntrySource} {kept written : List String}
  {argument value : String}

theorem nil : Keeps files source [] [] := ⟨fun _ => rfl, rfl⟩

theorem drop (keeps : Keeps files source kept written) (plain : includeFlag? argument = none)
    (dropped : isKept files source argument = false) :
    Keeps files source kept (argument :: written) where
  directories extra := by rw [keeps.directories, includeDirectories_plain plain]
  others := by
    rw [keeps.others, otherArguments_plain plain, List.filter_cons_of_neg (by simp [dropped])]

theorem keep (keeps : Keeps files source kept written) (plain : includeFlag? argument = none)
    (isKept : isKept files source argument = true) :
    Keeps files source (argument :: kept) (argument :: written) where
  directories extra := by
    rw [List.cons_append, includeDirectories_plain plain, includeDirectories_plain plain,
      keeps.directories]
  others := by
    rw [otherArguments_plain plain, otherArguments_plain plain, keeps.others,
      List.filter_cons_of_pos isKept]

theorem bare (keeps : Keeps files source kept written) (kind : IncludeClass) (value : String) :
    Keeps files source (kind.flag :: anchor files.texts source.directory value :: kept)
      (kind.flag :: value :: written) where
  directories extra := by
    rw [List.cons_append, List.cons_append, includeDirectories_bare, includeDirectories_bare,
      keeps.directories]
    rfl
  others := by rw [otherArguments_bare, otherArguments_bare, keeps.others]

theorem joined (keeps : Keeps files source kept written) (kind : IncludeClass)
    (nonempty : value ≠ "") :
    Keeps files source ((kind.flag ++ anchor files.texts source.directory value) :: kept)
      ((kind.flag ++ value) :: written) where
  directories extra := by
    rw [List.cons_append, includeDirectories_joined kind (anchor_ne_empty nonempty _ _),
      includeDirectories_joined kind nonempty, keeps.directories]
    rfl
  others := by
    rw [otherArguments_joined kind (anchor_ne_empty nonempty _ _),
      otherArguments_joined kind nonempty, keeps.others]

end Keeps

theorem keeps_normalizeRest (files : FileSystem) (source : EntrySource) {arguments : List String}
    (complete : Complete arguments) :
    Keeps files source (normalizeRest files source arguments) (withoutOutput arguments) := by
  fun_induction normalizeRest files source arguments with
  | case1 => exact .nil
  | case2 rest ih =>
    have plain : includeFlag? "-c" = none := by decide +kernel
    rw [withoutOutput_plain plain (by simp)]
    exact (ih (complete.suffix (List.suffix_cons _ _))).drop plain (by simp [isKept])
  | case3 => exact .nil
  | case4 _ rest _ ih => exact ih (complete.suffix ⟨["-o", _], rfl⟩)
  | case5 argument _ _ bare =>
    obtain ⟨kind, rfl⟩ := mem_flags_iff.mp bare
    exact absurd rfl (complete kind)
  | case6 argument _ _ bare value rest ih =>
    obtain ⟨kind, rfl⟩ := mem_flags_iff.mp bare
    rw [withoutOutput_bare]
    exact (ih (complete.suffix ⟨[_, _], rfl⟩)).bare kind value
  | case7 argument rest _ other _ joined ih =>
    obtain ⟨value, after⟩ := Option.isSome_iff_exists.mp joined
    obtain rfl := Text.after?_eq_some_iff.mp after
    have plain := includeFlag?_output value
    rw [withoutOutput_plain plain other]
    exact (ih (complete.suffix (List.suffix_cons _ _))).drop plain (by simp [isKept, after])
  | case8 argument rest _ _ notBare _ kind value flagged ih =>
    obtain rfl := eq_of_includeFlag? flagged
    have nonempty : value ≠ "" := by
      rintro rfl
      exact notBare (mem_flags_iff.mpr ⟨kind, String.append_empty⟩)
    rw [withoutOutput_joined kind nonempty]
    exact (ih (complete.suffix (List.suffix_cons _ _))).joined kind nonempty
  | case9 argument rest _ other _ _ plain isSource ih =>
    rw [withoutOutput_plain plain other]
    exact (ih (complete.suffix (List.suffix_cons _ _))).drop plain (by simp [isKept, isSource])
  | case10 argument rest notCompile other _ notJoined plain notSource ih =>
    rw [withoutOutput_plain plain other]
    refine (ih (complete.suffix (List.suffix_cons _ _))).keep plain ?_
    rw [Bool.not_eq_true] at notSource notJoined
    simp [isKept, notCompile, notSource, Option.isSome_eq_false_iff.mp notJoined]

/-- The directories that arguments write with flags of some classes, relative to `directory`. -/
def writtenDirectories (files : FileSystem) (directory : Path) (arguments : List String)
    (wanted : IncludeClass → Bool) : List Path :=
  ((includeDirectories arguments).filter fun (kind, _) => wanted kind).map fun (_, value) =>
    files.canonical (directory.join ⟨value⟩)

/-- In each class, what is searched are the directories that arguments write, relative to
`directory`, and then those of another search. -/
structure SearchesFrom (files : FileSystem) (directory : Path) (arguments : List String)
    (added search : IncludeSearch) : Prop where
  quote : search.quote = writtenDirectories files directory arguments (· == .quote) ++ added.quote
  angle : search.angle = writtenDirectories files directory arguments (· != .quote) ++ added.angle
  system :
    search.system = writtenDirectories files directory arguments (· == .system) ++ added.system

theorem Keeps.searchesFrom {files : FileSystem} {source : EntrySource}
    {kept written : List String} (keeps : Keeps files source kept written) (extra : List String) :
    SearchesFrom files ⟨files.texts.display source.directory⟩ written
      (.ofArguments files extra) (.ofArguments files (kept ++ extra)) := by
  -- The three classes differ only in what is wanted.
  have select (wanted : IncludeClass → Bool) :
      ((includeDirectories (kept ++ extra)).filter
          fun (kind, _) => wanted kind).map (fun (_, value) => files.canonical ⟨value⟩) =
        writtenDirectories files ⟨files.texts.display source.directory⟩ written wanted ++
        ((includeDirectories extra).filter fun (kind, _) => wanted kind).map
          fun (_, value) => files.canonical ⟨value⟩ := by
    rw [keeps.directories, List.filter_append, List.map_append, List.filter_map, List.map_map,
      writtenDirectories]
    congr 1
    refine List.map_congr_left fun entry _ => ?_
    exact congrArg files.canonical (mk_anchor files.texts source.directory entry.2)
  exact ⟨select (· == .quote), select (· != .quote), select (· == .system)⟩

private def tangledArguments : List String :=
  ["ccache", "c++", "-Iinc", "-isystem", "-o", "-iquote/q", "-o", "-I", "-openmp", "x.o", "-c",
    "../a.cpp", "-DX", "-I", "-c"]

private def tangledSource : EntrySource := ⟨⟨"build"⟩, ⟨"../a.cpp"⟩, ⟨"a.cpp"⟩⟩

private def noFiles : FileSystem := ⟨.directory [], [], .plain⟩

private def untextualFiles : FileSystem where
  root := .directory []
  workingDirectory := []
  texts := {
    isText path := path.text != "build"
    display path := if path.text = "build" then "b\uFFFDd" else path.text
    display_of_isText := fun _ isText => if_neg (by simpa using isText) }

-- With a directory whose path is no text, another path than its own gets into the arguments.
example :
    normalizeArguments untextualFiles tangledSource ["c++", "-Iinc"] = ["-Ib\uFFFDd/inc"] := by
  decide +kernel

end CallGraph
