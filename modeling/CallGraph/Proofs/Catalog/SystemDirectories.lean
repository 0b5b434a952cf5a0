import CallGraph.CompilerArguments

/-!
# System directories

Main result: `systemDirectories_eq_system`. The directories by which facts are filtered and those in
which headers are searched as system headers come from two readings of one argument list. Only one
of them knows that a bare `-I` or `-iquote` takes the next argument, so they agree as long as no
such flag takes something that looks like `-isystem`.
-/
namespace CallGraph

/-- The arguments that stand by themselves as the value of a bare flag, with the class of the
flag. -/
def separateValues : List String → List (IncludeClass × String)
  | [] => []
  | argument :: rest =>
    match includeFlag? argument with
    | none => separateValues rest
    | some (kind, value) =>
      if value = "" then
        match rest with
        | [] => []
        | next :: rest' => (kind, next) :: separateValues rest'
      else separateValues rest

/-- No bare `-I` or `-iquote` takes an argument that starts with `-isystem`. -/
def TakesNoSystemFlag (arguments : List String) : Prop :=
  ∀ taken ∈ separateValues arguments, taken.1 ≠ .system → Text.after? "-isystem" taken.2 = none

instance (arguments : List String) : Decidable (TakesNoSystemFlag arguments) :=
  inferInstanceAs (Decidable (∀ taken ∈ separateValues arguments, _))

/-- The values of `-isystem` among include directories. -/
def writtenSystem (written : List (IncludeClass × String)) : List String :=
  (written.filter fun entry => entry.1 == .system).map Prod.snd

theorem writtenSystem_cons_system (value : String)
    (written : List (IncludeClass × String)) :
    writtenSystem ((.system, value) :: written) = value :: writtenSystem written := rfl

theorem writtenSystem_cons_other {kind : IncludeClass} (other : kind ≠ .system) (value : String)
    (written : List (IncludeClass × String)) :
    writtenSystem ((kind, value) :: written) = writtenSystem written := by
  simp [writtenSystem, other]

theorem Text.after?_eq_some_iff {lead text value : String} :
    Text.after? lead text = some value ↔ text = lead ++ value := by
  unfold Text.after?
  constructor
  · intro found
    split at found
    · rename_i front
      obtain ⟨rest, same⟩ := List.isPrefixOf_iff_prefix.mp front
      rw [← same, List.drop_left, Option.some.injEq] at found
      rw [← String.ofList_toList (s := text), ← same, ← found, String.ofList_append,
        String.ofList_toList]
    · cases found
  · rintro rfl
    simp

theorem Text.eq_of_after?_empty {lead text : String} (bare : Text.after? lead text = some "") :
    text = lead := by
  rw [Text.after?_eq_some_iff.mp bare, String.append_empty]

/-- A system flag among the include flags is an argument that starts with `-isystem`. -/
theorem after?_eq_bind_includeFlag? (argument : String) :
    Text.after? "-isystem" argument =
      (includeFlag? argument).bind fun (kind, value) =>
        if kind = .system then some value else none := by
  cases system : Text.after? "-isystem" argument <;>
    cases quote : Text.after? "-iquote" argument <;>
    cases angle : Text.after? "-I" argument <;>
    simp [includeFlag?, IncludeClass.flag, system, quote, angle]

theorem after?_of_system_flag {argument value : String}
    (flagged : includeFlag? argument = some (.system, value)) :
    Text.after? "-isystem" argument = some value := by
  simp [after?_eq_bind_includeFlag?, flagged]

theorem after?_of_other_flag {argument value : String} {kind : IncludeClass}
    (flagged : includeFlag? argument = some (kind, value)) (other : kind ≠ .system) :
    Text.after? "-isystem" argument = none := by
  simp [after?_eq_bind_includeFlag?, flagged, other]

theorem systemValues_bare (rest : List String) :
    systemValues ("-isystem" :: rest) =
      match rest with
      | [] => []
      | next :: rest' => next :: systemValues rest' := by
  cases rest <;> simp [systemValues]

theorem systemValues_joined {argument value : String}
    (joined : Text.after? "-isystem" argument = some value) (nonempty : value ≠ "")
    (rest : List String) : systemValues (argument :: rest) = value :: systemValues rest := by
  have different : argument ≠ "-isystem" := by
    rintro rfl
    exact nonempty (Option.some.inj (joined.symm.trans (Text.after?_eq_some_iff.mpr (by simp))))
  rw [systemValues.eq_def]
  simp [different, joined]

theorem systemValues_other {argument : String} (other : Text.after? "-isystem" argument = none)
    (rest : List String) : systemValues (argument :: rest) = systemValues rest := by
  have different : argument ≠ "-isystem" := by
    rintro rfl
    cases other.symm.trans (Text.after?_eq_some_iff.mpr (String.append_empty.symm))
  rw [systemValues.eq_def]
  simp [different, other]

/-- One reader takes one step where the other does, so that they stand at the same argument
throughout. Only the value of a bare flag could be read by one and passed over by the other. -/
theorem systemValues_eq_writtenSystem {arguments : List String}
    (plain : TakesNoSystemFlag arguments) :
    systemValues arguments = writtenSystem (includeDirectories arguments) := by
  fun_induction includeDirectories arguments with
  | case1 => rfl
  | case2 argument rest unflagged ih =>
    have other : Text.after? "-isystem" argument = none := by
      rw [after?_eq_bind_includeFlag?, unflagged]
      rfl
    rw [systemValues_other other]
    rw [TakesNoSystemFlag, separateValues, unflagged] at plain
    exact ih plain
  | case3 argument kind flagged =>
    -- A bare flag at the end of the list has no value for either reader.
    by_cases system : kind = .system
    · subst system
      rw [Text.eq_of_after?_empty (after?_of_system_flag flagged)]
      rfl
    · rw [systemValues_other (after?_of_other_flag flagged system)]
      rfl
  | case4 argument kind next rest flagged ih =>
    rw [TakesNoSystemFlag, separateValues, flagged] at plain
    simp only [if_pos, List.forall_mem_cons] at plain
    by_cases system : kind = .system
    · subst system
      rw [Text.eq_of_after?_empty (after?_of_system_flag flagged), systemValues_bare,
        writtenSystem_cons_system]
      exact congrArg (next :: ·) (ih plain.2)
    · -- The value is nothing to the reader that looks at it, so both go on behind it.
      rw [systemValues_other (after?_of_other_flag flagged system),
        systemValues_other (plain.1 system), writtenSystem_cons_other system, ih plain.2]
  | case5 argument rest kind value flagged nonempty ih =>
    rw [TakesNoSystemFlag, separateValues, flagged] at plain
    simp only [if_neg nonempty] at plain
    by_cases system : kind = .system
    · subst system
      rw [systemValues_joined (after?_of_system_flag flagged) nonempty, writtenSystem_cons_system,
        ih plain]
    · rw [systemValues_other (after?_of_other_flag flagged system),
        writtenSystem_cons_other system, ih plain]

/-- As long as no bare `-I` or `-iquote` takes an argument that looks like `-isystem`, the
directories by which facts are filtered are those in which system headers are searched, in the same
order, whatever the file system. Joined and separate values, empty ones and a flag at the end of the
list are all read alike. -/
theorem systemDirectories_eq_system (files : FileSystem) {arguments : List String}
    (plain : TakesNoSystemFlag arguments) :
    systemDirectories files arguments = (IncludeSearch.ofArguments files arguments).system := by
  rw [systemDirectories, systemValues_eq_writtenSystem plain, IncludeSearch.ofArguments,
    writtenSystem, List.map_map]
  rfl

private def mixedFlags : List String :=
  ["-isystem", "-I", "-Isrc", "-iquote", "-I", "-isystem", "-isystemlib", "-isystemsys", "-isystem"]

private def bareRoot : FileSystem := ⟨.directory [], [], .plain⟩

/-- Flags that take flags as their values, and one without any. -/
theorem mixed_flags_read_alike :
    TakesNoSystemFlag mixedFlags ∧
      systemDirectories bareRoot mixedFlags =
        (IncludeSearch.ofArguments bareRoot mixedFlags).system :=
  have plain : TakesNoSystemFlag mixedFlags := by decide +kernel
  ⟨plain, systemDirectories_eq_system bareRoot plain⟩

/-- A bare `-I` takes `-isystem` for its directory where headers are searched, but is passed over
where facts are filtered. -/
theorem system_flag_taken_by_bare_flag :
    (IncludeSearch.ofArguments bareRoot ["-I", "-isystem", "sys"]).system = [] ∧
      systemDirectories bareRoot ["-I", "-isystem", "sys"] = [⟨"sys"⟩] := by
  decide +kernel

end CallGraph
