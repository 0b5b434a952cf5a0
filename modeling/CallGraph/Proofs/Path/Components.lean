import CallGraph.Proofs.FileSystem.Canonical
import Mathlib.Data.List.DropRight

/-!
# Components of paths

Main results: `parent?_cases`, `components_join`, `components_of_stripBase?` and
`components_ofComponents`. A directory lacks the last component of what lies in it, a joined path has
the steps of both parts, what follows a base has the components that the base lacks, and a path that
is rebuilt from leading components of another has these.

Each of these operations writes a text, and its components are read off that text again. The text of
a path is a front and pieces between slashes, so the question is always whether the pieces that an
operation writes are taken for pieces and not for a front.
-/
namespace CallGraph

theorem splitSlashes_slash (left right : List Char) :
    splitSlashes (left ++ '/' :: right) = splitSlashes left ++ splitSlashes right := by
  induction left with
  | nil => simp [splitSlashes]
  | cons c rest ih =>
    obtain ⟨piece, pieces, split⟩ := List.exists_cons_of_ne_nil (splitSlashes_ne_nil rest)
    rw [List.cons_append, splitSlashes, splitSlashes, ih, split]
    by_cases slash : c = '/'
    · simp [slash]
    · simp [slash]

namespace Path

/-! ### The steps in a text -/

/-- The steps written in a text, whatever it starts with. -/
def stepsIn (chars : List Char) : List Component := (splitSlashes chars).filterMap stepOf

/-- The components of a text. -/
def componentsIn (chars : List Char) : List Component :=
  (splitFront chars).1.components ++ stepsIn (splitFront chars).2

theorem components_eq (path : Path) : path.components = componentsIn path.text.toList := rfl

theorem stepOf_eq_none_iff {piece : List Char} : stepOf piece = none ↔ isBlank piece = true := by
  unfold stepOf
  split
  · simpa
  · rename_i step
    split <;> simp [step]

theorem root_ne_of_stepOf {piece : List Char} {step : Component}
    (stepped : stepOf piece = some step) : step ≠ .root := by
  unfold stepOf at stepped
  split at stepped
  · cases stepped
  · split at stepped <;> cases stepped <;> simp

theorem stepsIn_slash (left right : List Char) :
    stepsIn (left ++ '/' :: right) = stepsIn left ++ stepsIn right := by
  rw [stepsIn, splitSlashes_slash, List.filterMap_append, stepsIn, stepsIn]

/-- The front of a text holds no steps. -/
theorem stepsIn_splitFront (chars : List Char) : stepsIn (splitFront chars).2 = stepsIn chars := by
  fun_cases splitFront chars with
  | case1 rest => exact (stepsIn_slash [] rest).symm
  | case2 => rfl
  | case3 rest => exact (stepsIn_slash [] rest).trans (stepsIn_slash ['.'] rest).symm
  | case4 => rfl

/-- What is written after a slash does not change what a text starts with. -/
theorem front_slash {left : List Char} (nonempty : left ≠ []) (right : List Char) :
    (splitFront (left ++ '/' :: right)).1 = (splitFront left).1 := by
  fun_cases splitFront left with
  | case1 rest => rfl
  | case2 => rfl
  | case3 rest => rfl
  | case4 =>
    rename_i notRoot notDot notCurrent
    rcases left with _ | ⟨c, _ | ⟨d, rest⟩⟩
    · exact absurd rfl nonempty
    · have noSlash : c ≠ '/' := fun same => notRoot [] (same ▸ rfl)
      have noDot : c ≠ '.' := fun same => notDot (same ▸ rfl)
      simp [splitFront, noSlash, noDot]
    · have noSlash : c ≠ '/' := fun same => notRoot (d :: rest) (same ▸ rfl)
      have noCurrent : ¬(c = '.' ∧ d = '/') := fun same => notCurrent rest (same.1 ▸ same.2 ▸ rfl)
      unfold splitFront
      split <;> simp_all

theorem componentsIn_slash {left : List Char} (nonempty : left ≠ []) (right : List Char) :
    componentsIn (left ++ '/' :: right) = componentsIn left ++ stepsIn right := by
  rw [componentsIn, componentsIn, front_slash nonempty, stepsIn_splitFront, stepsIn_splitFront,
    stepsIn_slash, List.append_assoc]

/-! ### Pieces after a front -/

/-- Pieces that, written after a front, are taken for pieces again. -/
def Fits (front : Front) (pieces : List (List Char)) : Prop :=
  ∀ piece ∈ pieces.head?, match front with
    | .root => True
    | .current => piece = []
    | .none => isBlank piece = false

theorem Fits.lead {front : Front} {pieces lead : List (List Char)} (fits : Fits front pieces)
    (isLead : lead <+: pieces) : Fits front lead := by
  obtain ⟨rest, rfl⟩ := isLead
  cases lead with
  | nil => simp [Fits]
  | cons piece lead => exact fits

theorem splitFront_ofPieces {front : Front} {pieces : List (List Char)} (fits : Fits front pieces)
    (unslashed : ∀ piece ∈ pieces, '/' ∉ piece) :
    splitFront (front.chars ++ joinSlashes pieces) = (front, joinSlashes pieces) := by
  cases front with
  | root => rfl
  | current =>
    rcases pieces with _ | ⟨piece, _ | ⟨next, others⟩⟩
    · rfl
    · cases (fits _ rfl : piece = [])
      rfl
    · cases (fits _ rfl : piece = [])
      rfl
  | none =>
    rcases pieces with _ | ⟨_ | ⟨c, rest⟩, others⟩
    · rfl
    · cases fits _ rfl
    · have notDot : c :: rest ≠ ['.'] := fun same => by
        have blank := fits _ rfl
        rw [same] at blank
        cases blank
      have noSlash := unslashed (c :: rest) List.mem_cons_self
      rw [List.mem_cons, not_or] at noSlash
      cases others with
      | nil =>
        simp only [Front.chars, joinSlashes, List.nil_append]
        unfold splitFront
        split <;> simp_all
      | cons next others =>
        simp only [Front.chars, joinSlashes, List.nil_append, List.cons_append]
        unfold splitFront
        cases rest with
        | nil => split <;> simp_all
        | cons d rest => split <;> simp_all

theorem stepsIn_joinSlashes {pieces : List (List Char)}
    (unslashed : ∀ piece ∈ pieces, '/' ∉ piece) :
    stepsIn (joinSlashes pieces) = pieces.filterMap stepOf := by
  cases pieces with
  | nil => rfl
  | cons piece pieces => rw [stepsIn, splitSlashes_joinSlashes (List.cons_ne_nil _ _) unslashed]

theorem front_ofPieces {front : Front} {pieces : List (List Char)} (fits : Fits front pieces)
    (unslashed : ∀ piece ∈ pieces, '/' ∉ piece) : (ofPieces front pieces).front = front := by
  rw [Path.front, ofPieces, String.toList_ofList, splitFront_ofPieces fits unslashed]

theorem components_ofPieces {front : Front} {pieces : List (List Char)} (fits : Fits front pieces)
    (unslashed : ∀ piece ∈ pieces, '/' ∉ piece) :
    (ofPieces front pieces).components = front.components ++ pieces.filterMap stepOf := by
  rw [components_eq, ofPieces, String.toList_ofList, componentsIn, splitFront_ofPieces fits unslashed,
    stepsIn_joinSlashes unslashed]

theorem trimRight_eq (pieces : List (List Char)) : trimRight pieces = pieces.rdropWhile isBlank := rfl

theorem trimRight_leads (pieces : List (List Char)) : trimRight pieces <+: pieces :=
  List.rdropWhile_prefix isBlank pieces

/-- Blank pieces at the end are no steps. -/
theorem filterMap_trimRight (pieces : List (List Char)) :
    (trimRight pieces).filterMap stepOf = pieces.filterMap stepOf := by
  induction pieces using List.reverseRecOn with
  | nil => rfl
  | append_singleton pieces piece ih =>
    rw [trimRight_eq, List.rdropWhile_concat, ← trimRight_eq]
    split
    · rename_i blank
      rw [ih, List.filterMap_append, List.filterMap_cons_none (stepOf_eq_none_iff.mpr blank),
        List.filterMap_nil, List.append_nil]
    · rfl

theorem not_blank_of_trimRight {pieces above : List (List Char)} {piece : List Char}
    (trimmed : trimRight pieces = above ++ [piece]) : isBlank piece = false := by
  have last := List.rdropWhile_last_not isBlank pieces (by simp [← trimRight_eq, trimmed])
  simpa [← trimRight_eq, trimmed] using last

/-- The pieces of a path that is not empty can stand after its front. -/
theorem fits_pieces {path : Path} (nonempty : path.text ≠ "") : Fits path.front path.pieces := by
  have written : path.text.toList ≠ [] := by simpa using nonempty
  unfold front pieces
  revert written
  fun_cases splitFront path.text.toList with
  | case1 rest => exact fun _ _ _ => trivial
  | case2 => simp [Fits, splitSlashes]
  | case3 rest => simp [Fits, splitSlashes]
  | case4 =>
    rename_i chars notRoot notDot notCurrent
    intro written
    obtain ⟨c, rest, rfl⟩ := List.exists_cons_of_ne_nil written
    have noSlash : c ≠ '/' := fun same => notRoot rest (same ▸ rfl)
    rw [splitSlashes, if_neg noSlash]
    cases rest with
    | nil =>
      have noDot : c ≠ '.' := fun same => notDot (same ▸ rfl)
      simp [Fits, splitSlashes, isBlank, noDot]
    | cons d rest =>
      obtain ⟨piece, pieces, split⟩ := List.exists_cons_of_ne_nil (splitSlashes_ne_nil rest)
      by_cases slash : d = '/'
      · have noDot : c ≠ '.' := fun same => notCurrent rest (same ▸ slash ▸ rfl)
        simp [Fits, splitSlashes, isBlank, slash, noDot]
      · simp [Fits, splitSlashes, isBlank, slash, split]

theorem fits_trimRight_pieces (path : Path) : Fits path.front (trimRight path.pieces) := by
  by_cases empty : path.text = ""
  · have trimmed : trimRight path.pieces = [] := by
      rw [pieces, empty]
      rfl
    simp [Fits, trimmed]
  · exact (fits_pieces empty).lead (trimRight_leads _)

theorem components_eq_nil_iff {path : Path} : path.components = [] ↔ path.text = "" := by
  constructor
  · intro none
    by_contra nonempty
    have fits := fits_pieces nonempty
    have parts : path.front.components = [] ∧ path.pieces.filterMap stepOf = [] :=
      List.append_eq_nil_iff.mp none
    obtain ⟨first, rest, split⟩ := List.exists_cons_of_ne_nil
      (splitSlashes_ne_nil (splitFront path.text.toList).2)
    change path.pieces = first :: rest at split
    cases front : path.front with
    | root => simp [front, Front.components] at parts
    | current => simp [front, Front.components] at parts
    | none =>
      rw [front, split] at fits
      have step : isBlank first = false := fits first rfl
      have blank := List.filterMap_eq_nil_iff.mp parts.2 first (split ▸ List.mem_cons_self)
      rw [stepOf_eq_none_iff, step] at blank
      cases blank
  · intro empty
    rw [components_eq, empty]
    rfl

theorem unslashed_pieces (path : Path) : ∀ piece ∈ path.pieces, '/' ∉ piece :=
  fun _ member => not_mem_of_mem_splitSlashes member

theorem unslashed_trimRight_pieces (path : Path) : ∀ piece ∈ trimRight path.pieces, '/' ∉ piece :=
  fun piece member => unslashed_pieces path piece ((trimRight_leads _).subset member)

/-! ### Directories -/

/-- The directory of a path has all of its components but the last. Only the root and the empty path
lie in none. -/
theorem parent?_cases (path : Path) :
    (path.parent? = none ∧ (path.components = [] ∨ path.components = [.root])) ∨
      ∃ directory last, path.parent? = some directory ∧ last ≠ .root ∧
        path.components = directory.components ++ [last] := by
  have fits := fits_trimRight_pieces path
  have unslashed := unslashed_trimRight_pieces path
  have written : path.components = path.front.components ++
      (trimRight path.pieces).filterMap stepOf := by
    rw [filterMap_trimRight]
    rfl
  unfold parent?
  split
  · rename_i none
    rw [none] at written
    cases front : path.front with
    | root => exact .inl ⟨rfl, .inr (by rw [written, front]; rfl)⟩
    | current => exact .inr ⟨⟨""⟩, .current, rfl, by simp, by rw [written, front]; rfl⟩
    | none => exact .inl ⟨rfl, .inl (by rw [written, front]; rfl)⟩
  · rename_i kept first rest trimmed
    obtain ⟨above, piece, same⟩ := (List.eq_nil_or_concat (first :: rest)).resolve_left (by simp)
    rw [List.concat_eq_append] at same
    rw [same] at trimmed ⊢
    have lead : trimRight above <+: trimRight path.pieces := by
      rw [trimmed]
      exact (trimRight_leads above).trans (List.prefix_append above [piece])
    obtain ⟨step, stepped⟩ := Option.ne_none_iff_exists'.mp fun blank =>
      Bool.false_ne_true ((not_blank_of_trimRight trimmed).symm.trans (stepOf_eq_none_iff.mp blank))
    refine .inr ⟨_, step, rfl, root_ne_of_stepOf stepped, ?_⟩
    rw [List.dropLast_concat, components_ofPieces (fits.lead lead)
      fun other member => unslashed other (lead.subset member), filterMap_trimRight, written, trimmed,
      List.filterMap_append, List.filterMap_cons_some stepped, List.filterMap_nil,
      List.append_assoc]

/-! ### Joined paths -/

theorem join_of_isAbsolute {path : Path} (absolute : path.isAbsolute = true) (base : Path) :
    base.join path = path := by
  rw [join, if_pos absolute]

theorem join_of_components_eq_nil {base : Path} (empty : base.components = []) (path : Path) :
    base.join path = path := by
  rw [join, if_pos (components_eq_nil_iff.mp empty)]
  split <;> rfl

/-- A leading `.` of the second path is no step of the joined one. -/
theorem components_join {base path : Path} (nonempty : base.components ≠ [])
    (relative : path.isAbsolute = false) :
    (base.join path).components = base.components ++ stepsIn path.text.toList := by
  have written : base.text ≠ "" := mt components_eq_nil_iff.mpr nonempty
  have chars : base.text.toList ≠ [] := by simpa using written
  rw [join, if_neg (by simp [relative]), if_neg written]
  split
  · rename_i slash
    obtain ⟨left, same⟩ : ∃ left, base.text.toList = left ++ ['/'] :=
      ⟨_, (List.dropLast_append_getLast? _ slash).symm⟩
    rw [components_eq, components_eq, String.toList_append, same, List.append_assoc]
    cases left with
    | nil => rfl
    | cons c left =>
      rw [List.singleton_append, componentsIn_slash (by simp), componentsIn_slash (by simp)]
      simp [stepsIn, splitSlashes, stepOf, isBlank]
  · rw [components_eq, components_eq, String.toList_append, String.toList_append, List.append_assoc]
    exact componentsIn_slash chars _

/-! ### What follows a base -/

theorem dropSteps_suffix (count : Nat) (pieces : List (List Char)) :
    dropSteps count pieces <:+ pieces := by
  fun_induction dropSteps count pieces with
  | case1 => exact List.suffix_rfl
  | case2 count piece pieces _ ih => exact ih.trans (List.suffix_cons piece pieces)
  | case3 => exact List.suffix_rfl
  | case4 piece pieces _ count ih => exact ih.trans (List.suffix_cons piece pieces)

theorem filterMap_dropSteps (count : Nat) (pieces : List (List Char)) :
    (dropSteps count pieces).filterMap stepOf = (pieces.filterMap stepOf).drop count := by
  fun_induction dropSteps count pieces with
  | case1 => simp
  | case2 count piece pieces blank ih =>
    rw [ih, List.filterMap_cons_none (stepOf_eq_none_iff.mpr blank)]
  | case3 => rfl
  | case4 piece pieces step count ih =>
    obtain ⟨component, stepped⟩ := Option.ne_none_iff_exists'.mp (mt stepOf_eq_none_iff.mp step)
    rw [ih, List.filterMap_cons_some stepped, List.drop_succ_cons]

theorem fits_dropSteps (count : Nat) (pieces : List (List Char)) :
    Fits .none (dropSteps count pieces) := by
  fun_induction dropSteps count pieces with
  | case1 => simp [Fits]
  | case2 count piece pieces _ ih => exact ih
  | case3 piece pieces step => simpa [Fits] using step
  | case4 piece pieces _ count ih => exact ih

theorem stripBase?_eq_none_iff {path base : Path} :
    path.stripBase? base = none ↔ ¬base.components <+: path.components := by
  rw [← List.isPrefixOf_iff_prefix, stripBase?, startsWith]
  split
  · simp_all
  · split <;> simp_all

/-- What follows a base makes it the whole path again, and starts like a path of its own only if the
base is empty. -/
theorem components_of_stripBase? {path base rest : Path} (found : path.stripBase? base = some rest) :
    path.components = base.components ++ rest.components ∧
      rest.front = if base.components = [] then path.front else .none := by
  have lead : base.components <+: path.components := by
    by_contra apart
    rw [stripBase?_eq_none_iff.mpr apart] at found
    cases found
  rw [stripBase?, startsWith, List.isPrefixOf_iff_prefix.mpr lead] at found
  simp only [Bool.not_true, Bool.false_eq_true, if_false] at found
  split at found
  · rename_i empty
    cases found
    have fits := fits_trimRight_pieces path
    have unslashed := unslashed_trimRight_pieces path
    rw [components_ofPieces fits unslashed, front_ofPieces fits unslashed, filterMap_trimRight,
      empty, if_pos rfl]
    exact ⟨rfl, rfl⟩
  · rename_i nonempty
    cases found
    rw [if_neg nonempty]
    generalize count : base.components.length - path.front.components.length = steps
    have fits : Fits .none (trimRight (dropSteps steps path.pieces)) :=
      (fits_dropSteps steps path.pieces).lead (trimRight_leads _)
    have unslashedRest : ∀ piece ∈ trimRight (dropSteps steps path.pieces), '/' ∉ piece :=
      fun piece member => unslashed_pieces path piece
        ((dropSteps_suffix _ _).subset ((trimRight_leads _).subset member))
    refine ⟨?_, front_ofPieces fits unslashedRest⟩
    have short : path.front.components.length ≤ base.components.length := by
      have atLeastOne := List.length_pos_iff.mpr nonempty
      cases path.front <;> simp [Front.components] <;> omega
    rw [components_ofPieces fits unslashedRest, filterMap_trimRight, filterMap_dropSteps]
    calc
      path.components = path.components.take base.components.length ++
          path.components.drop base.components.length := (List.take_append_drop _ _).symm
      _ = base.components ++ (path.front.components ++ path.pieces.filterMap stepOf).drop
          base.components.length := by rw [← List.prefix_iff_eq_take.mp lead]; rfl
      _ = base.components ++ (Front.none.components ++ (path.pieces.filterMap stepOf).drop steps) := by
        rw [List.drop_append, List.drop_eq_nil_of_le short, count]
        rfl

/-! ### Paths rebuilt from components -/

/-- A step of a text, written alone, is a path of that step. -/
theorem ofComponent_of_mem_stepsIn {chars : List Char} {step : Component}
    (member : step ∈ stepsIn chars) :
    (ofComponent step).front = .none ∧ (ofComponent step).components = [step] := by
  obtain ⟨piece, listed, stepped⟩ := List.mem_filterMap.mp member
  have unslashed : ∀ other ∈ [piece], '/' ∉ other := by
    simpa using not_mem_of_mem_splitSlashes listed
  have fits : Fits .none [piece] := by
    intro first isFirst
    cases isFirst
    rw [← Bool.not_eq_true, ← stepOf_eq_none_iff, stepped]
    simp
  have written : ofComponent step = ofPieces .none [piece] := by
    unfold stepOf at stepped
    split at stepped
    · cases stepped
    · split at stepped
      · rename_i double
        cases stepped
        rw [double]
        rfl
      · cases stepped
        rfl
  rw [written, front_ofPieces fits unslashed, components_ofPieces fits unslashed,
    List.filterMap_cons_some stepped]
  exact ⟨rfl, rfl⟩

theorem stepsIn_of_front_eq_none {path : Path} (plain : path.front = .none) :
    stepsIn path.text.toList = path.components := by
  rw [components_eq, componentsIn, ← front, plain, stepsIn_splitFront]
  rfl

/-- Only the first component of a path can be its front. -/
theorem mem_stepsIn_of_lead {path : Path} {before : List Component} {component : Component}
    (lead : before ++ [component] <+: path.components) (later : before ≠ []) :
    component ∈ stepsIn path.text.toList := by
  have written : path.components = path.front.components ++ stepsIn path.text.toList := by
    rw [← stepsIn_splitFront]
    rfl
  obtain ⟨first, before, rfl⟩ := List.exists_cons_of_ne_nil later
  obtain ⟨rest, same⟩ := lead
  rw [written] at same
  cases front : path.front with
  | none =>
    rw [front] at same
    change _ = stepsIn path.text.toList at same
    simp [← same]
  | root | current =>
    rw [front] at same
    simp only [Front.components, List.cons_append, List.cons.injEq, List.nil_append] at same
    simp [← same.2]

theorem components_ofComponent {path : Path} {component : Component}
    (member : component ∈ path.components) : (ofComponent component).components = [component] := by
  rcases List.mem_append.mp member with atFront | step
  · cases front : path.front <;> rw [front] at atFront <;>
      simp only [Front.components, List.mem_singleton, List.not_mem_nil] at atFront
    · subst atFront
      rfl
    · subst atFront
      rfl
  · exact (ofComponent_of_mem_stepsIn step).2

/-- Components that some path starts with are those of the path rebuilt from them. -/
theorem components_ofComponents {path : Path} {components : List Component}
    (lead : components <+: path.components) : (ofComponents components).components = components := by
  induction components using List.reverseRecOn with
  | nil => rfl
  | append_singleton before component ih =>
    have rebuilt := ih ((List.prefix_append before [component]).trans lead)
    have member : component ∈ path.components := lead.subset (by simp)
    have last : ofComponents (before ++ [component]) =
        (ofComponents before).join (ofComponent component) := by
      simp [ofComponents]
    rw [last]
    by_cases first : before = []
    · subst first
      rw [join_of_components_eq_nil rebuilt, components_ofComponent member]
      rfl
    · obtain ⟨plain, alone⟩ := ofComponent_of_mem_stepsIn (mem_stepsIn_of_lead lead first)
      rw [components_join (rebuilt.symm ▸ first) (by simp [isAbsolute, plain]), rebuilt,
        stepsIn_of_front_eq_none plain, alone]

end Path

end CallGraph
