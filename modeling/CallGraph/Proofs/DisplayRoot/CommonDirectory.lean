import CallGraph.DisplayRoot
import CallGraph.Proofs.Path.Components

/-!
# The common directory

Main result: `commonDirectory?_greatest`. The directory that a list of paths shares leads the
directories of all of them, and whatever else leads them all leads it. So it does not depend on the
order of the paths, nor on how often one is listed.

The directory comes about by meeting one directory after another. What two lists begin with is
their greatest lower bound in the order of being a prefix, and so the meetings add up to the
greatest lower bound of all.
-/
namespace CallGraph

/-! ### Shared leads -/

/-- What two lists begin with, as far as they agree. -/
structure LongestLead {α : Type} (left right lead : List α) : Prop where
  leads_left : lead <+: left
  leads_right : lead <+: right
  longest : ∀ other, other <+: left → other <+: right → other <+: lead

theorem longestLead_commonLead {α : Type} [DecidableEq α] (left right : List α) :
    LongestLead left right (DisplayRoot.commonLead left right) := by
  have nothing {left right : List α} (apart : ∀ x, ¬([x] <+: left ∧ [x] <+: right)) :
      LongestLead left right [] := by
    refine ⟨List.nil_prefix, List.nil_prefix, fun other inLeft inRight => ?_⟩
    cases other with
    | nil => exact List.nil_prefix
    | cons x rest =>
      have first : [x] <+: x :: rest := List.prefix_append [x] rest
      exact absurd ⟨first.trans inLeft, first.trans inRight⟩ (apart x)
  induction left generalizing right with
  | nil => exact nothing (by simp)
  | cons x left ih =>
    cases right with
    | nil => exact nothing (by simp)
    | cons y right =>
      rw [DisplayRoot.commonLead]
      split
      · rename_i same
        subst same
        have rest := ih right
        refine ⟨(List.prefix_cons_inj x).mpr rest.leads_left,
          (List.prefix_cons_inj x).mpr rest.leads_right, fun other inLeft inRight => ?_⟩
        rcases List.prefix_cons_iff.mp inLeft with rfl | ⟨more, rfl, leftMore⟩
        · exact List.nil_prefix
        · exact (List.prefix_cons_inj x).mpr
            (rest.longest more leftMore ((List.prefix_cons_inj x).mp inRight))
      · rename_i differ
        refine nothing fun z ⟨inLeft, inRight⟩ => differ ?_
        rw [List.cons_prefix_cons] at inLeft inRight
        exact inLeft.1.symm.trans inRight.1

section GreatestLead

variable {α : Type} {lists others : List (List α)} {lead other : List α}

/-- What all of some lists begin with, as far as they agree. -/
structure GreatestLead (lists : List (List α)) (lead : List α) : Prop where
  leads : ∀ list ∈ lists, lead <+: list
  greatest : ∀ other, (∀ list ∈ lists, other <+: list) → other <+: lead

/-- The lists matter only as a set. -/
theorem GreatestLead.congr (isLead : GreatestLead lists lead)
    (same : ∀ list, list ∈ others ↔ list ∈ lists) : GreatestLead others lead where
  leads list member := isLead.leads list ((same list).mp member)
  greatest other leads := isLead.greatest other fun list member => leads list ((same list).mpr member)

theorem GreatestLead.unique (isLead : GreatestLead lists lead) (isOther : GreatestLead lists other) :
    lead = other :=
  have below : lead <+: other := isOther.greatest lead isLead.leads
  below.eq_of_length_le (isLead.greatest other isOther.leads).length_le

theorem greatestLead_singleton (list : List α) : GreatestLead [list] list :=
  ⟨by simp, by simp⟩

/-- Two lists can be replaced by what they begin with. -/
theorem GreatestLead.of_longestLead {left right first : List α}
    (longest : LongestLead left right first) (isLead : GreatestLead (first :: lists) lead) :
    GreatestLead (left :: right :: lists) lead := by
  have below := isLead.leads first List.mem_cons_self
  refine ⟨fun list member => ?_, fun other leads => isLead.greatest other fun list member => ?_⟩
  · rcases List.mem_cons.mp member with rfl | member
    · exact below.trans longest.leads_left
    · rcases List.mem_cons.mp member with rfl | member
      · exact below.trans longest.leads_right
      · exact isLead.leads list (List.mem_cons_of_mem first member)
  · rcases List.mem_cons.mp member with rfl | member
    · exact longest.longest other (leads left (by simp)) (leads right (by simp))
    · exact leads list (by simp [member])

end GreatestLead

namespace DisplayRoot

theorem components_meet (left right : Path) :
    (meet left right).components = commonLead left.components right.components :=
  Path.components_ofComponents (longestLead_commonLead _ _).leads_left

/-- Meeting one directory after another gives what all of them begin with. -/
theorem greatestLead_foldl_meet (start : Path) (paths : List Path) :
    GreatestLead (start.components :: paths.map fun path => (directoryOf path).components)
      (paths.foldl (fun common next => meet common (directoryOf next)) start).components := by
  induction paths generalizing start with
  | nil => exact greatestLead_singleton _
  | cons path paths ih =>
    refine GreatestLead.of_longestLead ?_ (ih (meet start (directoryOf path)))
    rw [components_meet]
    exact longestLead_commonLead _ _

theorem greatestLead_commonDirectory? {paths : List Path} (nonempty : paths ≠ []) :
    ∃ common, commonDirectory? paths = some common ∧
      GreatestLead (paths.map fun path => (directoryOf path).components) common.components := by
  cases paths with
  | nil => exact absurd rfl nonempty
  | cons path paths => exact ⟨_, rfl, greatestLead_foldl_meet _ _⟩

/-- However paths are written, the directory that they share leads the directories of all of them,
where a path without a directory stands for its own, and whatever leads all of these leads it. A
list of the same paths in another order, or with some of them repeated, shares the same directory. -/
theorem commonDirectory?_greatest {paths : List Path} (nonempty : paths ≠ []) :
    ∃ common, commonDirectory? paths = some common ∧
      (∀ path ∈ paths, common.components <+: (path.parent?.getD path).components) ∧
      (∀ lead, (∀ path ∈ paths, lead <+: (path.parent?.getD path).components) →
        lead <+: common.components) ∧
      ∀ others, (∀ path, path ∈ others ↔ path ∈ paths) →
        ∃ same, commonDirectory? others = some same ∧ same.components = common.components := by
  obtain ⟨common, found, isLead⟩ := greatestLead_commonDirectory? nonempty
  refine ⟨common, found, ?_, ?_, fun others samePaths => ?_⟩
  · simpa [directoryOf] using isLead.leads
  · intro lead leads
    exact isLead.greatest lead (by simpa [directoryOf] using leads)
  · have nonemptyToo : others ≠ [] := by
      rintro rfl
      exact nonempty (List.eq_nil_iff_forall_not_mem.mpr fun path => by simp [← samePaths path])
    obtain ⟨same, foundToo, isLeadToo⟩ := greatestLead_commonDirectory? nonemptyToo
    exact ⟨same, foundToo, isLeadToo.unique (isLead.congr (by simp [samePaths]))⟩

private def mixedPaths : List Path := [⟨"./src//a/x.cpp"⟩, ⟨"./src/../b.cpp"⟩, ⟨"./src/c/"⟩]

/-- A leading `.` is shared, the doubled slash does not matter, and `..` is a step like any other. -/
theorem relative_paths_share_directory :
    mixedPaths ≠ [] ∧ ∃ common, commonDirectory? mixedPaths = some common ∧ common.text = "./src" ∧
      (∀ path ∈ mixedPaths, common.components <+: (path.parent?.getD path).components) ∧
      ∃ same, commonDirectory? (mixedPaths ++ mixedPaths.reverse) = some same ∧
        same.components = common.components := by
  have nonempty : mixedPaths ≠ [] := by simp [mixedPaths]
  obtain ⟨common, found, leads, _, again⟩ := commonDirectory?_greatest nonempty
  have computed : commonDirectory? mixedPaths = some ⟨"./src"⟩ := by decide +kernel
  refine ⟨nonempty, common, found, ?_, leads, again _ (by simp)⟩
  rw [computed, Option.some.injEq] at found
  rw [← found]

end DisplayRoot

end CallGraph
