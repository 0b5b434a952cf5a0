import CallGraph.Catalog.Basic
import CallGraph.Index.Basic

/-!
# Pending files

The files of a catalog that have not been ingested. Their number is what a search that ingests
files uses up: each success leaves fewer, and a failure changes nothing.
-/
namespace CallGraph

/-- How many files of a catalog have not been ingested. -/
def Catalog.pending (catalog : Catalog) (files : FileSystem) (index : Index) : Nat :=
  catalog.paths.countP fun file => !index.isIngested files file

namespace Path

@[simp] theorem same_iff {left right : Path} :
    left.same right = true ↔ left.components = right.components := by simp [same]

end Path

theorem mem_addPath_of_mem {paths : List Path} {path other : Path} (known : other ∈ paths) :
    other ∈ addPath paths path := by
  unfold addPath
  split
  · exact known
  · exact List.mem_append_left _ known

theorem any_same_addPath (paths : List Path) (path : Path) :
    (addPath paths path).any path.same = true := by
  unfold addPath
  split
  · assumption
  · simp

namespace Index

/-- The index after a successful ingest remembers the canonical path of the file. -/
theorem ingested_of_ingest {tools : Toolchain} {index after : Index} {file : Path}
    {arguments : List String} {keepSystem : Bool} {report : IngestReport}
    (success : index.ingest tools file arguments keepSystem = .ok (after, report)) :
    after.ingested = addPath index.ingested (tools.files.canonical file) := by
  unfold ingest ingestExcluding at success
  split at success
  · simp at success
  · rename_i path found
    split at success
    · simp at success
    · simp only [Except.ok.injEq, Prod.mk.injEq] at success
      rw [← success.1]
      simp [FileSystem.canonical, found]

theorem isIngested_of_ingest {tools : Toolchain} {index after : Index} {file : Path}
    {arguments : List String} {keepSystem : Bool} {report : IngestReport}
    (success : index.ingest tools file arguments keepSystem = .ok (after, report)) :
    after.isIngested tools.files file = true := by
  rw [isIngested, ingested_of_ingest success]
  exact any_same_addPath _ _

theorem isIngested_mono {tools : Toolchain} {index after : Index} {file other : Path}
    {arguments : List String} {keepSystem : Bool} {report : IngestReport}
    (success : index.ingest tools file arguments keepSystem = .ok (after, report))
    (known : index.isIngested tools.files other = true) :
    after.isIngested tools.files other = true := by
  simp only [isIngested, List.any_eq_true] at known ⊢
  obtain ⟨path, member, same⟩ := known
  exact ⟨path, ingested_of_ingest success ▸ mem_addPath_of_mem member, same⟩

end Index

theorem countP_lt_countP {α : Type} {p q : α → Bool} {xs : List α} {x : α}
    (weaker : ∀ y, q y = true → p y = true) (member : x ∈ xs) (dropped : p x = true)
    (gone : q x = false) : xs.countP q < xs.countP p := by
  induction xs with
  | nil => simp at member
  | cons y ys ih =>
    have below : ys.countP q ≤ ys.countP p := List.countP_mono_left fun y _ => weaker y
    simp only [List.countP_cons]
    rcases List.mem_cons.mp member with rfl | later
    · simp only [dropped, gone, Bool.false_eq_true, if_false, if_true]
      omega
    · have smaller := ih later
      by_cases accepted : q y = true
      · simp only [accepted, weaker y accepted, if_true]
        omega
      · rw [if_neg accepted]
        omega

/-- Ingesting a pending file of a catalog leaves fewer pending. -/
theorem Catalog.pending_lt_of_ingest {catalog : Catalog} {tools : Toolchain}
    {index after : Index} {file : Path} {arguments : List String} {keepSystem : Bool}
    {report : IngestReport} (listed : file ∈ catalog.paths)
    (new : index.isIngested tools.files file = false)
    (success : index.ingest tools file arguments keepSystem = .ok (after, report)) :
    catalog.pending tools.files after < catalog.pending tools.files index := by
  refine countP_lt_countP (fun other fresh => ?_) listed (by simp [new])
    (by simp [Index.isIngested_of_ingest success])
  cases known : index.isIngested tools.files other with
  | false => rfl
  | true => simp [Index.isIngested_mono success known] at fresh

end CallGraph
