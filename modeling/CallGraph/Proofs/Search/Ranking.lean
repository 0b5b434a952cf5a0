import CallGraph.Proofs.Catalog.Entries
import CallGraph.Proofs.DisplayRoot.CommonDirectory
import CallGraph.Proofs.Search.Growth
import Mathlib.Data.List.Nodup

/-!
# The ranking of candidates

Main result: `candidates_ranked`. The candidates for the definition of a callable are the files of
the catalog that have not been ingested and hold the spelling of the callable among their bytes,
each of them once. They are ordered by how many leading steps they share with the unit that the
callable was seen from, and files that share as many keep the order of the catalog.

That the order is as described comes from two facts about the sort: its result is ascending, and
two elements that do not force an order keep theirs. Since no path stands twice in a catalog, the
description is a strict order, so it leaves the candidates in one order only.
-/
namespace CallGraph

theorem Text.occursIn_iff {α : Type} [DecidableEq α] {target whole : List α} :
    occursIn target whole = true ↔ target <:+: whole := by
  induction whole with
  | nil => simp [occursIn]
  | cons x rest ih =>
    rw [occursIn, Bool.or_eq_true, ih, List.isPrefixOf_iff_prefix, List.infix_cons_iff]

theorem mentions_iff {files : FileSystem} {spelling : String} {file : Path} :
    mentions files spelling file = true ↔
      ∃ bytes, files.read file = .ok bytes ∧ bytes ≠ [] ∧ Utf8.encode spelling <:+: bytes := by
  unfold mentions
  cases files.read file with
  | error error => simp
  | ok bytes => simp [Text.occursIn_iff]

/-! ### Sorting by scores -/

section Earlier

variable {α : Type} {xs : List α} {x y : α}

/-- One element stands somewhere before another. -/
def Earlier (xs : List α) (x y : α) : Prop := [x, y].Sublist xs

theorem Earlier.mem_left (earlier : Earlier xs x y) : x ∈ xs :=
  List.Sublist.subset earlier List.mem_cons_self

theorem Earlier.mem_right (earlier : Earlier xs x y) : y ∈ xs :=
  List.Sublist.subset earlier (List.mem_cons_of_mem _ List.mem_cons_self)

theorem Earlier.ne (distinct : xs.Nodup) (earlier : Earlier xs x y) : x ≠ y := by
  have pair : [x, y].Nodup := List.Nodup.sublist earlier distinct
  simpa using pair

theorem Earlier.asymm (distinct : xs.Nodup) (earlier : Earlier xs x y) : ¬Earlier xs y x := by
  unfold Earlier at *
  induction xs with
  | nil => simp at earlier
  | cons first xs ih =>
    obtain ⟨new, rest⟩ := List.nodup_cons.mp distinct
    intro reversed
    -- The head of the list can be the first of one pair only, and then it is in the other as well.
    rcases List.sublist_cons_iff.mp earlier with below | ⟨_, same, below⟩
    · rcases List.sublist_cons_iff.mp reversed with belowToo | ⟨_, same, _⟩
      · exact ih rest below belowToo
      · cases same
        exact new (below.subset (by simp))
    · cases same
      rcases List.sublist_cons_iff.mp reversed with belowToo | ⟨_, same, belowToo⟩
      · exact new (belowToo.subset (by simp))
      · cases same
        exact new (below.subset (by simp))

theorem earlier_or_earlier (inXs : x ∈ xs) (inXsToo : y ∈ xs) (differ : x ≠ y) :
    Earlier xs x y ∨ Earlier xs y x := by
  obtain ⟨before, after, rfl⟩ := List.append_of_mem inXs
  rcases List.mem_append.mp inXsToo with first | later
  · right
    exact (List.singleton_sublist.mpr first).append
      (List.singleton_sublist.mpr (List.mem_cons_self (a := x) (l := after)))
  · left
    have next := (List.mem_cons.mp later).resolve_left differ.symm
    exact ((List.singleton_sublist.mpr next).cons_cons x).trans (List.sublist_append_right before _)

/-- Sorted by falling scores, each element has a higher score than those after it, or the same
score and an earlier place before the sort. -/
theorem pairwise_mergeSort_score (score : α → Nat) (distinct : xs.Nodup) :
    (xs.mergeSort fun x y => score y ≤ score x).Pairwise fun x y =>
      score y < score x ∨ score x = score y ∧ Earlier xs x y := by
  have trans (x y z : α) (first : decide (score y ≤ score x) = true)
      (second : decide (score z ≤ score y) = true) : decide (score z ≤ score x) = true := by
    simp only [decide_eq_true_eq] at *
    omega
  have total (x y : α) : (decide (score y ≤ score x) || decide (score x ≤ score y)) = true := by
    simp only [Bool.or_eq_true, decide_eq_true_eq]
    omega
  have sorted := List.pairwise_mergeSort trans total xs
  have nodup := (List.mergeSort_perm xs fun x y => score y ≤ score x).nodup_iff.mpr distinct
  rw [List.pairwise_iff_forall_sublist] at sorted ⊢
  intro x y pair
  have inXs : x ∈ xs ∧ y ∈ xs := by
    simpa using And.intro (Earlier.mem_left pair) (Earlier.mem_right pair)
  rcases Nat.lt_or_eq_of_le (of_decide_eq_true (sorted pair)) with lower | same
  · exact .inl lower
  · refine .inr ⟨same.symm, ?_⟩
    refine (earlier_or_earlier inXs.1 inXs.2 (Earlier.ne nodup pair)).resolve_right fun reversed => ?_
    -- The sort is stable, so it would have kept the two as they were.
    exact Earlier.asymm nodup pair
      (List.pair_sublist_mergeSort trans total (decide_eq_true (Nat.le_of_eq same.symm)) reversed)

end Earlier

/-! ### The order of candidates -/

/-- The first of two files is closer to a reference, or as close and listed earlier. -/
def Ranked (listed : List Path) (reference left right : Path) : Prop :=
  sharedSteps reference right < sharedSteps reference left ∨
    sharedSteps reference left = sharedSteps reference right ∧ Earlier listed left right

theorem Ranked.asymm {listed : List Path} {reference left right : Path} (distinct : listed.Nodup)
    (ranked : Ranked listed reference left right) : ¬Ranked listed reference right left := by
  rintro (closer | ⟨same, earlier⟩)
  · rcases ranked with closerToo | ⟨same, _⟩ <;> omega
  · rcases ranked with closer | ⟨_, reversed⟩
    · omega
    · exact reversed.asymm distinct earlier

theorem Catalog.Distinct.nodup {paths : List Path} (distinct : Distinct paths) : paths.Nodup :=
  List.Nodup.of_map _ distinct

namespace DefinitionSearch

variable {search : DefinitionSearch}

/-- The candidates are some files of the catalog, sorted by how close they are. -/
theorem candidates_perm (search : DefinitionSearch) (index : Index) (callable : Callable) :
    (search.candidates index callable).Perm (search.catalog.paths.filter fun file =>
      mentions search.tools.files callable.spelling file &&
        !index.isIngested search.tools.files file) := by
  rw [← List.filter_filter]
  exact List.mergeSort_perm _ _

theorem distinct_candidates (distinct : Catalog.Distinct search.catalog.paths) (index : Index)
    (callable : Callable) : Catalog.Distinct (search.candidates index callable) :=
  ((search.candidates_perm index callable).map Path.components).nodup_iff.mpr
    (distinct.sublist (List.filter_sublist.map Path.components))

/-- Each candidate is ranked before those that come after it. -/
theorem pairwise_candidates (distinct : Catalog.Distinct search.catalog.paths) (index : Index)
    (callable : Callable) :
    (search.candidates index callable).Pairwise
      (Ranked search.catalog.paths callable.translationUnit) := by
  have kept : ((search.catalog.paths.filter fun file =>
      !index.isIngested search.tools.files file).filter
        (mentions search.tools.files callable.spelling)).Sublist search.catalog.paths :=
    List.filter_sublist.trans List.filter_sublist
  refine (pairwise_mergeSort_score (sharedSteps callable.translationUnit)
    (distinct.nodup.sublist kept)).imp fun ranked => ?_
  exact ranked.imp_right fun ⟨same, earlier⟩ => ⟨same, earlier.trans kept⟩

/-- The candidates for a definition are the files of the catalog that have not been ingested and
are read as bytes, not none, in which the spelling of the callable occurs. None of them is listed
twice. One comes before another exactly if it shares more leading steps with the unit of the
callable, not counting the root, or as many and comes earlier in the catalog. -/
theorem candidates_ranked (search : DefinitionSearch) {files : FileSystem}
    (built : search.catalog.Built files) (index : Index) (callable : Callable) :
    let candidates := search.candidates index callable
    let unit := callable.translationUnit
    (∀ file, file ∈ candidates ↔ file ∈ search.catalog.paths ∧
      index.isIngested search.tools.files file = false ∧
      ∃ bytes, search.tools.files.read file = .ok bytes ∧ bytes ≠ [] ∧
        Utf8.encode callable.spelling <:+: bytes) ∧
    Catalog.Distinct candidates ∧
    (∀ left right, Earlier candidates left right ↔ left ∈ candidates ∧ right ∈ candidates ∧
      (sharedSteps unit right < sharedSteps unit left ∨
        sharedSteps unit left = sharedSteps unit right ∧
          Earlier search.catalog.paths left right)) ∧
    ∀ file, ∃ lead, LongestLead unit.components file.components lead ∧
      sharedSteps unit file = lead.countP (· ≠ .root) := by
  intro candidates unit
  have listed := built.distinct.nodup
  have distinct : Catalog.Distinct candidates := distinct_candidates built.distinct index callable
  have pairwise : candidates.Pairwise (Ranked search.catalog.paths unit) :=
    pairwise_candidates built.distinct index callable
  refine ⟨fun file => ?_, distinct, fun left right => ⟨fun earlier => ?_, ?_⟩, fun file => ?_⟩
  · rw [mem_candidates_iff, mentions_iff, and_comm (b := _ = false)]
  · exact ⟨earlier.mem_left, earlier.mem_right,
      List.pairwise_iff_forall_sublist.mp pairwise earlier⟩
  · rintro ⟨inLeft, inRight, ranked⟩
    have differ : left ≠ right := by
      rintro rfl
      exact Ranked.asymm listed ranked ranked
    refine (earlier_or_earlier inLeft inRight differ).resolve_right fun reversed => ?_
    exact Ranked.asymm listed ranked (List.pairwise_iff_forall_sublist.mp pairwise reversed)
  · exact ⟨_, longestLead_commonLead _ _, rfl⟩

section Example

private def rankedSources : FileSystem :=
  [(⟨"/w/far.cpp"⟩, "operator+"), (⟨"/w/net/a.cpp"⟩, "+operator+"), (⟨"/w/net/b.cpp"⟩, "operator+="),
    (⟨"/w/net/c.cpp"⟩, "operator+"), (⟨"/w/net/d.cpp"⟩, "operatorr"), (⟨"/w/net/e.cpp"⟩, "")].foldl
    (fun files (path, text) => files.addFile path (Utf8.encode text)) (.empty ⟨"/w"⟩)

/-- All six files, the one that is far away first; `f.cpp` is listed, but does not exist. -/
private def rankedSearch : DefinitionSearch where
  tools := ⟨⟨rankedSources, fun path _ => .ok ⟨path, [], []⟩⟩, fun _ => []⟩
  catalog := .ofEntries rankedSources ⟨"/w"⟩ (["far.cpp", "net/f.cpp", "net/e.cpp", "net/d.cpp",
    "net/c.cpp", "net/b.cpp", "net/a.cpp"].map fun file => (⟨file⟩, []))
  keepSystem := false

private def rankedIndex : Index :=
  .run ⟨none⟩ [⟨rankedSearch.tools.toWorkspace, [], ⟨"/w/net/a.cpp"⟩, []⟩]

private def rankedTarget : Callable :=
  (⟨.function, [], "operator+", "operator+(T, T)", "T", false, ⟨"/w/net/a.cpp"⟩,
    ⟨"/w/net/a.cpp"⟩⟩ : SymbolFact).toCallable ⟨none⟩

/-- Of two files that are as close, the one that is listed first comes first, and the file that is
far away comes last. The file that has been ingested, the one without the plus sign, the empty one
and the missing one are no candidates. -/
theorem closer_candidate_first :
    rankedSearch.catalog.Built rankedSources ∧
      (let candidates := rankedSearch.candidates rankedIndex rankedTarget
      Earlier candidates ⟨"/w/net/c.cpp"⟩ ⟨"/w/net/b.cpp"⟩ ∧
        Earlier candidates ⟨"/w/net/b.cpp"⟩ ⟨"/w/far.cpp"⟩ ∧
        ∀ file, file ∈ candidates ↔
          file ∈ [⟨"/w/far.cpp"⟩, ⟨"/w/net/c.cpp"⟩, ⟨"/w/net/b.cpp"⟩]) := by
  have built : rankedSearch.catalog.Built rankedSources := .ofEntries _ _
  obtain ⟨_, _, order, _⟩ := rankedSearch.candidates_ranked built rankedIndex rankedTarget
  have member : ∀ file, file ∈ rankedSearch.candidates rankedIndex rankedTarget ↔
      file ∈ [⟨"/w/far.cpp"⟩, ⟨"/w/net/c.cpp"⟩, ⟨"/w/net/b.cpp"⟩] := by
    intro file
    rw [(rankedSearch.candidates_perm rankedIndex rankedTarget).mem_iff]
    have kept : (rankedSearch.catalog.paths.filter fun file =>
        mentions rankedSearch.tools.files rankedTarget.spelling file &&
          !rankedIndex.isIngested rankedSearch.tools.files file) =
        [⟨"/w/far.cpp"⟩, ⟨"/w/net/c.cpp"⟩, ⟨"/w/net/b.cpp"⟩] := by decide +kernel
    rw [kept]
  refine ⟨built, (order _ _).mpr ⟨?_, ?_, .inr ⟨?_, ?_⟩⟩, (order _ _).mpr ⟨?_, ?_, .inl ?_⟩, member⟩
  · simp [member]
  · simp [member]
  · decide +kernel
  · unfold Earlier
    decide +kernel
  · simp [member]
  · simp [member]
  · decide +kernel

end Example

end DefinitionSearch

end CallGraph
