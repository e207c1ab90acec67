import DistroSeed.Verification.Scheduler.Arrivals

/-! How far a barrier reaches: which of the tasks beside it run before it. -/

namespace DistroSeed

open Chains Relation KeySort

/-- `leaf` shares a parent with the barrier, has no dependents and does not depend on
the barrier. -/
structure BarrierPair (tasks : List Task) (barrier leaf : ℕ) : Prop where
  isBarrier : (declared tasks).isBarrier barrier
  isLeaf : (declared tasks).isLeaf leaf
  parent : ∃ parent, DependsOn tasks parent barrier ∧ DependsOn tasks parent leaf
  ne : leaf ≠ barrier
  not_below : ¬ TransGen (DependsOn tasks) barrier leaf

section Pair

variable {tasks : List Task} {barrier leaf : ℕ}

theorem BarrierPair.mem_nodes (h : BarrierPair tasks barrier leaf) :
    barrier ∈ (declared tasks).graph.nodes ∧ leaf ∈ (declared tasks).graph.nodes := by
  obtain ⟨parent, hbarrier, hleaf⟩ := h.parent
  exact ⟨hbarrier.mem_nodes.2, hleaf.mem_nodes.2⟩

/-- The barrier is acceptable for the leaf, so the search meets one. -/
theorem BarrierPair.exists_met (h : BarrierPair tasks barrier leaf) :
    ∃ met, MeetsFirst (number tasks) leaf met := by
  obtain ⟨parent, hbarrier, hleaf⟩ := h.parent
  have haccepts : (declared tasks).Accepts leaf parent barrier :=
    ⟨adj_declared.mpr hbarrier, h.ne.symm, fun hadj => h.not_below (.single (adj_declared.mp hadj)),
      h.isBarrier⟩
  obtain ⟨met, hmet⟩ := TaskGraph.exists_nearestBarrier_iff.mpr
    ⟨parent, barrier, .single (adj_declared.mpr hleaf), haccepts⟩
  exact ⟨met, (meetsFirst_number_iff tasks).mpr hmet⟩

/-- What the search meets is the only task that waits for the leaf. -/
theorem BarrierPair.autoEdge_iff (h : BarrierPair tasks barrier leaf) {met : ℕ} :
    (declared tasks).AutoEdge leaf met ↔ MeetsFirst (number tasks) leaf met := by
  rw [meetsFirst_number_iff, TaskGraph.AutoEdge]
  simp only [h.mem_nodes.2, h.isLeaf, true_and]

end Pair

/-- A leaf is scheduled before its nearest barrier and all that depends on it. -/
theorem Sorted.leaf_before_barrier {nx : SimpleCycles} {fuel : ℕ}
    {tasks result reordered : List Task} {g : TaskGraph} {gens : List (List ℕ)} {ids : List ℕ}
    (h : Sorted nx fuel tasks result g gens ids reordered) {leaf barrier v : ℕ}
    (hauto : (declared tasks).AutoEdge leaf barrier)
    (hreach : ReflTransGen (TaskEdge tasks) barrier v) : ids.idxOf leaf < ids.idxOf v :=
  h.path_forward (TransGen.head' (Or.inr hauto) hreach)

/-- Every childless sibling comes before the barrier. -/
def BarrierLaw (tasks : List Task) (ids : List ℕ) : Prop :=
  ∀ barrier leaf, BarrierPair tasks barrier leaf → ids.idxOf leaf < ids.idxOf barrier

/-- The search of every childless sibling of a barrier meets this barrier or one that it waits for.
If it meets another one, the barrier waits for some task that is at least as deep as the sibling, or
is as deep as the sibling and behind it by config and last longest chain. -/
def SearchesReach (tasks : List Task) : Prop :=
  ∀ barrier leaf, BarrierPair tasks barrier leaf → ∀ met, MeetsFirst (number tasks) leaf met →
    ReflTransGen (TaskEdge tasks) met barrier ∨
      (∃ parent, TaskEdge tasks parent barrier ∧ ¬ Shallower (TaskEdge tasks) parent leaf) ∨
      (¬ Shallower (TaskEdge tasks) barrier leaf ∧ AheadAtDepth tasks leaf barrier)

theorem sort_barrierLaw_iff {nx : SimpleCycles} {fuel : ℕ} {tasks result : List Task}
    (h : sort nx fuel tasks = .returned result) :
    ∃ g ids reordered, createTaskGraph fuel tasks = .returned g ∧ g.graph.Adj = TaskEdge tasks ∧
      sortedIds nx fuel tasks = .returned ids ∧ Renumbered tasks ids reordered result ∧
      (BarrierLaw tasks ids ↔ SearchesReach tasks) := by
  obtain ⟨g, gens, ids, reordered, hsorted⟩ := sort_eq_returned h
  have hspec := createTaskGraph_spec hsorted.graph
  have hacyclic : Acyclic g.graph.Adj := hsorted.acyclic
  refine ⟨g, ids, reordered, hsorted.graph, hspec.adj_eq, hsorted.sortedIds, hsorted.renumbered, ?_⟩
  have hmem : ∀ {v}, v ∈ (declared tasks).graph.nodes → v ∈ ids := by
    intro v hv
    rwa [hsorted.order.perm.mem_iff, hsorted.nodes_eq, ← nodes_declared]
  have horder : ∀ {barrier leaf}, BarrierPair tasks barrier leaf →
      (ids.idxOf leaf < ids.idxOf barrier ↔ ComesBefore tasks leaf barrier) := by
    intro barrier leaf hpair
    exact idxOf_lt_iff_of_pairwise hsorted.ids_nodup hsorted.pairwise_comesBefore ComesBefore.asymm
      (hmem hpair.mem_nodes.2) (hmem hpair.mem_nodes.1) hpair.ne
  have hdepth : ∀ {barrier leaf}, Shallower (TaskEdge tasks) leaf barrier ↔
      ∃ parent, TaskEdge tasks parent barrier ∧ ¬ Shallower (TaskEdge tasks) parent leaf := by
    intro barrier leaf
    obtain ⟨depth, hdepth⟩ := DiGraph.exists_depth hacyclic leaf
    rw [hspec.adj_eq] at hdepth
    exact hdepth.shallower_iff_exists_parent
  constructor
  · intro hlaw barrier leaf hpair met _
    rcases (horder hpair).mp (hlaw barrier leaf hpair) with hlt | hahead
    · exact Or.inr (Or.inl (hdepth.mp hlt))
    · exact Or.inr (Or.inr hahead)
  · intro hreach barrier leaf hpair
    obtain ⟨met, hmet⟩ := hpair.exists_met
    rcases hreach barrier leaf hpair met hmet with hled | hparent | hahead
    · exact hsorted.leaf_before_barrier (hpair.autoEdge_iff.mpr hmet) hled
    · exact (horder hpair).mpr (Or.inl (hdepth.mpr hparent))
    · exact (horder hpair).mpr (Or.inr hahead)

theorem sort_barrierLaw_iff_libraryTasks :
    ∃ g ids reordered, createTaskGraph 20 libraryTasks = .returned g ∧
      g.graph.Adj = TaskEdge libraryTasks ∧
      sortedIds wholeGraphCycles 20 libraryTasks = .returned ids ∧
      Renumbered libraryTasks ids reordered librarySchedule ∧
      (BarrierLaw libraryTasks ids ↔ SearchesReach libraryTasks) :=
  sort_barrierLaw_iff sort_libraryTasks

/-- A leaf below one parent with two barriers. -/
def twoBarrierTasks : List Task := [
  { config := "DS_PARENT", cmdType := .host },
  { config := "DS_BARRIER_1", cmdType := .host, dependencies := ["DS_PARENT"],
    autoCreateRdepends := true },
  { config := "DS_BARRIER_2", cmdType := .host, dependencies := ["DS_PARENT"],
    autoCreateRdepends := true },
  { config := "DS_LEAF", cmdType := .host, dependencies := ["DS_PARENT"] }]

/-- The search stops at the first barrier, so the second one runs before the leaf. -/
theorem barrierLaw_fails_for_twoBarrierTasks :
    BarrierPair twoBarrierTasks 3 4 ∧
      sortedIds wholeGraphCycles 20 twoBarrierTasks = .returned [1, 3, 4, 2] ∧
      (∃ result, sort wholeGraphCycles 20 twoBarrierTasks = .returned result ∧
        result.map Task.config = ["DS_PARENT", "DS_BARRIER_2", "DS_LEAF", "DS_BARRIER_1"]) ∧
      ¬ BarrierLaw twoBarrierTasks [1, 3, 4, 2] := by
  have hpair : BarrierPair twoBarrierTasks 3 4 := by
    refine ⟨by decide, by decide, ⟨1, ?_, ?_⟩, by decide, ?_⟩
    · exact adj_declared.mp (by decide)
    · exact adj_declared.mp (by decide)
    · intro hbelow
      obtain ⟨child, hchild, _⟩ := TransGen.head'_iff.mp hbelow
      have hnone : (declared twoBarrierTasks).graph.outDegree 3 = 0 := by decide
      exact (DiGraph.outDegree_eq_zero_iff _ _).mp hnone child (adj_declared.mpr hchild)
  refine ⟨hpair, by decide +kernel, ⟨_, rfl, by decide +kernel⟩, fun hlaw => ?_⟩
  exact absurd (hlaw 3 4 hpair) (by decide)

end DistroSeed
