import DistroSeed.Verification.Scheduler.Termination

/-! The search of `find_edge_to_parent` in an acyclic graph: the barrier that it returns hangs on an
ancestor at the smallest distance at which one does. -/

namespace DistroSeed

open Chains Relation

namespace TaskGraph

variable {g : TaskGraph} {node : ℕ}

/-- `barrier` is acceptable for the node through an ancestor, and no ancestor nearer to the node has
an acceptable child. -/
def NearestAncestorBarrier (g : TaskGraph) (node barrier : ℕ) : Prop :=
  ∃ ancestor k, TransGen g.graph.Adj ancestor node ∧ Distance g.graph.Adj ancestor node k ∧
    g.Accepts node ancestor barrier ∧
    ∀ other j child, TransGen g.graph.Adj other node → Distance g.graph.Adj other node j →
      g.Accepts node other child → k ≤ j

/-- The layers of the search by the number of steps to the node. -/
theorem mem_layer_predecessors_iff {k w : ℕ} :
    w ∈ QueueSearch.layer g.graph.predecessors k (g.graph.predecessors node) ↔
      Steps g.graph.Adj (k + 1) w node := by
  rw [QueueSearch.mem_layer_iff, steps_succ]
  simp only [DiGraph.mem_predecessors]
  exact exists_congr fun v => and_comm

theorem NearestBarrier.nearestAncestorBarrier (hacyclic : Acyclic g.graph.Adj) {barrier : ℕ}
    (h : g.NearestBarrier node barrier) : g.NearestAncestorBarrier node barrier := by
  obtain ⟨k, hbefore, hhit⟩ := h
  -- no ancestor in an earlier layer has an acceptable child
  have hnone : ∀ j < k, ∀ other child, Steps g.graph.Adj (j + 1) other node →
      ¬ g.Accepts node other child := by
    intro j hj other child hsteps
    have hother := List.findSome?_eq_none_iff.mp (hbefore j hj) other
      (mem_layer_predecessors_iff.mpr hsteps)
    exact barrierChild_eq_none_iff.mp hother child
  obtain ⟨ancestor, hmem, hfound⟩ := List.exists_of_findSome?_eq_some hhit
  have hsteps := mem_layer_predecessors_iff.mp hmem
  have haccepts := accepts_of_barrierChild hfound
  refine ⟨ancestor, k + 1, hsteps.transGen, ⟨hsteps, fun j hj hshort => ?_⟩, haccepts, ?_⟩
  · obtain ⟨i, rfl⟩ := hacyclic.exists_eq_succ hsteps.transGen hshort
    exact hnone i (Nat.lt_of_succ_lt_succ hj) ancestor barrier hshort haccepts
  · intro other j child hpath hdistance haccepts'
    obtain ⟨i, rfl⟩ := hacyclic.exists_eq_succ hpath hdistance.1
    by_contra hlt
    exact hnone i (by omega) other child hdistance.1 haccepts'

end TaskGraph

/-- In an acyclic graph the search returns. What it returns is an edge to a barrier if and only if
some ancestor has an acceptable child, and then the barrier is such a child of an ancestor at the
smallest distance. -/
theorem findEdgeToParent_nearest {g : TaskGraph} (hacyclic : Acyclic g.graph.Adj) (node : ℕ) :
    ∃ edge, (∃ bound, ∀ fuel ≥ bound, findEdgeToParent fuel g node = .returned edge) ∧
      (edge.isSome ↔ ∃ ancestor child, TransGen g.graph.Adj ancestor node ∧
        g.Accepts node ancestor child) ∧
      ∀ pair, edge = some pair → pair.1 = node ∧ g.NearestAncestorBarrier node pair.2 := by
  obtain ⟨bound, hended⟩ :=
    (findEdgeToParent_ends_iff g node).mpr (searchEnds_of_acyclic hacyclic node)
  cases hrun : findEdgeToParent bound g node with
  | running => exact absurd hrun hended
  | raised e => exact absurd hrun (findEdgeToParent_ne_raised bound g node e)
  | returned edge =>
      have hspec : ∀ pair, edge = some pair → pair.1 = node ∧ g.NearestBarrier node pair.2 := by
        rintro pair rfl
        exact findEdgeToParent_eq_some_iff.mp ⟨bound, hrun⟩
      refine ⟨edge, ⟨bound, fun fuel hfuel => findEdgeToParent_mono hfuel hrun⟩, ?_, ?_⟩
      · rw [← TaskGraph.exists_nearestBarrier_iff]
        constructor
        · intro hsome
          obtain ⟨pair, hpair⟩ := Option.isSome_iff_exists.mp hsome
          exact ⟨pair.2, (hspec pair hpair).2⟩
        · rintro ⟨barrier, hbarrier⟩
          obtain ⟨fuel, hfound⟩ := findEdgeToParent_eq_some_iff.mpr
            (show (node, barrier).1 = node ∧ _ from ⟨rfl, hbarrier⟩)
          have hleft := findEdgeToParent_mono (Nat.le_max_left bound fuel) hrun
          have hright := findEdgeToParent_mono (Nat.le_max_right bound fuel) hfound
          obtain rfl := Outcome.returned.inj (hleft.symm.trans hright)
          rfl
      · intro pair hpair
        exact ⟨(hspec pair hpair).1, (hspec pair hpair).2.nearestAncestorBarrier hacyclic⟩

theorem findEdgeToParent_nearest_libraryTasks :
    ∃ edge, (∃ bound, ∀ fuel ≥ bound,
        findEdgeToParent fuel (declared libraryTasks) 3 = .returned edge) ∧
      (edge.isSome ↔ ∃ ancestor child, TransGen (declared libraryTasks).graph.Adj ancestor 3 ∧
        (declared libraryTasks).Accepts 3 ancestor child) ∧
      ∀ pair, edge = some pair → pair.1 = 3 ∧
        (declared libraryTasks).NearestAncestorBarrier 3 pair.2 :=
  findEdgeToParent_nearest (by decide) 3

end DistroSeed
