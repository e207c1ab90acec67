import DistroSeed.Verification.Scheduler.DeclaredGraph

/-! The search of `find_edge_to_parent`: what it returns, and when it returns at all. -/

namespace DistroSeed

open Chains Relation

namespace TaskGraph

variable (g : TaskGraph)

/-- A child of `current` that the search accepts for `node`. -/
def Accepts (node current child : ℕ) : Prop :=
  g.graph.Adj current child ∧ child ≠ node ∧ ¬ g.graph.Adj child node ∧ g.isBarrier child

/-- The barrier that the search meets first: the first acceptable child of the first
ancestor in the first backward layer that has one. -/
def NearestBarrier (node barrier : ℕ) : Prop :=
  QueueSearch.FirstHit g.graph.predecessors (g.barrierChild node) (g.graph.predecessors node)
    barrier

/-- The search ends if there is a barrier to find or no ancestor lies on a cycle. -/
def SearchEnds (node : ℕ) : Prop :=
  (∃ current child, TransGen g.graph.Adj current node ∧ g.Accepts node current child) ∨
    ∀ w, TransGen g.graph.Adj w node → ¬ TransGen g.graph.Adj w w

/-- The edges that `create_task_graph` adds on its own. -/
def AutoEdge (leaf barrier : ℕ) : Prop :=
  leaf ∈ g.graph.nodes ∧ g.isLeaf leaf ∧ g.NearestBarrier leaf barrier

variable {g}

theorem barrierChild_eq_none_iff {node current : ℕ} :
    g.barrierChild node current = none ↔ ∀ child, ¬ g.Accepts node current child := by
  simp only [barrierChild, List.find?_eq_none, DiGraph.mem_successors, Accepts, not_and,
    Bool.and_eq_true, Bool.not_eq_true', Bool.or_eq_false_iff, decide_eq_false_iff_not,
    DiGraph.mem_predecessors, and_imp, Bool.not_eq_true]

theorem accepts_of_barrierChild {node current child : ℕ}
    (h : g.barrierChild node current = some child) : g.Accepts node current child := by
  have hmem := List.mem_of_find?_eq_some h
  have hacc := List.find?_some h
  simp only [Bool.and_eq_true, Bool.not_eq_true', Bool.or_eq_false_iff, decide_eq_false_iff_not,
    DiGraph.mem_predecessors] at hacc
  exact ⟨DiGraph.mem_successors.mp hmem, hacc.1.1, hacc.1.2, hacc.2⟩

/-- The start of the search and its steps walk up the edge relation. -/
theorem mem_ancestors_iff {node w : ℕ} :
    (∃ v ∈ g.graph.predecessors node,
      ReflTransGen (fun u v => u ∈ g.graph.predecessors v) w v) ↔
      TransGen g.graph.Adj w node := by
  simp only [DiGraph.mem_predecessors, TransGen.tail'_iff, and_comm]

theorem exists_nearestBarrier_iff {node : ℕ} :
    (∃ barrier, g.NearestBarrier node barrier) ↔
      ∃ current child, TransGen g.graph.Adj current node ∧ g.Accepts node current child := by
  simp only [NearestBarrier, ← QueueSearch.not_noHit_iff, QueueSearch.noHit_iff,
    mem_ancestors_iff, barrierChild_eq_none_iff, not_forall, not_not]
  constructor
  · intro hexists
    rcases hexists with ⟨current, hcurrent, child, hchild⟩
    exact ⟨current, child, hcurrent, hchild⟩
  · intro hexists
    rcases hexists with ⟨current, child, hcurrent, hchild⟩
    exact ⟨current, hcurrent, child, hchild⟩

/-- The nearest barrier is a child of some ancestor of the node. -/
theorem NearestBarrier.accepts {node barrier : ℕ} (h : g.NearestBarrier node barrier) :
    ∃ current, TransGen g.graph.Adj current node ∧ g.Accepts node current barrier := by
  obtain ⟨k, _, hk⟩ := h
  obtain ⟨current, hmem, hhit⟩ := List.exists_of_findSome?_eq_some hk
  exact ⟨current, mem_ancestors_iff.mp ((QueueSearch.exists_mem_layer_iff _ _).mp ⟨k, hmem⟩),
    accepts_of_barrierChild hhit⟩

/-- If an ancestor `k` steps up has an acceptable barrier, the nearest one hangs on
an ancestor at most `k` steps up. -/
theorem NearestBarrier.exists_layer_le {node barrier current child k : ℕ}
    (h : g.NearestBarrier node barrier)
    (hmem : current ∈ QueueSearch.layer g.graph.predecessors k (g.graph.predecessors node))
    (haccepts : g.Accepts node current child) :
    ∃ j ≤ k, ∃ ancestor ∈ QueueSearch.layer g.graph.predecessors j (g.graph.predecessors node),
      g.Accepts node ancestor barrier := by
  obtain ⟨j, hbefore, hhit⟩ := h
  have hjk : j ≤ k := by
    by_contra hlt
    have hnone := List.findSome?_eq_none_iff.mp (hbefore k (by omega)) current hmem
    exact barrierChild_eq_none_iff.mp hnone child haccepts
  obtain ⟨ancestor, hancestor, hfound⟩ := List.exists_of_findSome?_eq_some hhit
  exact ⟨j, hjk, ancestor, hancestor, accepts_of_barrierChild hfound⟩

theorem NearestBarrier.of_parent {node barrier parent child : ℕ}
    (h : g.NearestBarrier node barrier) (hparent : g.graph.Adj parent node)
    (haccepts : g.Accepts node parent child) :
    ∃ p, g.graph.Adj p node ∧ g.Accepts node p barrier := by
  obtain ⟨j, hj, p, hp, hbarrier⟩ := h.exists_layer_le (k := 0)
    (DiGraph.mem_predecessors.mpr hparent) haccepts
  obtain rfl : j = 0 := by omega
  exact ⟨p, DiGraph.mem_predecessors.mp hp, hbarrier⟩

theorem NearestBarrier.of_grandparent {node barrier parent grandparent child : ℕ}
    (h : g.NearestBarrier node barrier) (hparent : g.graph.Adj parent node)
    (hgrand : g.graph.Adj grandparent parent) (haccepts : g.Accepts node grandparent child) :
    ∃ p, g.graph.Adj p node ∧
      (g.Accepts node p barrier ∨ ∃ q, g.graph.Adj q p ∧ g.Accepts node q barrier) := by
  have hlayer : ∀ w, w ∈ QueueSearch.layer g.graph.predecessors 1 (g.graph.predecessors node) ↔
      ∃ p, g.graph.Adj p node ∧ g.graph.Adj w p := by
    simp [QueueSearch.layer_succ, DiGraph.mem_predecessors]
  obtain ⟨j, hj, q, hq, hbarrier⟩ := h.exists_layer_le
    ((hlayer grandparent).mpr ⟨parent, hparent, hgrand⟩) haccepts
  rcases Nat.le_one_iff_eq_zero_or_eq_one.mp hj with rfl | rfl
  · exact ⟨q, DiGraph.mem_predecessors.mp hq, Or.inl hbarrier⟩
  · obtain ⟨p, hp, hqp⟩ := (hlayer q).mp hq
    exact ⟨p, hp, Or.inr ⟨q, hqp, hbarrier⟩⟩

/-- The backward layers run out exactly when no ancestor lies on a cycle. -/
theorem exists_layer_eq_nil_iff {node : ℕ} :
    (∃ k, QueueSearch.layer g.graph.predecessors k (g.graph.predecessors node) = []) ↔
      ∀ w, TransGen g.graph.Adj w node → ¬ TransGen g.graph.Adj w w := by
  have hchain : ∀ k, QueueSearch.layer g.graph.predecessors k (g.graph.predecessors node) = [] ↔
      ¬ ChainTo g.graph.Adj (k + 1) node := by
    intro k
    simp only [QueueSearch.layer_eq_nil_iff, DiGraph.mem_predecessors, chainTo_succ, not_exists,
      not_and]
  have hcycle : (∃ k, ¬ ChainTo g.graph.Adj (k + 1) node) ↔
      ¬ ∃ w, TransGen g.graph.Adj w w ∧ ReflTransGen g.graph.Adj w node := by
    rw [← forall_chainTo_iff g.graph.adj_src_mem, not_forall]
    constructor
    · intro hexists
      rcases hexists with ⟨k, hk⟩
      exact ⟨k + 1, hk⟩
    · intro hexists
      rcases hexists with ⟨k, hk⟩
      exact ⟨k, fun h => hk h.of_succ⟩
  simp only [hchain, hcycle, not_exists, not_and]
  constructor
  · intro h w hw hcyc
    exact h w hcyc hw.to_reflTransGen
  · intro h w hcyc hw
    rcases reflTransGen_iff_eq_or_transGen.mp hw with rfl | hw
    · exact h _ hcyc hcyc
    · exact h w hw hcyc

end TaskGraph

/-! ## The search loop -/

theorem findEdgeToParent_mono {fuel fuel' : ℕ} {g : TaskGraph} {node : ℕ}
    {edge : Option (ℕ × ℕ)} (hle : fuel ≤ fuel')
    (h : findEdgeToParent fuel g node = .returned edge) :
    findEdgeToParent fuel' g node = .returned edge := by
  obtain ⟨child, hchild, hedge⟩ := Outcome.bind_eq_returned.mp h
  exact Outcome.bind_eq_returned.mpr ⟨child, QueueSearch.search_mono hle hchild, hedge⟩

theorem findEdgeToParent_ne_raised (fuel : ℕ) (g : TaskGraph) (node : ℕ) (e : SortError) :
    findEdgeToParent fuel g node ≠ .raised e := by
  intro h
  rcases Outcome.bind_eq_raised.mp h with h | ⟨child, _, h⟩
  · exact QueueSearch.search_ne_raised _ _ _ h
  · simp at h

theorem findEdgeToParent_ended_mono {fuel fuel' : ℕ} {g : TaskGraph} {node : ℕ}
    (hle : fuel ≤ fuel') (h : (findEdgeToParent fuel g node).Ended) :
    (findEdgeToParent fuel' g node).Ended := by
  cases hrun : findEdgeToParent fuel g node with
  | running => exact absurd hrun h
  | raised e => exact absurd hrun (findEdgeToParent_ne_raised fuel g node e)
  | returned edge => simp [Outcome.Ended, findEdgeToParent_mono hle hrun]

/-- Whatever the search returns, it is an edge to the nearest barrier. -/
theorem findEdgeToParent_eq_some_iff {g : TaskGraph} {node : ℕ} {edge : ℕ × ℕ} :
    (∃ fuel, findEdgeToParent fuel g node = .returned (some edge)) ↔
      edge.1 = node ∧ g.NearestBarrier node edge.2 := by
  obtain ⟨leaf, barrier⟩ := edge
  simp only [findEdgeToParent, Outcome.bind_eq_returned, Outcome.pure_eq, Outcome.returned.injEq,
    Option.map_eq_some_iff, Prod.mk.injEq, TaskGraph.NearestBarrier,
    ← QueueSearch.search_eq_some_iff (ε := SortError)]
  constructor
  · intro hexists
    rcases hexists with ⟨fuel, _, hsearch, child, rfl, rfl, rfl⟩
    exact ⟨rfl, fuel, hsearch⟩
  · intro hexists
    rcases hexists with ⟨rfl, fuel, hsearch⟩
    exact ⟨fuel, _, hsearch, barrier, rfl, rfl, rfl⟩

theorem findEdgeToParent_ends_iff (g : TaskGraph) (node : ℕ) :
    (∃ fuel, (findEdgeToParent fuel g node).Ended) ↔ g.SearchEnds node := by
  have hsearch : (∃ fuel, (QueueSearch.search (ε := SortError) g.graph.predecessors
      (g.barrierChild node) fuel (g.graph.predecessors node)).Ended) ↔ _ :=
    QueueSearch.search_ends_iff
  rw [TaskGraph.SearchEnds, ← TaskGraph.exists_nearestBarrier_iff,
    ← TaskGraph.exists_layer_eq_nil_iff]
  refine Iff.trans ?_ hsearch
  simp only [findEdgeToParent, Outcome.bind_ended]
  constructor
  · intro hexists
    rcases hexists with ⟨fuel, h, _⟩
    exact ⟨fuel, h⟩
  · intro hexists
    rcases hexists with ⟨fuel, h⟩
    exact ⟨fuel, h, fun _ _ => by simp [Outcome.Ended]⟩

/-! ## The loop over the leaves -/

theorem edgesToAdd_spec {fuel : ℕ} {g : TaskGraph} {edges : List (ℕ × ℕ)}
    (h : edgesToAdd fuel g = .returned edges) (leaf barrier : ℕ) :
    (leaf, barrier) ∈ edges ↔ g.AutoEdge leaf barrier := by
  obtain ⟨found, hfound, hedges⟩ := Outcome.bind_eq_returned.mp h
  obtain rfl := Outcome.returned.inj hedges
  obtain ⟨hall, hmem⟩ := Outcome.mem_of_mapM_eq_returned hfound
  simp only [List.mem_filterMap, id_eq, exists_eq_right, hmem, List.mem_filter]
  constructor
  · intro hexists
    rcases hexists with ⟨node, ⟨hnode, hleaf⟩, hrun⟩
    obtain ⟨rfl, hnear⟩ := findEdgeToParent_eq_some_iff.mp ⟨fuel, hrun⟩
    exact ⟨hnode, hleaf, hnear⟩
  · intro hexists
    rcases hexists with ⟨hnode, hleaf, hnear⟩
    obtain ⟨edge, hrun⟩ := hall leaf (List.mem_filter.mpr ⟨hnode, hleaf⟩)
    obtain ⟨fuel', hrun'⟩ := findEdgeToParent_eq_some_iff.mpr
      (show (leaf, barrier).1 = leaf ∧ _ from ⟨rfl, hnear⟩)
    have h1 := findEdgeToParent_mono (Nat.le_max_left fuel fuel') hrun
    have h2 := findEdgeToParent_mono (Nat.le_max_right fuel fuel') hrun'
    rw [h1] at h2
    obtain rfl := Outcome.returned.inj h2
    exact ⟨leaf, ⟨hnode, hleaf⟩, hrun⟩

theorem edgesToAdd_ne_raised (fuel : ℕ) (g : TaskGraph) (e : SortError) :
    edgesToAdd fuel g ≠ .raised e := by
  intro h
  rcases Outcome.bind_eq_raised.mp h with h | ⟨edges, _, h⟩
  · exact Outcome.mapM_ne_raised (fun leaf _ => findEdgeToParent_ne_raised fuel g leaf) e h
  · simp at h

theorem edgesToAdd_ends_iff (g : TaskGraph) :
    (∃ fuel, (edgesToAdd fuel g).Ended) ↔
      ∀ leaf ∈ g.graph.nodes, g.isLeaf leaf → g.SearchEnds leaf := by
  have hended : ∀ fuel, (edgesToAdd fuel g).Ended ↔
      ∀ leaf ∈ g.graph.nodes.filter g.isLeaf, (findEdgeToParent fuel g leaf).Ended := by
    intro fuel
    rw [edgesToAdd, Outcome.bind_ended,
      Outcome.mapM_ended_iff fun leaf _ e => findEdgeToParent_ne_raised fuel g leaf e]
    simp [Outcome.Ended]
  simp only [hended, ← findEdgeToParent_ends_iff]
  constructor
  · intro hexists leaf hnode hleaf
    rcases hexists with ⟨fuel, h⟩
    exact ⟨fuel, h leaf (List.mem_filter.mpr ⟨hnode, hleaf⟩)⟩
  · intro h
    refine Outcome.exists_fuel_forall (P := fun leaf fuel => (findEdgeToParent fuel g leaf).Ended)
      (fun _ _ _ hle => findEdgeToParent_ended_mono hle) ?_
    intro leaf hmem
    obtain ⟨hnode, hleaf⟩ := List.mem_filter.mp hmem
    exact h leaf hnode hleaf

/-! ## The whole graph -/

/-- The edges of the finished graph: declared dependencies and automatic edges. -/
def TaskEdge (tasks : List Task) (u v : ℕ) : Prop :=
  DependsOn tasks u v ∨ (declared tasks).AutoEdge u v

/-- What `create_task_graph` has built when it returns. -/
structure TaskGraphSpec (tasks : List Task) (g : TaskGraph) : Prop where
  satisfied : Satisfied tasks
  tasks_eq : g.tasks = number tasks
  nodes_eq : g.graph.nodes = (number tasks).map Task.id
  adj_eq : g.graph.Adj = TaskEdge tasks

theorem AutoEdge.mem_nodes {g : TaskGraph} {leaf barrier : ℕ} (h : g.AutoEdge leaf barrier) :
    leaf ∈ g.graph.nodes ∧ barrier ∈ g.graph.nodes := by
  obtain ⟨hnode, _, hnear⟩ := h
  obtain ⟨current, _, hadj, _⟩ := hnear.accepts
  exact ⟨hnode, hadj.mem_nodes.2⟩

theorem createTaskGraph_spec {fuel : ℕ} {tasks : List Task} {g : TaskGraph}
    (h : createTaskGraph fuel tasks = .returned g) : TaskGraphSpec tasks g := by
  obtain ⟨g₀, hg₀, h⟩ := Outcome.bind_eq_returned.mp h
  obtain ⟨edges, hedges, h⟩ := Outcome.bind_eq_returned.mp h
  obtain rfl := Outcome.returned.inj h
  have hsat : Satisfied tasks := by
    by_contra hsat
    obtain ⟨e, _, hraised⟩ := declaredGraph_of_not_satisfied hsat
    rw [hraised] at hg₀
    cases hg₀
  rw [declaredGraph_of_satisfied hsat] at hg₀
  obtain rfl := Outcome.returned.inj hg₀
  have hauto := edgesToAdd_spec hedges
  refine ⟨hsat, rfl, ?_, ?_⟩
  · rw [← nodes_declared]
    apply DiGraph.nodes_addEdgesFrom
    intro pair hmem
    rcases pair with ⟨leaf, barrier⟩
    exact AutoEdge.mem_nodes ((hauto leaf barrier).mp hmem)
  · ext u v
    rw [TaskGraph.addEdges, DiGraph.adj_addEdgesFrom, adj_declared, hauto, TaskEdge]

/-- `create_task_graph` raises exactly for an unmatched dependency name. -/
theorem createTaskGraph_eq_raised_iff {fuel : ℕ} {tasks : List Task} :
    (∃ e, createTaskGraph fuel tasks = .raised e) ↔ ¬ Satisfied tasks := by
  constructor
  · intro hexists hsat
    rcases hexists with ⟨e, h⟩
    rcases Outcome.bind_eq_raised.mp h with h | ⟨g, _, h⟩
    · rw [declaredGraph_of_satisfied hsat] at h
      cases h
    · rcases Outcome.bind_eq_raised.mp h with h | ⟨edges, _, h⟩
      · exact edgesToAdd_ne_raised _ _ _ h
      · simp at h
  · intro hsat
    obtain ⟨e, _, h⟩ := declaredGraph_of_not_satisfied hsat
    exact ⟨e, by rw [createTaskGraph, h, Outcome.raised_bind]⟩

theorem createTaskGraph_ends_iff (tasks : List Task) :
    (∃ fuel, (createTaskGraph fuel tasks).Ended) ↔ (Satisfied tasks →
      ∀ leaf ∈ (declared tasks).graph.nodes, (declared tasks).isLeaf leaf →
        (declared tasks).SearchEnds leaf) := by
  by_cases hsat : Satisfied tasks
  · have hrun : ∀ fuel, (createTaskGraph fuel tasks).Ended ↔
        (edgesToAdd fuel (declared tasks)).Ended := by
      intro fuel
      rw [createTaskGraph, declaredGraph_of_satisfied hsat, Outcome.returned_bind,
        Outcome.bind_ended]
      simp [Outcome.Ended]
    simp only [hrun, edgesToAdd_ends_iff, hsat, forall_const]
  · obtain ⟨e, he⟩ : ∃ e, createTaskGraph 0 tasks = .raised e :=
      createTaskGraph_eq_raised_iff.mpr hsat
    exact iff_of_true ⟨0, by simp [Outcome.Ended, he]⟩ (fun h => absurd h hsat)

end DistroSeed
