import DistroSeed.Library.Arrivals
import DistroSeed.Verification.Scheduler.Reordered

/-! The order of the schedule in terms of the given list alone: Kahn's queue reaches the tasks of
one depth in the order of their last longest chains. -/

namespace DistroSeed

open Chains KeySort Relation

/-! ## Nodes and children stand in list order -/

theorem pairwise_snd_declaredPairs (tasks : List Task) :
    (declaredPairs (number tasks)).Pairwise fun pair pair' => pair.2 ≤ pair'.2 := by
  have hids : (number tasks).Pairwise fun task task' => task.id < task'.id := by
    rw [← List.pairwise_map, map_id_number]
    exact List.pairwise_lt_range'
  rw [declaredPairs, List.pairwise_flatMap]
  constructor
  · intro task _
    apply List.pairwise_of_forall_mem_list
    intro pair hpair pair' hpair'
    rw [snd_of_mem_pairs hpair, snd_of_mem_pairs hpair']
  · refine hids.imp ?_
    intro task task' hlt pair hpair pair' hpair'
    rw [snd_of_mem_pairs hpair, snd_of_mem_pairs hpair']
    exact hlt.le

/-- The finished graph has the declared pairs in loop order and then the automatic edges. -/
theorem createTaskGraph_ends_sublist {fuel : ℕ} {tasks : List Task} {g : TaskGraph}
    (h : createTaskGraph fuel tasks = .returned g) :
    ∃ auto, (g.graph.edges.map Edge.ends).Sublist (declaredPairs (number tasks) ++ auto) ∧
      ∀ pair ∈ auto, (declared tasks).AutoEdge pair.1 pair.2 := by
  have hsat := (createTaskGraph_spec h).satisfied
  obtain ⟨g₀, hg₀, h⟩ := Outcome.bind_eq_returned.mp h
  obtain ⟨auto, hauto, h⟩ := Outcome.bind_eq_returned.mp h
  obtain rfl := Outcome.returned.inj h
  rw [declaredGraph_of_satisfied hsat] at hg₀
  obtain rfl := Outcome.returned.inj hg₀
  obtain ⟨_, hnone⟩ := nodeGraph_spec tasks
  refine ⟨auto, ?_, fun pair hpair => (edgesToAdd_spec hauto _ _).mp hpair⟩
  have hdeclared := DiGraph.map_ends_addEdgesFrom_sublist (nodeGraph (number tasks))
    (declaredPairs (number tasks)) EdgeLabel.declared
  rw [hnone, List.map_nil, List.nil_append] at hdeclared
  exact (DiGraph.map_ends_addEdgesFrom_sublist _ _ _).trans
    (hdeclared.append (List.Sublist.refl auto))

theorem AutoEdge.unique {g : TaskGraph} {leaf b b' : ℕ} (h : g.AutoEdge leaf b)
    (h' : g.AutoEdge leaf b') : b = b' := QueueSearch.FirstHit.unique h.2.2 h'.2.2

/-- The children of a task stand in the order of their numbers. -/
theorem successors_increasing {fuel : ℕ} {tasks : List Task} {g : TaskGraph}
    (h : createTaskGraph fuel tasks = .returned g) (n : ℕ) :
    (g.graph.successors n).Pairwise (· < ·) := by
  obtain ⟨auto, hsub, hauto⟩ := createTaskGraph_ends_sublist h
  have hle : (g.graph.successors n).Pairwise (· ≤ ·) := by
    rw [SearchOrder.successors_eq, List.pairwise_map]
    refine List.Pairwise.sublist (hsub.filter fun pair => pair.1 = n) ?_
    rw [List.filter_append, List.pairwise_append]
    refine ⟨(pairwise_snd_declaredPairs tasks).filter _, ?_, ?_⟩
    · -- a leaf has one automatic edge at most
      apply List.pairwise_of_forall_mem_list
      intro pair hpair pair' hpair'
      simp only [List.mem_filter, decide_eq_true_eq] at hpair hpair'
      have hedge := hauto pair hpair.1
      have hedge' := hauto pair' hpair'.1
      rw [hpair.2] at hedge
      rw [hpair'.2] at hedge'
      exact (AutoEdge.unique hedge hedge').le
    · intro pair hpair pair' hpair'
      simp only [List.mem_filter, decide_eq_true_eq] at hpair hpair'
      have hleaf := (hauto pair' hpair'.1).2.1
      have hdep : DependsOn tasks pair'.1 pair.2 := by
        rw [hpair'.2, ← hpair.2]
        exact dependsOn_iff_mem_declaredPairs.mpr hpair.1
      exact absurd hdep ((isLeaf_declared_iff.mp hleaf).1 _)
  exact (hle.and (g.graph.successors_nodup n)).imp fun hboth => lt_of_le_of_ne hboth.1 hboth.2

theorem nodes_increasing {fuel : ℕ} {tasks : List Task} {g : TaskGraph}
    (h : createTaskGraph fuel tasks = .returned g) : g.graph.nodes.Pairwise (· < ·) := by
  rw [(createTaskGraph_spec h).nodes_eq, map_id_number]
  exact List.pairwise_lt_range'

/-! ## The order of the schedule -/

/-- Of two tasks of one depth, the one of the smaller config comes first, and of one config the
one with the smaller last longest chain of numbers. -/
def AheadAtDepth (tasks : List Task) (u v : ℕ) : Prop :=
  configOf (number tasks) u < configOf (number tasks) v ∨
    (configOf (number tasks) u = configOf (number tasks) v ∧ ReachedBefore (TaskEdge tasks) u v)

/-- Task `u` comes before task `v`: it is less deep in the task graph, or as deep and ahead there. -/
def ComesBefore (tasks : List Task) (u v : ℕ) : Prop :=
  Shallower (TaskEdge tasks) u v ∨
    (¬ Shallower (TaskEdge tasks) v u ∧ AheadAtDepth tasks u v)

theorem AheadAtDepth.asymm {tasks : List Task} (u v : ℕ) (h : AheadAtDepth tasks u v) :
    ¬ AheadAtDepth tasks v u :=
  asymm_key (S := ReachedBefore (TaskEdge tasks)) (fun _ _ => ReachedBefore.asymm) h

theorem ComesBefore.asymm {tasks : List Task} (u v : ℕ) (h : ComesBefore tasks u v) :
    ¬ ComesBefore tasks v u :=
  asymm_then (R := Shallower (TaskEdge tasks)) (fun _ _ => Shallower.asymm) AheadAtDepth.asymm h

theorem Sorted.pairwise_comesBefore {nx : SimpleCycles} {fuel : ℕ}
    {tasks result reordered : List Task} {g : TaskGraph} {gens : List (List ℕ)} {ids : List ℕ}
    (h : Sorted nx fuel tasks result g gens ids reordered) :
    ids.Pairwise (ComesBefore tasks) := by
  have hspec := createTaskGraph_spec h.graph
  have hvisited := DiGraph.topologicalGenerations_pairwise h.generations (nodes_increasing h.graph)
    (successors_increasing h.graph)
  have hnodup : gens.flatten.Nodup := h.order.visited_perm.nodup_iff.mpr g.graph.nodes_nodup
  rw [List.pairwise_iff_forall_sublist, hspec.adj_eq] at hvisited
  refine h.order.pairwise.imp_of_mem ?_
  intro u v _ hv hbefore
  rw [ScheduledBefore, hspec.adj_eq, hspec.tasks_eq] at hbefore
  rcases hbefore with hlt | ⟨hnot, hlt | ⟨heq, hidx⟩⟩
  · exact Or.inl hlt
  · exact Or.inr ⟨hnot, Or.inl hlt⟩
  · have hmem : v ∈ gens.flatten := by
      rw [h.order.visited_perm.mem_iff, ← h.order.perm.mem_iff]
      exact hv
    rcases hvisited ((pair_sublist_iff_idxOf_lt hnodup hmem).mpr hidx) with hlt | hlt
    · exact Or.inl hlt
    · exact Or.inr ⟨hnot, Or.inr ⟨heq, hlt⟩⟩

/-! ## Tasks with the same dependencies -/

/-- The dependencies of both tasks resolve to the same tasks. -/
def SamePredecessors (tasks : List Task) (u v : ℕ) : Prop :=
  ∀ p, DependsOn tasks p u ↔ DependsOn tasks p v

/-- Tasks that list the same names wait for the same tasks. -/
theorem samePredecessors_of_dependencies_eq {tasks : List Task} {task task' : Task}
    (htask : task ∈ number tasks) (htask' : task' ∈ number tasks)
    (h : task.dependencies = task'.dependencies) : SamePredecessors tasks task.id task'.id := by
  have hnames : ∀ {task : Task}, task ∈ number tasks → ∀ p, DependsOn tasks p task.id ↔
      ∃ subtask ∈ number tasks, subtask.id = p ∧ ∃ dep ∈ task.dependencies, subtask.matches dep := by
    intro task htask p
    constructor
    · intro hexists
      rcases hexists with ⟨subtask, hsub, other, hother, hid, heq, hdep⟩
      obtain rfl := eq_of_id_eq hother htask heq
      exact ⟨subtask, hsub, hid, hdep⟩
    · intro hexists
      rcases hexists with ⟨subtask, hsub, hid, hdep⟩
      exact ⟨subtask, hsub, task, htask, hid, rfl, hdep⟩
  intro p
  rw [hnames htask, hnames htask', h]

/-- Automatic edges end at barriers only. -/
theorem taskEdge_iff_of_not_autoCreateRdepends {tasks : List Task} {task : Task}
    (htask : task ∈ number tasks) (hauto : task.autoCreateRdepends = false) (p : ℕ) :
    TaskEdge tasks p task.id ↔ DependsOn tasks p task.id := by
  refine or_iff_left fun hedge => ?_
  obtain ⟨_, _, haccepts⟩ := hedge.2.2.accepts
  have hbarrier := haccepts.2.2.2
  rw [TaskGraph.isBarrier, data_declared htask] at hbarrier
  simp [hauto] at hbarrier

/-- The same then holds for the edges of the task graph. -/
theorem SamePredecessors.taskEdge_iff {tasks : List Task} {first second : Task}
    (hfirst : first ∈ number tasks) (hsecond : second ∈ number tasks)
    (hauto : first.autoCreateRdepends = false) (hauto' : second.autoCreateRdepends = false)
    (hsame : SamePredecessors tasks first.id second.id) (p : ℕ) :
    TaskEdge tasks p first.id ↔ TaskEdge tasks p second.id := by
  rw [taskEdge_iff_of_not_autoCreateRdepends hfirst hauto,
    taskEdge_iff_of_not_autoCreateRdepends hsecond hauto', hsame p]

/-- Of two tasks of one config that are no barriers and wait for the same tasks, the first one in
the list comes first in the schedule. -/
def ListedOrderKept (tasks : List Task) (ids : List ℕ) : Prop :=
  ∀ first ∈ number tasks, ∀ second ∈ number tasks, first.id < second.id →
    first.config = second.config → first.autoCreateRdepends = false →
      second.autoCreateRdepends = false → SamePredecessors tasks first.id second.id →
        ids.idxOf first.id < ids.idxOf second.id

theorem Sorted.listedOrderKept {nx : SimpleCycles} {fuel : ℕ} {tasks result reordered : List Task}
    {g : TaskGraph} {gens : List (List ℕ)} {ids : List ℕ}
    (h : Sorted nx fuel tasks result g gens ids reordered) : ListedOrderKept tasks ids := by
  intro first hfirst second hsecond hlt hconfig hauto hauto' hsame
  have hparents : ∀ p, TaskEdge tasks p second.id ↔ TaskEdge tasks p first.id :=
    fun p => (SamePredecessors.taskEdge_iff hfirst hsecond hauto hauto' hsame p).symm
  have hmem : ∀ task ∈ number tasks, task.id ∈ ids := by
    intro task htask
    rw [h.order.perm.mem_iff, h.nodes_eq]
    exact List.mem_map_of_mem htask
  by_contra hnot
  have hne : ids.idxOf first.id ≠ ids.idxOf second.id := by
    intro heq
    exact hlt.ne ((List.idxOf_inj (hmem first hfirst)).mp heq)
  have hbefore : ComesBefore tasks second.id first.id :=
    (idxOf_lt_iff_of_pairwise h.ids_nodup h.pairwise_comesBefore ComesBefore.asymm
      (hmem second hsecond) (hmem first hfirst) hlt.ne').mp (by omega)
  rcases hbefore with ⟨k, hk, hnotk⟩ | ⟨_, hless | ⟨_, hreached⟩⟩
  · exact hnotk ((chainTo_iff_of_same_parents hparents k).mpr hk)
  · rw [configOf_number hfirst, configOf_number hsecond, hconfig] at hless
    exact lt_irrefl _ hless
  · exact hlt.not_gt (hreached.lt_of_same_parents hparents)

theorem sort_keeps_listed_order {nx : SimpleCycles} {fuel : ℕ} {tasks result : List Task}
    (h : sort nx fuel tasks = .returned result) :
    ∃ ids reordered, sortedIds nx fuel tasks = .returned ids ∧
      Renumbered tasks ids reordered result ∧ ListedOrderKept tasks ids := by
  obtain ⟨_, _, ids, reordered, hsorted⟩ := sort_eq_returned h
  exact ⟨ids, reordered, hsorted.sortedIds, hsorted.renumbered, hsorted.listedOrderKept⟩

/-- Two tasks of one manifest that wait for a library, and a barrier above them. -/
def listedTasks : List Task := [
  { config := "DS_COMPONENT_LIBRARY", cmdType := .host },
  { config := "DS_COMPONENT_APPLICATION", cmdType := .host, cmd := "fetch.sh",
    dependencies := ["DS_COMPONENT_LIBRARY"] },
  { config := "DS_READY", cmdType := .dummy, dependencies := ["DS_COMPONENT_LIBRARY"],
    autoCreateRdepends := true },
  { config := "DS_COMPONENT_APPLICATION", cmdType := .host, cmd := "build.sh",
    dependencies := ["DS_COMPONENT_LIBRARY"] }]

theorem sort_keeps_listed_order_listedTasks :
    ∃ result ids reordered, sort wholeGraphCycles 20 listedTasks = .returned result ∧
      sortedIds wholeGraphCycles 20 listedTasks = .returned ids ∧
      Renumbered listedTasks ids reordered result ∧ ids.idxOf 2 < ids.idxOf 4 := by
  obtain ⟨result, hsort⟩ : ∃ result, sort wholeGraphCycles 20 listedTasks = .returned result :=
    ⟨_, rfl⟩
  obtain ⟨ids, reordered, hids, hrenumbered, hkept⟩ := sort_keeps_listed_order hsort
  have hfetch : { listedTasks[1] with id := 2 } ∈ number listedTasks := by decide
  have hbuild : { listedTasks[3] with id := 4 } ∈ number listedTasks := by decide
  exact ⟨result, ids, reordered, hsort, hids, hrenumbered, hkept _ hfetch _ hbuild (by decide) rfl
    rfl rfl (samePredecessors_of_dependencies_eq hfetch hbuild rfl)⟩

end DistroSeed
