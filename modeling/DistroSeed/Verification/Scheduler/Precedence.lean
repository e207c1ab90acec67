import DistroSeed.Verification.Scheduler.Termination

/-! What the order that `sort` returns guarantees: declared dependencies, automatic
edges, and how far the barriers reach. -/

namespace DistroSeed

open Chains Relation KeySort

/-! ## Positions in the result -/

section Positions

variable {nx : SimpleCycles} {fuel : ℕ} {tasks result reordered : List Task} {g : TaskGraph}
  {gens : List (List ℕ)} {ids : List ℕ}

theorem Sorted.nodes_eq (h : Sorted nx fuel tasks result g gens ids reordered) :
    g.graph.nodes = (number tasks).map Task.id := (createTaskGraph_spec h.graph).nodes_eq

theorem Sorted.ids_nodup (h : Sorted nx fuel tasks result g gens ids reordered) : ids.Nodup :=
  h.order.perm.nodup_iff.mpr g.graph.nodes_nodup

/-- Every path of the task graph goes forward in the schedule. -/
theorem Sorted.path_forward (h : Sorted nx fuel tasks result g gens ids reordered) {u v : ℕ}
    (huv : TransGen (TaskEdge tasks) u v) : ids.idxOf u < ids.idxOf v := by
  rw [← (createTaskGraph_spec h.graph).adj_eq] at huv
  exact h.order.idxOf_lt_of_path h.acyclic huv

theorem Sorted.idxOf_id (h : Sorted nx fuel tasks result g gens ids reordered) {i : ℕ}
    (hi : i < reordered.length) : ids.idxOf reordered[i].id = i := by
  have hlen : i < ids.length := by rwa [← h.ids_eq, List.length_map]
  have hget : ids[i] = reordered[i].id := by simp [← h.ids_eq]
  rw [← hget]
  exact List.Nodup.idxOf_getElem h.ids_nodup i hlen

/-- A task of the result is a numbered task with its position for a number. -/
theorem Sorted.mem_result_iff (h : Sorted nx fuel tasks result g gens ids reordered)
    {task : Task} : task ∈ result ↔
      ∃ old ∈ number tasks, task = { old with id := ids.idxOf old.id + 1 } := by
  rw [h.result_eq, mem_number]
  constructor
  · intro hexists
    rcases hexists with ⟨i, hi, rfl⟩
    exact ⟨reordered[i], h.perm.mem_iff.mp (List.getElem_mem hi), by rw [h.idxOf_id hi]⟩
  · intro hexists
    rcases hexists with ⟨old, hold, rfl⟩
    obtain ⟨i, hi, rfl⟩ := List.mem_iff_getElem.mp (h.perm.mem_iff.mpr hold)
    exact ⟨i, hi, by rw [h.idxOf_id hi]⟩

/-- The tasks of the result are numbered by their positions. -/
theorem Sorted.map_id (h : Sorted nx fuel tasks result g gens ids reordered) :
    result.map Task.id = List.range' 1 tasks.length := by
  rw [h.result_eq, map_id_number, h.perm.length_eq, length_number]

/-- In the result, too, some task matches each dependency name. -/
theorem Sorted.exists_matches (h : Sorted nx fuel tasks result g gens ids reordered) {task : Task}
    (htask : task ∈ result) {dep : String} (hdep : dep ∈ task.dependencies) :
    ∃ subtask ∈ result, subtask.matches dep := by
  obtain ⟨old, hold, rfl⟩ := h.mem_result_iff.mp htask
  obtain ⟨subtask, hsub, hmatch⟩ :=
    satisfied_number.mpr (createTaskGraph_spec h.graph).satisfied old hold dep hdep
  exact ⟨_, h.mem_result_iff.mpr ⟨subtask, hsub, rfl⟩, hmatch⟩

theorem Sorted.depends_lt (h : Sorted nx fuel tasks result g gens ids reordered)
    {subtask task : Task} (hsub : subtask ∈ result) (htask : task ∈ result) {dep : String}
    (hdep : dep ∈ task.dependencies) (hmatch : subtask.matches dep) : subtask.id < task.id := by
  obtain ⟨oldsub, holdsub, rfl⟩ := h.mem_result_iff.mp hsub
  obtain ⟨old, hold, rfl⟩ := h.mem_result_iff.mp htask
  have hdepends : DependsOn tasks oldsub.id old.id :=
    ⟨oldsub, holdsub, old, hold, rfl, rfl, dep, hdep, hmatch⟩
  exact Nat.succ_lt_succ (h.path_forward (.single (Or.inl hdepends)))

end Positions

/-- `result` is the list `tasks` in the order of the numbers `ids`, renumbered. -/
structure Renumbered (tasks : List Task) (ids : List ℕ) (reordered result : List Task) :
    Prop where
  perm : reordered.Perm (number tasks)
  ids_eq : reordered.map Task.id = ids
  result_eq : result = number reordered
  map_id : result.map Task.id = List.range' 1 tasks.length

theorem Sorted.renumbered {nx : SimpleCycles} {fuel : ℕ} {tasks result reordered : List Task}
    {g : TaskGraph} {gens : List (List ℕ)} {ids : List ℕ}
    (h : Sorted nx fuel tasks result g gens ids reordered) :
    Renumbered tasks ids reordered result :=
  ⟨h.perm, h.ids_eq, h.result_eq, h.map_id⟩

/-- Every task that matches a dependency name comes before the task that lists it. -/
def DependenciesFirst (result : List Task) : Prop :=
  ∀ task ∈ result, ∀ dep ∈ task.dependencies, ∀ subtask ∈ result,
    subtask.matches dep → subtask.id < task.id

/-- Every edge, declared or automatic, goes forward. -/
def EdgesForward (g : TaskGraph) (ids : List ℕ) : Prop :=
  ∀ edge ∈ g.graph.edges, ids.idxOf edge.src < ids.idxOf edge.dst

/-- The result is the input reordered and renumbered by position; every match of a
dependency name, and every edge of the task graph, goes forward. -/
theorem sort_respects_dependencies {nx : SimpleCycles} {fuel : ℕ} {tasks result : List Task}
    (h : sort nx fuel tasks = .returned result) :
    ∃ g ids reordered, createTaskGraph fuel tasks = .returned g ∧
      sortedIds nx fuel tasks = .returned ids ∧ Renumbered tasks ids reordered result ∧
      DependenciesFirst result ∧ EdgesForward g ids := by
  obtain ⟨g, gens, ids, reordered, hsorted⟩ := sort_eq_returned h
  refine ⟨g, ids, reordered, hsorted.graph, hsorted.sortedIds, hsorted.renumbered, ?_, ?_⟩
  · intro task htask dep hdep subtask hsub hmatch
    exact hsorted.depends_lt hsub htask hdep hmatch
  · intro edge hedge
    have hadj : g.graph.Adj edge.src edge.dst := List.mem_map.mpr ⟨edge, hedge, rfl⟩
    exact hsorted.order.idxOf_lt_of_path hsorted.acyclic (.single hadj)

/-- The schedule of `libraryTasks`: the library is fetched before the VM is built. -/
def librarySchedule : List Task := number
  (libraryTasks.take 1 ++ libraryTasks.drop 2 ++ (libraryTasks.drop 1).take 1)

theorem sort_libraryTasks : sort wholeGraphCycles 20 libraryTasks = .returned librarySchedule := by
  decide +kernel

theorem sort_respects_dependencies_libraryTasks :
    ∃ g ids reordered, createTaskGraph 20 libraryTasks = .returned g ∧
      sortedIds wholeGraphCycles 20 libraryTasks = .returned ids ∧
      Renumbered libraryTasks ids reordered librarySchedule ∧
      DependenciesFirst librarySchedule ∧ EdgesForward g ids :=
  sort_respects_dependencies sort_libraryTasks

theorem DependsOn.mem_nodes {tasks : List Task} {u v : ℕ} (h : DependsOn tasks u v) :
    u ∈ (declared tasks).graph.nodes ∧ v ∈ (declared tasks).graph.nodes :=
  (adj_declared.mpr h).mem_nodes

end DistroSeed
