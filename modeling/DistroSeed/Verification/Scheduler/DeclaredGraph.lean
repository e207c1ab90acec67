import DistroSeed.Model.TaskManager

/-! The graph of declared dependencies: its nodes are the numbers of the tasks and
its edges are the name matches. -/

namespace DistroSeed

open Chains

/-- Every dependency name is the config of some task or provided by one. -/
def Satisfied (tasks : List Task) : Prop :=
  ∀ task ∈ tasks, ∀ dep ∈ task.dependencies, ∃ subtask ∈ tasks, subtask.matches dep

/-- Task number `v` names a dependency that task number `u` matches. -/
def DependsOn (tasks : List Task) (u v : ℕ) : Prop :=
  ∃ subtask ∈ number tasks, ∃ task ∈ number tasks, subtask.id = u ∧ task.id = v ∧
    ∃ dep ∈ task.dependencies, subtask.matches dep

instance (tasks : List Task) : Decidable (Satisfied tasks) :=
  inferInstanceAs (Decidable (∀ task ∈ tasks, ∀ dep ∈ task.dependencies,
    ∃ subtask ∈ tasks, subtask.matches dep))

/-! ## Numbering -/

@[simp] theorem length_number (tasks : List Task) : (number tasks).length = tasks.length := by
  simp [number]

theorem map_id_number (tasks : List Task) :
    (number tasks).map Task.id = List.range' 1 tasks.length := by
  refine List.ext_getElem (by simp) fun i h₁ h₂ => ?_
  simp [number, Nat.add_comm]

theorem nodup_map_id_number (tasks : List Task) : ((number tasks).map Task.id).Nodup := by
  rw [map_id_number]
  exact List.nodup_range'

theorem mem_number {tasks : List Task} {task : Task} :
    task ∈ number tasks ↔ ∃ i, ∃ h : i < tasks.length, task = { tasks[i] with id := i + 1 } := by
  simp only [number, List.mem_mapIdx, eq_comm]

/-- Numbering changes nothing but the number. -/
theorem exists_mem_number {tasks : List Task} {task : Task} (h : task ∈ tasks) :
    ∃ i, { task with id := i + 1 } ∈ number tasks := by
  obtain ⟨i, hi, rfl⟩ := List.mem_iff_getElem.mp h
  exact ⟨i, mem_number.mpr ⟨i, hi, rfl⟩⟩

theorem exists_mem_of_mem_number {tasks : List Task} {task : Task} (h : task ∈ number tasks) :
    ∃ old ∈ tasks, task = { old with id := task.id } := by
  obtain ⟨i, hi, rfl⟩ := mem_number.mp h
  exact ⟨tasks[i], List.getElem_mem hi, rfl⟩

@[simp] theorem matches_withId (task : Task) (i : ℕ) (dep : String) :
    ({ task with id := i } : Task).matches dep = task.matches dep := rfl

theorem find?_number {tasks : List Task} {task : Task} (h : task ∈ number tasks) :
    (number tasks).find? (fun t => t.id = task.id) = some task := by
  have hnodup := nodup_map_id_number tasks
  cases hfind : (number tasks).find? (fun t => t.id = task.id) with
  | none => simpa using List.find?_eq_none.mp hfind task h
  | some found =>
      have hid : found.id = task.id := by simpa using List.find?_some hfind
      exact congrArg some
        (List.inj_on_of_nodup_map hnodup (List.mem_of_find?_eq_some hfind) h hid)

theorem eq_of_id_eq {tasks : List Task} {task task' : Task} (h : task ∈ number tasks)
    (h' : task' ∈ number tasks) (hid : task.id = task'.id) : task = task' :=
  List.inj_on_of_nodup_map (nodup_map_id_number tasks) h h' hid

theorem satisfied_number {tasks : List Task} : Satisfied (number tasks) ↔ Satisfied tasks := by
  constructor
  · intro h task htask dep hdep
    obtain ⟨i, hi⟩ := exists_mem_number htask
    obtain ⟨subtask, hsub, hmatch⟩ := h _ hi dep hdep
    obtain ⟨old, hold, heq⟩ := exists_mem_of_mem_number hsub
    rw [heq] at hmatch
    exact ⟨old, hold, hmatch⟩
  · intro h task htask dep hdep
    obtain ⟨old, hold, heq⟩ := exists_mem_of_mem_number htask
    rw [heq] at hdep
    obtain ⟨subtask, hsub, hmatch⟩ := h old hold dep hdep
    obtain ⟨i, hi⟩ := exists_mem_number hsub
    exact ⟨_, hi, hmatch⟩

/-! ## The loops of `create_task_graph` -/

/-- The end points of the edges in the order in which the loops add them. -/
def declaredPairs (tasks : List Task) : List (ℕ × ℕ) :=
  tasks.flatMap fun task => task.dependencies.flatMap fun dep =>
    (tasks.filter (·.matches dep)).map fun subtask => (subtask.id, task.id)

/-- The pairs of the loop over the dependencies of one task. -/
theorem snd_of_mem_pairs {order : List Task} {task : Task} {pair : ℕ × ℕ}
    (h : pair ∈ task.dependencies.flatMap fun dep =>
      (order.filter (·.matches dep)).map fun subtask => (subtask.id, task.id)) :
    pair.2 = task.id := by
  obtain ⟨dep, _, hmem⟩ := List.mem_flatMap.mp h
  obtain ⟨subtask, _, rfl⟩ := List.mem_map.mp hmem
  rfl

theorem mem_declaredPairs {tasks : List Task} {u v : ℕ} :
    (u, v) ∈ declaredPairs tasks ↔ ∃ subtask ∈ tasks, ∃ task ∈ tasks,
      subtask.id = u ∧ task.id = v ∧ ∃ dep ∈ task.dependencies, subtask.matches dep := by
  simp only [declaredPairs, List.mem_flatMap, List.mem_map, List.mem_filter, Prod.mk.injEq]
  constructor
  · intro hexists
    rcases hexists with ⟨task, htask, dep, hdep, subtask, ⟨hsub, hmatch⟩, rfl, rfl⟩
    exact ⟨subtask, hsub, task, htask, rfl, rfl, dep, hdep, hmatch⟩
  · intro hexists
    rcases hexists with ⟨subtask, hsub, task, htask, rfl, rfl, dep, hdep, hmatch⟩
    exact ⟨task, htask, dep, hdep, subtask, ⟨hsub, hmatch⟩, rfl, rfl⟩

theorem addDependency_of_exists {tasks : List Task} {dep : String}
    (h : ∃ subtask ∈ tasks, subtask.matches dep) (task : Task) (graph : DiGraph ℕ EdgeLabel) :
    addDependency tasks task graph dep = .returned (graph.addEdgesFrom
      ((tasks.filter (·.matches dep)).map fun subtask => (subtask.id, task.id)) .declared) := by
  unfold addDependency
  split
  · rename_i hnil
    obtain ⟨subtask, hsub, hmatch⟩ := h
    exact absurd hmatch (by simpa using List.filter_eq_nil_iff.mp hnil subtask hsub)
  · rw [DiGraph.addEdgesFrom, List.foldl_map]

theorem addDependency_of_forall {tasks : List Task} {dep : String}
    (h : ¬ ∃ subtask ∈ tasks, subtask.matches dep) (task : Task) (graph : DiGraph ℕ EdgeLabel) :
    addDependency tasks task graph dep = .raised (.unsatisfied dep task.config) := by
  have hnil : tasks.filter (·.matches dep) = [] := by
    rw [List.filter_eq_nil_iff]
    intro subtask hsub hmatch
    exact h ⟨subtask, hsub, hmatch⟩
  simp [addDependency, hnil]

private theorem foldl_addEdgesFrom {α : Type*} (pairs : α → List (ℕ × ℕ)) (l : List α)
    (graph : DiGraph ℕ EdgeLabel) (label : EdgeLabel) :
    l.foldl (fun graph a => graph.addEdgesFrom (pairs a) label) graph =
      graph.addEdgesFrom (l.flatMap pairs) label := by
  induction l generalizing graph with
  | nil => rfl
  | cons a l ih => rw [List.foldl_cons, ih, List.flatMap_cons, DiGraph.addEdgesFrom_append]

theorem addDependencies_of_satisfied {tasks : List Task} {task : Task}
    (h : ∀ dep ∈ task.dependencies, ∃ subtask ∈ tasks, subtask.matches dep)
    (graph : DiGraph ℕ EdgeLabel) :
    addDependencies tasks graph task = .returned (graph.addEdgesFrom
      (task.dependencies.flatMap fun dep =>
        (tasks.filter (·.matches dep)).map fun subtask => (subtask.id, task.id)) .declared) := by
  rw [addDependencies, Outcome.foldlM_eq_returned
    (fun dep hdep graph => addDependency_of_exists (h dep hdep) task graph), foldl_addEdgesFrom]

/-- The graph with a node for every task and no edge. -/
def nodeGraph (tasks : List Task) : DiGraph ℕ EdgeLabel :=
  tasks.foldl (fun graph task => graph.addNode task.id) DiGraph.empty

private theorem foldl_addNode (l : List Task) (graph : DiGraph ℕ EdgeLabel)
    (hnodup : (graph.nodes ++ l.map Task.id).Nodup) :
    (l.foldl (fun graph task => graph.addNode task.id) graph).nodes =
        graph.nodes ++ l.map Task.id ∧
      (l.foldl (fun graph task => graph.addNode task.id) graph).edges = graph.edges := by
  induction l generalizing graph with
  | nil => simp
  | cons task l ih =>
      have hnew : task.id ∉ graph.nodes := by
        intro hmem
        exact (List.nodup_append.mp hnodup).2.2 task.id hmem task.id (by simp) rfl
      have hnodes : (graph.addNode task.id).nodes = graph.nodes ++ [task.id] := by
        simp [DiGraph.addNode, hnew]
      have := ih (graph.addNode task.id) (by simpa [hnodes, List.append_assoc] using hnodup)
      simpa [hnodes, List.append_assoc] using this

theorem nodeGraph_spec (tasks : List Task) :
    (nodeGraph (number tasks)).nodes = (number tasks).map Task.id ∧
      (nodeGraph (number tasks)).edges = [] := by
  have hnodup := nodup_map_id_number tasks
  simpa [nodeGraph, DiGraph.empty] using
    foldl_addNode (number tasks) DiGraph.empty (by simpa [DiGraph.empty] using hnodup)

/-! ## The declared graph -/

/-- The graph `create_task_graph` has built when its first two loops succeed. -/
def declared (tasks : List Task) : TaskGraph where
  tasks := number tasks
  graph := (nodeGraph (number tasks)).addEdgesFrom (declaredPairs (number tasks)) .declared

theorem declaredGraph_of_satisfied {tasks : List Task} (h : Satisfied tasks) :
    declaredGraph tasks = .returned (declared tasks) := by
  have h' := satisfied_number.mpr h
  simp only [declaredGraph]
  rw [Outcome.foldlM_eq_returned
    (fun task htask graph => addDependencies_of_satisfied (h' task htask) graph),
    Outcome.returned_bind, foldl_addEdgesFrom]
  rfl

/-- The error names a dependency without a match and the config that lists it. -/
def IsUnsatisfied (e : SortError) : Prop := ∃ dep config, e = .unsatisfied dep config

private theorem addDependency_cases (tasks : List Task) (task : Task) (dep : String)
    (graph : DiGraph ℕ EdgeLabel) :
    (∃ graph', addDependency tasks task graph dep = .returned graph') ∨
      ∃ e, IsUnsatisfied e ∧ addDependency tasks task graph dep = .raised e := by
  by_cases h : ∃ subtask ∈ tasks, subtask.matches dep
  · exact Or.inl ⟨_, addDependency_of_exists h task graph⟩
  · exact Or.inr ⟨_, ⟨dep, task.config, rfl⟩, addDependency_of_forall h task graph⟩

private theorem addDependencies_of_not_satisfied {tasks : List Task} {task : Task}
    (h : ¬ ∀ dep ∈ task.dependencies, ∃ subtask ∈ tasks, subtask.matches dep)
    (graph : DiGraph ℕ EdgeLabel) :
    ∃ e, IsUnsatisfied e ∧ addDependencies tasks graph task = .raised e := by
  simp only [not_forall] at h
  obtain ⟨dep, hdep, hbad⟩ := h
  refine Outcome.foldlM_raised (fun dep _ graph => addDependency_cases tasks task dep graph) ?_ graph
  exact ⟨dep, hdep, fun graph =>
    ⟨_, ⟨dep, task.config, rfl⟩, addDependency_of_forall hbad task graph⟩⟩

/-- An unmatched dependency name raises before any search has started. -/
theorem declaredGraph_of_not_satisfied {tasks : List Task} (h : ¬ Satisfied tasks) :
    ∃ e, IsUnsatisfied e ∧ declaredGraph tasks = .raised e := by
  rw [← satisfied_number] at h
  simp only [Satisfied, not_forall] at h
  obtain ⟨task, htask, hbad⟩ := h
  have hstep : ∀ task ∈ number tasks, ∀ graph,
      (∃ graph', addDependencies (number tasks) graph task = .returned graph') ∨
        ∃ e, IsUnsatisfied e ∧ addDependencies (number tasks) graph task = .raised e := by
    intro task _ graph
    by_cases hsat : ∀ dep ∈ task.dependencies, ∃ subtask ∈ number tasks, subtask.matches dep
    · exact Or.inl ⟨_, addDependencies_of_satisfied hsat graph⟩
    · exact Or.inr (addDependencies_of_not_satisfied hsat graph)
  obtain ⟨e, he, hloop⟩ := Outcome.foldlM_raised hstep
    ⟨task, htask, addDependencies_of_not_satisfied (by simpa only [not_forall] using hbad)⟩
    (nodeGraph (number tasks))
  refine ⟨e, he, ?_⟩
  rw [nodeGraph] at hloop
  simp only [declaredGraph, hloop, Outcome.raised_bind]

@[simp] theorem declared_tasks (tasks : List Task) : (declared tasks).tasks = number tasks := rfl

theorem nodes_declared (tasks : List Task) :
    (declared tasks).graph.nodes = (number tasks).map Task.id := by
  obtain ⟨hnodes, _⟩ := nodeGraph_spec tasks
  rw [declared, DiGraph.nodes_addEdgesFrom, hnodes]
  intro pair hpair
  rcases pair with ⟨u, v⟩
  obtain ⟨subtask, hsub, task, htask, rfl, rfl, _⟩ := mem_declaredPairs.mp hpair
  rw [hnodes]
  exact ⟨List.mem_map_of_mem hsub, List.mem_map_of_mem htask⟩

theorem adj_declared {tasks : List Task} {u v : ℕ} :
    (declared tasks).graph.Adj u v ↔ DependsOn tasks u v := by
  obtain ⟨_, hedges⟩ := nodeGraph_spec tasks
  have hnone : ¬ (nodeGraph (number tasks)).Adj u v := by
    simp [DiGraph.Adj, hedges]
  rw [declared, DiGraph.adj_addEdgesFrom, mem_declaredPairs]
  exact or_iff_right hnone

theorem adj_declared_eq (tasks : List Task) :
    (declared tasks).graph.Adj = DependsOn tasks := by
  ext u v
  exact adj_declared

instance (tasks : List Task) : Decidable (Acyclic (DependsOn tasks)) :=
  decidable_of_iff (Acyclic (declared tasks).graph.Adj) (by rw [adj_declared_eq])

theorem mem_nodes_declared {tasks : List Task} {v : ℕ} :
    v ∈ (declared tasks).graph.nodes ↔ ∃ task ∈ number tasks, task.id = v := by
  rw [nodes_declared, List.mem_map]

theorem data_declared {tasks : List Task} {task : Task} (h : task ∈ number tasks) :
    (declared tasks).data task.id = some task := find?_number h

end DistroSeed
