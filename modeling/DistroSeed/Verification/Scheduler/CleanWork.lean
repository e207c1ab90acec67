import DistroSeed.Model.Manifests
import DistroSeed.Verification.Scheduler.Precedence

/-! The work directory is cleaned before any other task runs: the loop over the default
dependencies leaves only `DS_CORE_CLEAN_WORK` without a dependency. -/

namespace DistroSeed

open Chains Relation

/-! ## After the loop -/

theorem setDefaultDependencies_spec {task task' : Task}
    (h : setDefaultDependencies task = .returned task') :
    task'.dependencies ≠ [] ∨ task'.config = "DS_CORE_CLEAN_WORK" := by
  unfold setDefaultDependencies at h
  split at h
  · rename_i hdeps
    obtain rfl := Outcome.returned.inj h
    exact Or.inl hdeps
  · split at h
    · rename_i hconfig
      obtain rfl := Outcome.returned.inj h
      exact Or.inr hconfig
    · split at h
      · obtain rfl := Outcome.returned.inj h
        exact Or.inl (by simp)
      · cases h

theorem setAllDefaultDependencies_spec {loaded tasks : List Task}
    (h : setAllDefaultDependencies loaded = .returned tasks) :
    ∀ task ∈ tasks, task.dependencies ≠ [] ∨ task.config = "DS_CORE_CLEAN_WORK" := by
  intro task htask
  obtain ⟨old, _, hold⟩ := ((Outcome.mem_of_mapM_eq_returned h).2 task).mp htask
  exact setDefaultDependencies_spec hold

/-! ## The tasks that wait for nothing -/

/-- In a schedule, a task that has dependencies has a task that it waits for. -/
theorem exists_dependsOn {tasks : List Task} {task : Task} (hsat : Satisfied tasks)
    (htask : task ∈ number tasks) (hdeps : task.dependencies ≠ []) :
    ∃ p, DependsOn tasks p task.id := by
  obtain ⟨dep, hdep⟩ := List.exists_mem_of_ne_nil _ hdeps
  obtain ⟨subtask, hsub, hmatch⟩ := satisfied_number.mpr hsat task htask dep hdep
  exact ⟨subtask.id, subtask, hsub, task, htask, rfl, rfl, dep, hdep, hmatch⟩

/-- A task with no dependencies of its own, which the loop allows `DS_CORE_CLEAN_WORK` alone. -/
structure CleansFirst (tasks : List Task) (task : Task) : Prop where
  mem : task ∈ number tasks
  config : task.config = "DS_CORE_CLEAN_WORK"
  dependencies : task.dependencies = []

/-- Every task is one that cleans first, or depends on one directly or through other tasks. -/
theorem exists_cleansFirst {tasks : List Task} (hsat : Satisfied tasks)
    (hacyclic : Acyclic (DependsOn tasks))
    (hloop : ∀ task ∈ tasks, task.dependencies ≠ [] ∨ task.config = "DS_CORE_CLEAN_WORK")
    {task : Task} (htask : task ∈ number tasks) :
    ∃ clean, CleansFirst tasks clean ∧ ReflTransGen (DependsOn tasks) clean.id task.id := by
  obtain ⟨u, hreach, hnone⟩ :=
    hacyclic.exists_source (fun _ _ hedge => hedge.mem_nodes.1) task.id
  obtain ⟨clean, hclean, rfl⟩ : ∃ clean ∈ number tasks, clean.id = u := by
    rcases hreach.cases_head with rfl | ⟨_, hedge, _⟩
    · exact ⟨task, htask, rfl⟩
    · exact mem_nodes_declared.mp hedge.mem_nodes.1
  have hdeps : clean.dependencies = [] := by
    by_contra hne
    obtain ⟨p, hp⟩ := exists_dependsOn hsat hclean hne
    exact hnone p hp
  obtain ⟨old, hold, heq⟩ := exists_mem_of_mem_number hclean
  have hconfig : clean.config = "DS_CORE_CLEAN_WORK" := by
    have hcases := hloop old hold
    rw [heq] at hdeps ⊢
    exact hcases.resolve_left (fun hne => hne hdeps)
  exact ⟨clean, ⟨hclean, hconfig, hdeps⟩, hreach⟩

/-! ## The first task of the schedule -/

/-- `task` is the first of the schedule, and all others depend on it directly or through other
tasks. -/
structure RunsFirst (tasks : List Task) (ids : List ℕ) (result : List Task) (task : Task) :
    Prop where
  head_ids : ids.head? = some task.id
  head_result : result.head? = some { task with id := 1 }
  below : ∀ other ∈ number tasks, other ≠ task → TransGen (DependsOn tasks) task.id other.id

section Schedule

variable {nx : SimpleCycles} {fuel : ℕ} {tasks result reordered : List Task} {g : TaskGraph}
  {gens : List (List ℕ)} {ids : List ℕ}

theorem Sorted.acyclic_dependsOn (h : Sorted nx fuel tasks result g gens ids reordered) :
    Acyclic (DependsOn tasks) := by
  intro v hcycle
  apply h.acyclic v
  rw [(createTaskGraph_spec h.graph).adj_eq]
  exact TransGen.mono (fun _ _ => Or.inl) _ _ hcycle

/-- Nothing that the first task of the schedule depends on is in the list. -/
theorem Sorted.not_below_first (h : Sorted nx fuel tasks result g gens ids reordered)
    {first : Task} {rest : List Task} (hreordered : reordered = first :: rest) (v : ℕ) :
    ¬ TransGen (DependsOn tasks) v first.id := by
  intro hpath
  have hlt := h.path_forward (TransGen.mono (fun _ _ => Or.inl) _ _ hpath)
  simp [← h.ids_eq, hreordered] at hlt

theorem Sorted.runsFirst (h : Sorted nx fuel tasks result g gens ids reordered) {task : Task}
    (htask : task ∈ number tasks)
    (hbelow : ∀ other ∈ number tasks, other ≠ task → TransGen (DependsOn tasks) task.id other.id) :
    RunsFirst tasks ids result task := by
  obtain ⟨first, rest, hreordered⟩ : ∃ first rest, reordered = first :: rest :=
    List.exists_cons_of_ne_nil (List.ne_nil_of_mem (h.perm.mem_iff.mpr htask))
  have hfirst : first ∈ number tasks := h.perm.mem_iff.mp (by simp [hreordered])
  have heq : first = task := by
    by_contra hne
    exact h.not_below_first hreordered task.id (hbelow first hfirst hne)
  subst heq
  refine ⟨by rw [← h.ids_eq, hreordered]; rfl, ?_, hbelow⟩
  rw [h.result_eq, hreordered]
  simp [number]

end Schedule

/-- The schedule starts with `DS_CORE_CLEAN_WORK`; every task is at or below one that cleans first,
and below the one of that config if there is only one. -/
theorem sort_cleanWork_runsFirst {nx : SimpleCycles} {fuel : ℕ} {loaded tasks result : List Task}
    (hloop : setAllDefaultDependencies loaded = .returned tasks)
    (h : sort nx fuel tasks = .returned result) :
    ∃ ids reordered, sortedIds nx fuel tasks = .returned ids ∧
      Renumbered tasks ids reordered result ∧
      (∀ first ∈ result.head?, first.config = "DS_CORE_CLEAN_WORK") ∧
      (∀ task ∈ number tasks, ∃ clean, CleansFirst tasks clean ∧
        ReflTransGen (DependsOn tasks) clean.id task.id) ∧
      ∀ clean ∈ number tasks, clean.config = "DS_CORE_CLEAN_WORK" →
        (∀ other ∈ number tasks, other.config = "DS_CORE_CLEAN_WORK" → other = clean) →
        RunsFirst tasks ids result clean := by
  obtain ⟨g, gens, ids, reordered, hsorted⟩ := sort_eq_returned h
  have hroots : ∀ task ∈ number tasks, ∃ clean, CleansFirst tasks clean ∧
      ReflTransGen (DependsOn tasks) clean.id task.id := by
    intro task htask
    exact exists_cleansFirst (createTaskGraph_spec hsorted.graph).satisfied
      hsorted.acyclic_dependsOn (setAllDefaultDependencies_spec hloop) htask
  refine ⟨ids, reordered, hsorted.sortedIds, hsorted.renumbered, ?_, hroots, ?_⟩
  · intro first hfirst
    rw [hsorted.result_eq] at hfirst
    cases hreordered : reordered with
    | nil => simp [hreordered, number] at hfirst
    | cons head rest =>
        have hhead : head ∈ number tasks := hsorted.perm.mem_iff.mp (by simp [hreordered])
        obtain ⟨clean, hclean, hreach⟩ := hroots head hhead
        have hid : head.id = clean.id :=
          (reflTransGen_iff_eq_or_transGen.mp hreach).resolve_right
            (hsorted.not_below_first hreordered clean.id)
        obtain rfl := eq_of_id_eq hhead hclean.mem hid
        obtain rfl : { head with id := 1 } = first := by
          simpa [hreordered, number] using hfirst
        exact hclean.config
  · intro clean hclean hconfig hunique
    apply hsorted.runsFirst hclean
    intro other hother hne
    obtain ⟨source, hsource, hreach⟩ := hroots other hother
    obtain rfl := hunique source hsource.mem hsource.config
    rcases reflTransGen_iff_eq_or_transGen.mp hreach with hid | hpath
    · exact absurd (eq_of_id_eq hother hsource.mem hid) hne
    · exact hpath

/-- The tasks of the work directory, with a host task that declares no dependencies. -/
def workTasks : List Task :=
  { config := "DS_COMPONENT_LIBRARY", cmdType := .host, cmd := "fetch.sh" } ::
    [createWork, cleanWork].flatMap loadTasksFromManifest

theorem sort_cleanWork_runsFirst_workTasks :
    ∃ tasks result, setAllDefaultDependencies workTasks = .returned tasks ∧
      sort wholeGraphCycles 20 tasks = .returned result ∧
      ∃ ids reordered, sortedIds wholeGraphCycles 20 tasks = .returned ids ∧
        Renumbered tasks ids reordered result ∧
        RunsFirst tasks ids result { cleanWork.task 0 with id := 3 } := by
  obtain ⟨tasks, result, hloop, hsort, hclean, hunique⟩ :
      ∃ tasks result, setAllDefaultDependencies workTasks = .returned tasks ∧
        sort wholeGraphCycles 20 tasks = .returned result ∧
        { cleanWork.task 0 with id := 3 } ∈ number tasks ∧
        ∀ other ∈ number tasks, other.config = "DS_CORE_CLEAN_WORK" →
          other = { cleanWork.task 0 with id := 3 } :=
    ⟨_, _, rfl, rfl, by decide, by decide⟩
  obtain ⟨ids, reordered, hids, hrenumbered, _, _, hfirst⟩ := sort_cleanWork_runsFirst hloop hsort
  exact ⟨tasks, result, hloop, hsort, ids, reordered, hids, hrenumbered,
    hfirst _ hclean rfl hunique⟩

end DistroSeed
