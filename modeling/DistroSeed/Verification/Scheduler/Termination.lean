import DistroSeed.Verification.Scheduler.Order

/-! When `sort` ends, and when it ends with an order. -/

namespace DistroSeed

open Chains Relation

/-! ## Loops without an end -/

/-- Below a cycle the search only stops at a barrier. -/
theorem not_searchEnds_of_cycle {g : TaskGraph} {node w : ℕ}
    (hbarrier : ∀ child, ¬ g.isBarrier child) (hcycle : TransGen g.graph.Adj w w)
    (hreach : TransGen g.graph.Adj w node) : ¬ g.SearchEnds node := by
  intro hcases
  rcases hcases with ⟨_, child, _, haccepts⟩ | hnone
  · exact hbarrier child haccepts.2.2.2
  · exact hnone w hreach hcycle

/-- On an acyclic graph every search ends. -/
theorem searchEnds_of_acyclic {g : TaskGraph} (h : Acyclic g.graph.Adj) (node : ℕ) :
    g.SearchEnds node := Or.inr fun w _ => h w

theorem isBarrier_declared_iff {tasks : List Task} {v : ℕ} :
    (declared tasks).isBarrier v ↔ ∃ task ∈ number tasks, task.id = v ∧ task.autoCreateRdepends := by
  rw [TaskGraph.isBarrier, Option.any_eq_true]
  constructor
  · intro hexists
    rcases hexists with ⟨task, hdata, hauto⟩
    have hid := List.find?_some hdata
    exact ⟨task, List.mem_of_find?_eq_some hdata, by simpa using hid, hauto⟩
  · intro hexists
    rcases hexists with ⟨task, htask, rfl, hauto⟩
    exact ⟨task, data_declared htask, hauto⟩

/-- A cyclic graph never yields an order, whatever else happens. -/
theorem sort_raises_of_ended {nx : SimpleCycles} {fuel : ℕ} {tasks : List Task}
    (hended : (sort nx fuel tasks).Ended) (hcyclic : ¬ Acyclic (DependsOn tasks)) :
    ∃ e, sort nx fuel tasks = .raised e ∧ e.valueError?.isSome := by
  cases hrun : sort nx fuel tasks with
  | running => exact absurd hrun hended
  | raised e =>
      refine ⟨e, rfl, ?_⟩
      rcases sort_raised_cases hrun with ⟨_, dep, config, rfl⟩ | ⟨_, _, rfl⟩
      · rfl
      · rfl
  | returned result =>
      obtain ⟨_, _, hacyclic⟩ := (exists_sort_returned_iff nx tasks).mp ⟨fuel, result, hrun⟩
      refine absurd (fun v hv => hacyclic v ?_) hcyclic
      exact TransGen.mono (fun _ _ => Or.inl) _ _ hv

/-- The search ends for a node exactly if it has a barrier to find or no ancestor on a
cycle, and `sort` ends exactly if that holds for every leaf of a satisfied list; it
then answers every cyclic list with a `ValueError`. -/
theorem sort_terminates_iff (g : TaskGraph) (node : ℕ) (nx : SimpleCycles) (tasks : List Task) :
    ((∃ fuel, (findEdgeToParent fuel g node).Ended) ↔ g.SearchEnds node) ∧
      ((∃ fuel, (sort nx fuel tasks).Ended) ∧
          (¬ Acyclic (DependsOn tasks) →
            ∃ fuel e, sort nx fuel tasks = .raised e ∧ e.valueError?.isSome) ↔
        (Satisfied tasks → ∀ leaf ∈ (declared tasks).graph.nodes,
          (declared tasks).isLeaf leaf → (declared tasks).SearchEnds leaf)) := by
  refine ⟨findEdgeToParent_ends_iff g node, ?_⟩
  have hends := createTaskGraph_ends_iff tasks
  simp only [← sort_ended_iff nx] at hends
  constructor
  · intro hexists
    rcases hexists with ⟨hended, _⟩
    exact hends.mp hended
  · intro h
    obtain ⟨fuel, hended⟩ := hends.mpr h
    refine ⟨⟨fuel, hended⟩, fun hcyclic => ⟨fuel, ?_⟩⟩
    exact sort_raises_of_ended hended hcyclic

/-- Two tasks that depend on each other, and a leaf below them. -/
def mutualTasks : List Task := [
  { config := "DS_A", cmdType := .host, dependencies := ["DS_B"] },
  { config := "DS_B", cmdType := .host, dependencies := ["DS_A"] },
  { config := "DS_LEAF", cmdType := .host, dependencies := ["DS_B"] }]

theorem sort_mutualTasks_runs_forever :
    ¬ ∃ nx fuel, (sort nx fuel mutualTasks).Ended := by
  intro hexists
  rcases hexists with ⟨nx, fuel, hended⟩
  have hends := (createTaskGraph_ends_iff mutualTasks).mp
    ⟨fuel, (sort_ended_iff nx fuel mutualTasks).mp hended⟩ (by decide)
  have hab : (declared mutualTasks).graph.Adj 1 2 := by decide
  have hba : (declared mutualTasks).graph.Adj 2 1 := by decide
  have hleaf : (declared mutualTasks).graph.Adj 2 3 := by decide
  refine not_searchEnds_of_cycle (w := 2) ?_ ((TransGen.single hba).tail hab)
    (TransGen.single hleaf) (hends 3 (by decide) (by decide))
  intro child hbarrier
  obtain ⟨task, htask, _, hauto⟩ := isBarrier_declared_iff.mp hbarrier
  have hnone : ∀ task ∈ number mutualTasks, task.autoCreateRdepends = false := by decide
  simp [hnone task htask] at hauto

/-! ## Cycles through automatic edges -/

/-- For satisfied, acyclic declarations `sort` returns an order exactly if no cyclic
sequence of leaves exists in which the nearest barrier of each leaf is the next leaf
or an ancestor of it. -/
theorem sort_returns_of_acyclic_iff (nx : SimpleCycles) {tasks : List Task}
    (hsat : Satisfied tasks) (hacyclic : Acyclic (DependsOn tasks)) :
    ((∃ fuel result, sort nx fuel tasks = .returned result) ∧
        ∀ fuel, sort nx fuel tasks ≠ .raised .invalidDependencies) ↔
      Acyclic fun leaf next => ∃ barrier, (declared tasks).AutoEdge leaf barrier ∧
        ReflTransGen (DependsOn tasks) barrier next := by
  rw [← acyclic_union_iff hacyclic, exists_sort_returned_iff]
  constructor
  · intro hexists
    rcases hexists with ⟨⟨_, _, h⟩, _⟩
    exact h
  · intro h
    refine ⟨⟨hsat, fun leaf _ _ => ?_, h⟩, fun fuel hraised => ?_⟩
    · exact searchEnds_of_acyclic (by rwa [adj_declared_eq]) leaf
    · rcases sort_raised_cases hraised with ⟨hunsat, _⟩ | ⟨_, hcyclic, _⟩
      · exact hunsat hsat
      · exact hcyclic h

/-- The tasks of one component, between the work directory and the VM image. -/
def libraryTasks : List Task := [
  { config := "DS_CORE_CREATE_WORK", provides := "DS_WORK_READY", cmdType := .host,
    autoCreateRdepends := true },
  { config := "DS_CORE_BUILD_VM", provides := "DS_VM_IMAGE_READY", cmdType := .host,
    dependencies := ["DS_WORK_READY"], autoCreateRdepends := true },
  { config := "DS_COMPONENT_LIBLVGL", cmdType := .host, dependencies := ["DS_WORK_READY"] }]

theorem sort_returns_of_acyclic_iff_libraryTasks :
    ((∃ fuel result, sort wholeGraphCycles fuel libraryTasks = .returned result) ∧
        ∀ fuel, sort wholeGraphCycles fuel libraryTasks ≠ .raised .invalidDependencies) ↔
      Acyclic fun leaf next => ∃ barrier, (declared libraryTasks).AutoEdge leaf barrier ∧
        ReflTransGen (DependsOn libraryTasks) barrier next :=
  sort_returns_of_acyclic_iff wholeGraphCycles (by decide) (by decide)

/-- The tasks of `lv_drivers`, which is built against the tasks of `liblvgl`, with
the core tasks that they reach by their default dependencies. -/
def lvDriversTasks : List Task := [
  { config := "DS_CORE_CREATE_WORK", provides := "DS_WORK_READY", cmdType := .host,
    autoCreateRdepends := true },
  { config := "DS_CORE_BUILD_VM", provides := "DS_VM_IMAGE_READY", cmdType := .host,
    dependencies := ["DS_WORK_READY"], autoCreateRdepends := true },
  { config := "DS_CORE_VM_READY", provides := "DS_VM_READY", cmdType := .host,
    dependencies := ["DS_VM_IMAGE_READY"], autoCreateRdepends := true },
  { config := "DS_CROSS_READY", provides := "DS_CROSS_READY", cmdType := .vm,
    dependencies := ["DS_VM_READY"] },
  { config := "DS_COMPONENT_LIBLVGL", cmdType := .cross, dependencies := ["DS_CROSS_READY"] },
  { config := "DS_COMPONENT_LIBLVGL", cmdType := .host, dependencies := ["DS_WORK_READY"] },
  { config := "DS_COMPONENT_LV_DRIVERS", cmdType := .cross,
    dependencies := ["DS_COMPONENT_LIBLVGL"] },
  { config := "DS_COMPONENT_LV_DRIVERS", cmdType := .host, dependencies := ["DS_WORK_READY"] }]

/-- Building `lv_drivers` gets an edge to the VM image, which it is built in. -/
theorem sort_lvDriversTasks_never_returns :
    Satisfied lvDriversTasks ∧ Acyclic (DependsOn lvDriversTasks) ∧
      sort wholeGraphCycles 20 lvDriversTasks = .raised .invalidDependencies ∧
      ¬ ∃ nx fuel result, sort nx fuel lvDriversTasks = .returned result := by
  refine ⟨by decide, by decide, ?_, ?_⟩
  · decide +kernel
  · intro hexists
    rcases hexists with ⟨nx, fuel, result, h⟩
    obtain ⟨_, _, hacyclic⟩ := (exists_sort_returned_iff nx lvDriversTasks).mp ⟨fuel, result, h⟩
    have hsearch : findEdgeToParent 20 (declared lvDriversTasks) 7 = .returned (some (7, 2)) := by
      decide +kernel
    obtain ⟨_, hnear⟩ := findEdgeToParent_eq_some_iff.mp ⟨20, hsearch⟩
    have hauto : (declared lvDriversTasks).AutoEdge 7 2 := ⟨by decide, by decide, hnear⟩
    have hpath : TransGen (declared lvDriversTasks).graph.Adj 2 7 :=
      (((TransGen.single (b := 3) (by decide)).tail (c := 4) (by decide)).tail
        (c := 5) (by decide)).tail (by decide)
    rw [adj_declared_eq] at hpath
    exact hacyclic 2 ((TransGen.mono (fun _ _ => Or.inl) _ _ hpath).tail (Or.inr hauto))

end DistroSeed
