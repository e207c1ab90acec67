import DistroSeed.Model.Environment
import DistroSeed.Verification.Scheduler.Precedence

/-! The names that a task depends on and the staging variables of its environment: both resolve to
a task that runs before it. -/

namespace DistroSeed

open KeySort

/-! ## Variable names -/

theorem ne_taskWork {name : String} (h : name.toList.take 13 ≠ "DS_TASK_WORK_".toList)
    (dep : String) : "DS_TASK_WORK_" ++ dep ≠ name := by
  intro heq
  apply h
  rw [← heq, String.toList_append]
  exact List.take_left' rfl

/-! ## The staging variables -/

@[simp] theorem lookup_stagingEnv_own (names : StagingNames) (root : String) (task : Task) :
    (task.stagingEnv names root).lookup "DS_TASK_WORK" = some (osPathJoin root task.config) :=
  AList.lookup_insert _

/-- A name that is provided leads to one of the tasks that provide it. -/
theorem exists_provides_configureStaging {tasks : List Task} {dep config : String}
    (h : (configureStaging tasks).provides.lookup dep = some config) :
    ∃ p ∈ tasks, p.provides = dep ∧ p.config = config := by
  rcases Dict.lookup_update_cases ∅
    ((tasks.filter (·.provides ≠ "")).map fun task => (task.provides, task.config)) dep with
    ⟨pair, hpair, rfl, hlookup⟩ | ⟨_, hlookup⟩
  · obtain ⟨p, hp, rfl⟩ := List.mem_map.mp hpair
    refine ⟨p, (List.mem_filter.mp hp).1, rfl, ?_⟩
    rw [configureStaging] at h
    exact Option.some.inj (hlookup.symm.trans h)
  · rw [configureStaging] at h
    rw [h] at hlookup
    simp at hlookup

theorem isSome_provides_configureStaging {tasks : List Task} {p : Task} (hp : p ∈ tasks)
    (hne : p.provides ≠ "") : ∃ config, (configureStaging tasks).provides.lookup p.provides =
      some config := by
  have hpair : (p.provides, p.config) ∈ (tasks.filter (·.provides ≠ "")).map fun task =>
      (task.provides, task.config) :=
    List.mem_map.mpr ⟨p, List.mem_filter.mpr ⟨hp, by simpa using hne⟩, rfl⟩
  obtain ⟨pair, _, _, hlookup⟩ := Dict.exists_lookup_update ∅ ⟨_, hpair, rfl⟩
  exact ⟨pair.2, hlookup⟩

theorem mem_configs_configureStaging {tasks : List Task} {config : String} :
    config ∈ (configureStaging tasks).configs ↔ ∃ p ∈ tasks, p.config = config := by
  simp [configureStaging, mem_sortedBy]

/-- The variable of a name that some task matches leads to a task that matches it. -/
theorem exists_lookup_stagingEnv {tasks : List Task} {dep : String} (hdep : dep ≠ "")
    (hmatch : ∃ p ∈ tasks, p.matches dep) (root : String) (task : Task) :
    ∃ p ∈ tasks, p.matches dep ∧
      (task.stagingEnv (configureStaging tasks) root).lookup ("DS_TASK_WORK_" ++ dep) =
        some (osPathJoin root p.config) := by
  have hown : "DS_TASK_WORK_" ++ dep ≠ "DS_TASK_WORK" := ne_taskWork (by decide) dep
  rw [Task.stagingEnv, AList.lookup_insert_ne hown]
  rcases Dict.lookup_update_cases _ ((configureStaging tasks).provides.items.map fun item =>
      ("DS_TASK_WORK_" ++ item.1, osPathJoin root item.2)) ("DS_TASK_WORK_" ++ dep) with
    ⟨pair, hpair, hkey, hlookup⟩ | ⟨hnone, hlookup⟩
  · obtain ⟨⟨name, config⟩, hitem, rfl⟩ := List.mem_map.mp hpair
    obtain rfl := (String.append_right_inj _).mp hkey
    obtain ⟨p, hp, hprovides, rfl⟩ := exists_provides_configureStaging (Dict.mem_items.mp hitem)
    exact ⟨p, hp, by simp [Task.matches, hprovides], hlookup⟩
  · -- no task provides the name, so the tasks that match have it for a config
    obtain ⟨p, hp, hmatch⟩ := hmatch
    have hconfig : p.config = dep := by
      simp only [Task.matches, Bool.or_eq_true, decide_eq_true_eq] at hmatch
      refine hmatch.resolve_right fun hprovides => ?_
      subst hprovides
      obtain ⟨config, hitem⟩ := isSome_provides_configureStaging hp hdep
      exact hnone _ (List.mem_map_of_mem (Dict.mem_items.mpr hitem)) rfl
    refine ⟨p, hp, hmatch, ?_⟩
    have hwritten : ("DS_TASK_WORK_" ++ dep, osPathJoin root dep) ∈ (configureStaging tasks).configs.map
        fun config => ("DS_TASK_WORK_" ++ config, osPathJoin root config) :=
      List.mem_map_of_mem (mem_configs_configureStaging.mpr ⟨p, hp, hconfig⟩)
    obtain ⟨pair, hpair, hkey, hvalue⟩ := Dict.exists_lookup_update ∅ ⟨_, hwritten, rfl⟩
    obtain ⟨config, _, rfl⟩ := List.mem_map.mp hpair
    obtain rfl := (String.append_right_inj _).mp hkey
    rw [hlookup, hconfig]
    exact hvalue

/-! ## The environment of a task -/

theorem lookup_taskEnv {names : StagingNames} {base : Env} {root name value : String} {task : Task}
    (h : (task.stagingEnv names root).lookup name = some value) :
    (task.taskEnv names base (some root)).lookup name = some value := by
  rw [Task.taskEnv, Dict.lookup_update_of_perm _ (List.Perm.refl _), h, Option.some_or]

/-- The staging variables reach the environment of every task that has a staging root. -/
theorem exists_environment (names : StagingNames) {ctx : TaskContext} {task : Task} {root : String}
    (hroot : ctx.stagingRoot task.cmdType = some root) :
    ∃ env, task.environment names ctx = some env ∧
      ∀ name value, name ≠ "DS_OVERLAY" → name ≠ "DS_OVERLAY_PKG_DEBIAN" →
        (task.stagingEnv names root).lookup name = some value → env.lookup name = some value := by
  cases htype : task.cmdType with
  | host =>
      rw [htype] at hroot
      obtain rfl := Option.some.inj hroot
      refine ⟨_, by simp only [Task.environment, htype]; rfl, fun name value hdata hdebian hlookup => ?_⟩
      rw [AList.lookup_insert_ne hdebian, AList.lookup_insert_ne hdata]
      exact lookup_taskEnv hlookup
  | packagelist | packagelistCross | vm | cross =>
      rw [htype] at hroot
      obtain rfl := Option.some.inj hroot
      exact ⟨_, by simp only [Task.environment, htype]; rfl,
        fun name value _ _ hlookup => lookup_taskEnv hlookup⟩
  | target | dummy =>
      rw [htype] at hroot
      cases hroot

/-- The names a task depends on lead to the working directories of tasks that run before it. -/
structure FindsDependencies (result : List Task) (root : String) (task : Task) (env : Env) :
    Prop where
  own : env.lookup "DS_TASK_WORK" = some (osPathJoin root task.config)
  dependencies : ∀ dep ∈ task.dependencies, dep ≠ "" → ∃ p ∈ result, p.matches dep ∧
    p.id < task.id ∧ env.lookup ("DS_TASK_WORK_" ++ dep) = some (osPathJoin root p.config)

/-- After `sort` and `configure_staging`, every task with a staging root finds its own directory,
and for each name it depends on that of a task which runs before it. -/
theorem environment_findsDependencies {nx : SimpleCycles} {fuel : ℕ} {tasks result : List Task}
    (h : sort nx fuel tasks = .returned result) (ctx : TaskContext) {task : Task}
    (htask : task ∈ result) {root : String} (hroot : ctx.stagingRoot task.cmdType = some root) :
    ∃ env, task.environment (configureStaging result) ctx = some env ∧
      FindsDependencies result root task env := by
  obtain ⟨g, gens, ids, reordered, hsorted⟩ := sort_eq_returned h
  obtain ⟨env, henv, hstaging⟩ := exists_environment (configureStaging result) hroot
  refine ⟨env, henv, ?_, ?_⟩
  · exact hstaging _ _ (by decide) (by decide) (lookup_stagingEnv_own _ _ _)
  · intro dep hdep hne
    have hmatch := hsorted.exists_matches htask hdep
    obtain ⟨p, hp, hpdep, hlookup⟩ := exists_lookup_stagingEnv hne hmatch root task
    refine ⟨p, hp, hpdep, hsorted.depends_lt hp htask hdep hpdep, ?_⟩
    exact hstaging _ _ (ne_taskWork (by decide) dep) (ne_taskWork (by decide) dep) hlookup

/-- A context with an empty environment. -/
def plainContext : TaskContext where
  environ := ∅
  staging := "/build/work/staging"
  fullCmd := "tasks/components/liblvgl/fetch.sh"
  path := "tasks/components/liblvgl"
  overlay := "/build/work/tmp/ds-overlay.0"
  debian := "/build/work/tmp/ds-overlay-debian.0"

theorem environment_findsDependencies_librarySchedule :
    ∃ env, { libraryTasks[2] with id := 2 }.environment (configureStaging librarySchedule)
        plainContext = some env ∧
      FindsDependencies librarySchedule "/build/work/staging" { libraryTasks[2] with id := 2 } env :=
  environment_findsDependencies sort_libraryTasks plainContext (by decide) rfl

/-- A task that lists the empty name, and one that provides nothing. -/
def emptyNameTasks : List Task := [
  { config := "DS_COMPONENT_LIBRARY", cmdType := .host },
  { config := "DS_COMPONENT_APPLICATION", cmdType := .host, dependencies := [""],
    provides := "DS_APPLICATION" }]

/-- A task that provides nothing matches the empty name, but no variable is set for it. -/
theorem environment_without_emptyName :
    sort wholeGraphCycles 20 emptyNameTasks = .returned (number emptyNameTasks) ∧
      { emptyNameTasks[1] with id := 2 } ∈ number emptyNameTasks ∧
      "" ∈ emptyNameTasks[1].dependencies ∧
      ∃ env, { emptyNameTasks[1] with id := 2 }.environment
          (configureStaging (number emptyNameTasks)) plainContext = some env ∧
        env.lookup ("DS_TASK_WORK_" ++ "") = none := by
  refine ⟨by decide +kernel, by decide, by decide, _, rfl, by decide +kernel⟩

end DistroSeed
