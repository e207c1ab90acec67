import DistroSeed.Verification.Scheduler.Pipeline
import Mathlib.Data.List.NodupEquivFin

/-! The phases of a build with any further tasks that rely on the default dependencies. -/

namespace DistroSeed

open Chains Relation

/-! ## The lists that `build.py` schedules -/

/-- A further task without declared dependencies, which is no barrier. -/
structure AddedTask (task : Task) : Prop where
  notBarrier : task.autoCreateRdepends = false
  dependencies : task.dependencies = []
  cmdType : task.cmdType ≠ .dummy

/-- The added tasks have no name that is used as a dependency: not by the manifests of
the core, and not as the default dependency of an added task. -/
def NamesUnused (distro : Distro) (extras : List Task) : Prop :=
  ∀ extra ∈ extras,
    (∀ task ∈ baseTasks distro, ∀ dep ∈ task.dependencies, extra.matches dep = false) ∧
    ∀ other ∈ extras, ∀ dep ∈ defaultDependency other.cmdType, extra.matches dep = false

/-- The task that the loop over the default dependencies leaves behind. -/
def withDefault (task : Task) : Task :=
  match setDefaultDependencies task with
  | .returned task => task
  | _ => task

/-- What the loop over the default dependencies makes of a task of the core. -/
@[mk_iff] structure BaseSpec (distro : Distro) (task : Task) : Prop where
  setDefault : setDefaultDependencies task = .returned (withDefault task)
  role : (∃ p : CoreRole, withDefault task = p.task distro) ∨ Defaulted (withDefault task)
  unmatched : Defaulted (withDefault task) → ∀ other ∈ baseTasks distro,
    ∀ dep ∈ (withDefault other).dependencies, (withDefault task).matches dep = false
  unmatched_default : Defaulted (withDefault task) → ∀ cmdType,
    ∀ dep ∈ defaultDependency cmdType, (withDefault task).matches dep = false
  /-- The default dependencies bring no new name into the core. -/
  dependencies : ∀ dep ∈ (withDefault task).dependencies,
    ∃ other ∈ baseTasks distro, dep ∈ other.dependencies

instance (distro : Distro) (task : Task) : Decidable (BaseSpec distro task) :=
  decidable_of_iff _ (baseSpec_iff distro task).symm

theorem base_spec : ∀ (distro : Distro), ∀ task ∈ baseTasks distro, BaseSpec distro task := by
  decide +kernel

theorem base_count : ∀ (distro : Distro) (p : CoreRole),
    ((baseTasks distro).map withDefault).count (p.task distro) = 1 := by
  decide +kernel

@[simp] theorem withDefault_matches (task : Task) (dep : String) :
    (withDefault task).matches dep = task.matches dep := by
  unfold withDefault setDefaultDependencies
  split_ifs
  · rfl
  · rfl
  · cases hdep : defaultDependency task.cmdType <;> rfl

section Lists

variable {distro : Distro} {extras loaded : List Task}

theorem AddedTask.setDefault {task : Task} (h : AddedTask task)
    (hname : task.matches "DS_CORE_CLEAN_WORK" = false) :
    ∃ dep ∈ defaultDependency task.cmdType,
      setDefaultDependencies task = .returned { task with dependencies := [dep] } := by
  have hconfig : task.config ≠ "DS_CORE_CLEAN_WORK" := by
    intro heq
    simp [Task.matches, heq] at hname
  obtain ⟨dep, hdep⟩ : ∃ dep, defaultDependency task.cmdType = some dep := by
    cases hcmd : task.cmdType with
    | dummy => exact absurd hcmd h.cmdType
    | _ => exact ⟨_, rfl⟩
  refine ⟨dep, hdep, ?_⟩
  rw [setDefaultDependencies, if_neg (by simp [h.dependencies]), if_neg hconfig, hdep]

theorem NamesUnused.cleanWork (h : NamesUnused distro extras) {extra : Task}
    (hextra : extra ∈ extras) : extra.matches "DS_CORE_CLEAN_WORK" = false := by
  have hcreate : CoreRole.createWork.task distro ∈ baseTasks distro := by
    cases distro <;> decide +kernel
  exact (h extra hextra).1 _ hcreate "DS_CORE_CLEAN_WORK" (by simp [CoreRole.task,
    Manifest.task, DistroSeed.createWork, Task.ofManifest])

theorem AddedTask.withDefault {task : Task} (h : AddedTask task)
    (hname : task.matches "DS_CORE_CLEAN_WORK" = false) :
    setDefaultDependencies task = .returned (withDefault task) ∧ Defaulted (withDefault task) ∧
      (withDefault task).cmdType = task.cmdType := by
  obtain ⟨dep, hdep, hset⟩ := h.setDefault hname
  have hwith : DistroSeed.withDefault task = { task with dependencies := [dep] } := by
    rw [DistroSeed.withDefault, hset]
  rw [hwith]
  refine ⟨hset, ⟨h.notBarrier, ?_⟩, rfl⟩
  rw [show defaultDependency task.cmdType = some dep from hdep, Option.map_some]

/-- Each task of the list as it is after the loop, with what the loop needs of it. -/
theorem setDefault_of_mem (hperm : loaded.Perm (baseTasks distro ++ extras))
    (hextras : ∀ extra ∈ extras, AddedTask extra) (hnames : NamesUnused distro extras)
    {task : Task} (htask : task ∈ loaded) :
    setDefaultDependencies task = .returned (withDefault task) ∧
      ((∃ p : CoreRole, withDefault task = p.task distro) ∨ Defaulted (withDefault task)) := by
  rcases List.mem_append.mp (hperm.mem_iff.mp htask) with hbase | hextra
  · exact ⟨(base_spec distro task hbase).setDefault, (base_spec distro task hbase).role⟩
  · obtain ⟨hset, hdefaulted, _⟩ := (hextras task hextra).withDefault (hnames.cleanWork hextra)
    exact ⟨hset, Or.inr hdefaulted⟩

theorem setAllDefault_of_perm (hperm : loaded.Perm (baseTasks distro ++ extras))
    (hextras : ∀ extra ∈ extras, AddedTask extra) (hnames : NamesUnused distro extras) :
    setAllDefaultDependencies loaded = .returned (loaded.map withDefault) :=
  Outcome.mapM_eq_returned fun _ htask => (setDefault_of_mem hperm hextras hnames htask).1

theorem hasRole_withId {task : Task} {i : ℕ} {role : Role} :
    HasRole distro { task with id := i } role ↔ HasRole distro task role := by
  cases role with
  | core p => exact Iff.rfl
  | added cmdType =>
      exact and_congr_right fun _ => ⟨fun h => ⟨h.notBarrier, h.dependencies⟩,
        fun h => ⟨h.notBarrier, h.dependencies⟩⟩

theorem hasRole_core_iff {task : Task} {p : CoreRole} (hid : task.id = 0) :
    HasRole distro task (.core p) ↔ task = p.task distro := by
  rw [HasRole, ← hid]

/-- The names of a defaulted task are no dependency names of the list. -/
theorem matches_eq_false (hperm : loaded.Perm (baseTasks distro ++ extras))
    (hextras : ∀ extra ∈ extras, AddedTask extra) (hnames : NamesUnused distro extras)
    {task other : Task} (htask : task ∈ loaded) (hdefaulted : Defaulted (withDefault task))
    (hother : other ∈ loaded) {dep : String} (hdep : dep ∈ (withDefault other).dependencies) :
    task.matches dep = false := by
  have hdefault : other ∈ extras → dep ∈ defaultDependency other.cmdType := by
    intro hextra
    obtain ⟨_, hother, hcmd⟩ := (hextras other hextra).withDefault (hnames.cleanWork hextra)
    have hdeps := hother.dependencies
    rw [hcmd] at hdeps
    obtain ⟨dep', hdep', heq⟩ := Option.map_eq_some_iff.mp hdeps
    rw [← heq, List.mem_singleton] at hdep
    exact hdep ▸ hdep'
  rcases List.mem_append.mp (hperm.mem_iff.mp htask) with htask | htask
  · rw [← withDefault_matches]
    rcases List.mem_append.mp (hperm.mem_iff.mp hother) with hother | hother
    · exact (base_spec distro task htask).unmatched hdefaulted other hother dep hdep
    · exact (base_spec distro task htask).unmatched_default hdefaulted _ dep (hdefault hother)
  · rcases List.mem_append.mp (hperm.mem_iff.mp hother) with hother | hother
    · obtain ⟨base, hbase, hdep⟩ := (base_spec distro other hother).dependencies dep hdep
      exact (hnames task htask).1 base hbase dep hdep
    · exact (hnames task htask).2 other hother dep (hdefault hother)

theorem Defaulted.hasRole {task : Task} (h : Defaulted task) :
    HasRole distro task (.added task.cmdType) := ⟨rfl, h⟩

/-- Each core task is in the list once. -/
theorem count_core (hperm : loaded.Perm (baseTasks distro ++ extras))
    (hextras : ∀ extra ∈ extras, AddedTask extra) (hnames : NamesUnused distro extras)
    (p : CoreRole) : (loaded.map withDefault).count (p.task distro) = 1 := by
  have hnone : (extras.map withDefault).count (p.task distro) = 0 := by
    rw [List.count_eq_zero]
    intro hmem
    obtain ⟨extra, hextra, heq⟩ := List.mem_map.mp hmem
    obtain ⟨_, hdefaulted, _⟩ := (hextras extra hextra).withDefault (hnames.cleanWork hextra)
    exact (core_spec distro p).notDefaulted (heq ▸ hdefaulted)
  rw [(hperm.map withDefault).count_eq, List.map_append, List.count_append, base_count, hnone]

/-- A task of the list that plays a core role is the core task itself. -/
theorem eq_core_of_hasRole (hperm : loaded.Perm (baseTasks distro ++ extras))
    (hextras : ∀ extra ∈ extras, AddedTask extra) (hnames : NamesUnused distro extras)
    {task : Task} (htask : task ∈ loaded) {p : CoreRole}
    (hrole : HasRole distro (withDefault task) (.core p)) : withDefault task = p.task distro := by
  rcases (setDefault_of_mem hperm hextras hnames htask).2 with ⟨q, hq⟩ | hdefaulted
  · have hcore : HasRole distro (withDefault task) (.core q) :=
      (hasRole_core_iff (hq ▸ (core_spec distro q).id)).mpr hq
    obtain rfl := Role.core.inj (hcore.unique hrole)
    exact hq
  · cases hrole.unique hdefaulted.hasRole

theorem pipeline_of_perm (hperm : loaded.Perm (baseTasks distro ++ extras))
    (hextras : ∀ extra ∈ extras, AddedTask extra) (hnames : NamesUnused distro extras) :
    Pipeline distro (loaded.map withDefault) where
  role := by
    intro task htask
    obtain ⟨i, hi, rfl⟩ := mem_number.mp htask
    obtain ⟨old, hold, heq⟩ := List.mem_map.mp (List.getElem_mem hi)
    rw [← heq]
    simp only [hasRole_withId]
    rcases (setDefault_of_mem hperm hextras hnames hold).2 with ⟨p, hp⟩ | hdefaulted
    · exact ⟨.core p, (hasRole_core_iff (hp ▸ (core_spec distro p).id)).mpr hp⟩
    · exact ⟨_, hdefaulted.hasRole⟩
  present := by
    intro p
    have hmem : p.task distro ∈ loaded.map withDefault := by
      rw [← List.count_pos_iff, count_core hperm hextras hnames]
      exact Nat.one_pos
    obtain ⟨i, hi⟩ := exists_mem_number hmem
    exact ⟨i + 1, _, hi, rfl,
      hasRole_withId.mpr ((hasRole_core_iff (core_spec distro p).id).mpr rfl)⟩
  unique := by
    intro p u v hexists hexists'
    rcases hexists with ⟨task, htask, rfl, hrole⟩
    rcases hexists' with ⟨task', htask', rfl, hrole'⟩
    obtain ⟨i, hi, rfl⟩ := mem_number.mp htask
    obtain ⟨j, hj, rfl⟩ := mem_number.mp htask'
    rw [hasRole_withId] at hrole hrole'
    have hcore : ∀ k, ∀ hk : k < (loaded.map withDefault).length,
        HasRole distro (loaded.map withDefault)[k] (.core p) →
          (loaded.map withDefault)[k] = p.task distro := by
      intro k hk hk'
      rw [List.getElem_map] at hk' ⊢
      exact eq_core_of_hasRole hperm hextras hnames (List.getElem_mem _) hk'
    have hdup : ∀ i j, ∀ hi : i < (loaded.map withDefault).length,
        ∀ hj : j < (loaded.map withDefault).length, i < j →
          (loaded.map withDefault)[i] = p.task distro →
          (loaded.map withDefault)[j] ≠ p.task distro := by
      intro i j hi hj hij hpi hpj
      have hdup : List.Duplicate (p.task distro) (loaded.map withDefault) :=
        List.duplicate_iff_exists_distinct_get.mpr ⟨⟨i, hi⟩, ⟨j, hj⟩, hij, hpi.symm, hpj.symm⟩
      have htwo := List.duplicate_iff_two_le_count.mp hdup
      rw [count_core hperm hextras hnames] at htwo
      omega
    have hpi := hcore i hi hrole
    have hpj := hcore j hj hrole'
    rcases Nat.lt_trichotomy i j with hij | rfl | hij
    · exact absurd hpj (hdup i j hi hj hij hpi)
    · rfl
    · exact absurd hpi (hdup j i hj hi hij hpj)
  unmatched := by
    intro task htask cmdType hrole other hother dep hdep
    obtain ⟨i, hi, rfl⟩ := mem_number.mp htask
    obtain ⟨j, hj, rfl⟩ := mem_number.mp hother
    obtain ⟨old, hold, heq⟩ := List.mem_map.mp (List.getElem_mem hi)
    obtain ⟨old', hold', heq'⟩ := List.mem_map.mp (List.getElem_mem hj)
    rw [hasRole_withId, ← heq] at hrole
    rw [← heq'] at hdep
    rw [matches_withId, ← heq, withDefault_matches]
    exact matches_eq_false hperm hextras hnames hold hrole.2 hold' hdep

end Lists

/-! ## The phases -/

/-- Where the defaulted tasks of each type stand among the core tasks. -/
structure PhaseOrder (distro : Distro) (result : List Task) : Prop where
  packagelist : ∀ task ∈ result, HasRole distro task (.added .packagelist) →
    ∀ rootfs ∈ result, HasRole distro rootfs (.core .rootfs) → task.id < rootfs.id
  packagelistCross : ∀ task ∈ result, HasRole distro task (.added .packagelistCross) →
    ∀ ready ∈ result, HasRole distro ready (.core .crossReady) → task.id < ready.id
  built : ∀ task ∈ result, ∀ cmdType, (cmdType = .host ∨ cmdType = .vm ∨ cmdType = .cross) →
    HasRole distro task (.added cmdType) →
    ∀ build ∈ result, HasRole distro build (.core .buildPackages) → task.id < build.id
  cross : ∀ task ∈ result, HasRole distro task (.added .cross) →
    ∀ ready ∈ result, HasRole distro ready (.core .crossReady) → ready.id < task.id
  targetAfter : ∀ task ∈ result, HasRole distro task (.added .target) →
    ∀ install ∈ result, HasRole distro install (.core .installPackages) → install.id < task.id
  targetBefore : ∀ task ∈ result, HasRole distro task (.added .target) →
    ∀ clean ∈ result, HasRole distro clean (.core .chrootClean) → task.id < clean.id

/-- The roles on the way from one stage to the next. -/
theorem stage_paths :
    TransGen (fun p q : CoreRole => p ∈ (Role.core q).parents) .packagelistReady .rootfs ∧
    TransGen (fun p q : CoreRole => p ∈ (Role.core q).parents) .buildVm .crossReady ∧
    TransGen (fun p q : CoreRole => p ∈ (Role.core q).parents) .buildVm .buildPackages ∧
    TransGen (fun p q : CoreRole => p ∈ (Role.core q).parents) .installPackages .chrootReady ∧
    TransGen (fun p q : CoreRole => p ∈ (Role.core q).parents) .chrootLate .chrootClean := by
  refine ⟨.single (by decide), ?_, ?_, ?_, .single (by decide)⟩
  · exact .head (b := .vmReady) (by decide) (.single (by decide))
  · exact .head (b := .vmReady) (by decide) (.single (by decide))
  · exact .head (b := .chrootPrep) (by decide)
      (.head (b := .aptFinishInstall) (by decide) (.single (by decide)))

section Result

variable {nx : SimpleCycles} {fuel : ℕ} {distro : Distro} {tasks result reordered : List Task}
  {g : TaskGraph} {gens : List (List ℕ)} {ids : List ℕ}

/-- Two tasks of the result stand in the order of a path between their roles. -/
theorem Sorted.lt_of_role_path (h : Sorted nx fuel tasks result g gens ids reordered)
    {a b : Task} (ha : a ∈ result) (hb : b ∈ result) {r s : Role} (har : HasRole distro a r)
    (hbs : HasRole distro b s)
    (hpath : ∀ u v, RoleAt distro tasks u r → RoleAt distro tasks v s →
      TransGen (TaskEdge tasks) u v) : a.id < b.id := by
  obtain ⟨olda, holda, rfl⟩ := h.mem_result_iff.mp ha
  obtain ⟨oldb, holdb, rfl⟩ := h.mem_result_iff.mp hb
  have hlt := h.path_forward (hpath olda.id oldb.id
    ⟨olda, holda, rfl, hasRole_withId.mp har⟩ ⟨oldb, holdb, rfl, hasRole_withId.mp hbs⟩)
  exact Nat.succ_lt_succ hlt

theorem Pipeline.phaseOrder (hp : Pipeline distro tasks)
    (h : Sorted nx fuel tasks result g gens ids reordered) : PhaseOrder distro result := by
  obtain ⟨hrootfs, hcross, hbuild, hready, hclean⟩ := stage_paths
  refine ⟨?_, ?_, ?_, ?_, ?_, ?_⟩
  · intro task htask hrole rootfs hmem hcore
    exact h.lt_of_role_path htask hmem hrole hcore fun u v hu hv =>
      hp.path_of_added rfl hrootfs.to_reflTransGen hu hv
  · intro task htask hrole ready hmem hcore
    exact h.lt_of_role_path htask hmem hrole hcore fun u v hu hv =>
      hp.path_of_added rfl hcross.to_reflTransGen hu hv
  · intro task htask cmdType hcmd hrole build hmem hcore
    apply h.lt_of_role_path htask hmem hrole hcore
    intro u v hu hv
    rcases hcmd with rfl | rfl | rfl
    · exact hp.path_of_added rfl hbuild.to_reflTransGen hu hv
    · exact hp.path_of_added rfl .refl hu hv
    · exact hp.path_of_added rfl .refl hu hv
  · intro task htask hrole ready hmem hcore
    exact h.lt_of_role_path hmem htask hcore hrole fun u v hu hv =>
      hp.path_to_added (q := .crossReady) (by decide) .refl hu hv
  · intro task htask hrole install hmem hcore
    exact h.lt_of_role_path hmem htask hcore hrole fun u v hu hv =>
      hp.path_to_added (q := .chrootReady) (by decide) hready.to_reflTransGen hu hv
  · intro task htask hrole clean hmem hcore
    exact h.lt_of_role_path htask hmem hrole hcore fun u v hu hv =>
      hp.path_of_added rfl hclean.to_reflTransGen hu hv

/-- A task of the list appears in the result, with its role. -/
theorem Sorted.exists_mem_result (h : Sorted nx fuel tasks result g gens ids reordered)
    {task : Task} (htask : task ∈ tasks) : ∃ i, { task with id := i } ∈ result := by
  obtain ⟨i, hi⟩ := exists_mem_number htask
  exact ⟨_, h.mem_result_iff.mpr ⟨_, hi, rfl⟩⟩

end Result

/-- Whatever tasks without dependencies of their own are added to the core and a
distro, and in whatever order the manifests are found: if no name of theirs is used as a
dependency, `sort` returns, and every phase of the build holds the tasks of its type. -/
theorem sort_phases (nx : SimpleCycles) {distro : Distro} {extras loaded : List Task}
    (hperm : loaded.Perm (baseTasks distro ++ extras))
    (hextras : ∀ extra ∈ extras, AddedTask extra) (hnames : NamesUnused distro extras) :
    ∃ tasks, setAllDefaultDependencies loaded = .returned tasks ∧
      ∃ fuel result, sort nx fuel tasks = .returned result ∧ PhaseOrder distro result ∧
        (∀ extra ∈ extras, ∃ task ∈ result, task.config = extra.config ∧
          task.provides = extra.provides ∧ HasRole distro task (.added extra.cmdType)) ∧
        ∀ role : CoreRole, ∃ task ∈ result, HasRole distro task (.core role) := by
  have hpipeline := pipeline_of_perm hperm hextras hnames
  refine ⟨_, setAllDefault_of_perm hperm hextras hnames, ?_⟩
  obtain ⟨fuel, result, hsort⟩ := hpipeline.exists_sort_returned nx
  obtain ⟨g, gens, ids, reordered, hsorted⟩ := sort_eq_returned hsort
  refine ⟨fuel, result, hsort, hpipeline.phaseOrder hsorted, ?_, ?_⟩
  · intro extra hextra
    have hmem : extra ∈ loaded := hperm.mem_iff.mpr (List.mem_append_right _ hextra)
    obtain ⟨dep, hdep, hset⟩ := (hextras extra hextra).setDefault (hnames.cleanWork hextra)
    obtain ⟨_, hdefaulted, hcmd⟩ := (hextras extra hextra).withDefault (hnames.cleanWork hextra)
    obtain ⟨i, hi⟩ := hsorted.exists_mem_result (List.mem_map_of_mem (f := withDefault) hmem)
    have hwith : withDefault extra = { extra with dependencies := [dep] } := by
      rw [withDefault, hset]
    refine ⟨_, hi, ?_, ?_, hasRole_withId.mpr (hcmd ▸ hdefaulted.hasRole)⟩
    · rw [hwith]
    · rw [hwith]
  · intro role
    obtain ⟨v, task, htask, _, hrole⟩ := hpipeline.present role
    exact ⟨_, hsorted.mem_result_iff.mpr ⟨task, htask, rfl⟩, hasRole_withId.mpr hrole⟩

/-- One further task of each type. -/
def addedTasks : List Task := [
  { config := "DS_ADDED_HOST", cmdType := .host },
  { config := "DS_ADDED_VM", cmdType := .vm },
  { config := "DS_ADDED_CROSS", cmdType := .cross },
  { config := "DS_ADDED_TARGET", cmdType := .target },
  { config := "DS_ADDED_PACKAGELIST", cmdType := .packagelist },
  { config := "DS_ADDED_PACKAGELIST_CROSS", cmdType := .packagelistCross }]

theorem sort_phases_addedTasks :
    ∃ tasks, setAllDefaultDependencies (baseTasks .bookworm ++ addedTasks) = .returned tasks ∧
      ∃ fuel result, sort wholeGraphCycles fuel tasks = .returned result ∧
        PhaseOrder .bookworm result ∧
        (∀ extra ∈ addedTasks, ∃ task ∈ result, task.config = extra.config ∧
          task.provides = extra.provides ∧ HasRole .bookworm task (.added extra.cmdType)) ∧
        ∀ role : CoreRole, ∃ task ∈ result, HasRole .bookworm task (.core role) := by
  have hadded : ∀ extra ∈ addedTasks, extra.autoCreateRdepends = false ∧
      extra.dependencies = [] ∧ extra.cmdType ≠ .dummy := by
    decide
  refine sort_phases wholeGraphCycles (List.Perm.refl _) (fun extra hextra => ?_) ?_
  · obtain ⟨hnot, hdeps, hcmd⟩ := hadded extra hextra
    exact ⟨hnot, hdeps, hcmd⟩
  · unfold NamesUnused
    decide +kernel

/-- A cross task that is called `DS_CROSS_READY`, which no manifest of the core uses as
a dependency, waits for itself. -/
def selfReadyTask : Task := { config := "DS_CROSS_READY", cmdType := .cross }

theorem sort_fails_for_selfReadyTask :
    AddedTask selfReadyTask ∧
      (∀ task ∈ baseTasks .bookworm, ∀ dep ∈ task.dependencies,
        selfReadyTask.matches dep = false) ∧
      ∃ tasks, setAllDefaultDependencies (baseTasks .bookworm ++ [selfReadyTask]) =
          .returned tasks ∧
        sort wholeGraphCycles 100 tasks = .raised .invalidDependencies ∧
        ¬ ∃ nx fuel result, sort nx fuel tasks = .returned result := by
  refine ⟨⟨rfl, rfl, by decide⟩, by decide +kernel, _, rfl, by decide +kernel, ?_⟩
  intro hexists
  rcases hexists with ⟨nx, fuel, result, h⟩
  obtain ⟨_, _, hacyclic⟩ := (exists_sort_returned_iff nx _).mp ⟨fuel, result, h⟩
  refine hacyclic 24 (.single (Or.inl (adj_declared.mp ?_)))
  decide +kernel

end DistroSeed
