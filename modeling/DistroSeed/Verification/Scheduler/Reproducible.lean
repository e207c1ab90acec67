import DistroSeed.Model.Discovery
import DistroSeed.Model.LocalPackages
import DistroSeed.Verification.Scheduler.BarrierChoice

/-! What the schedule owes to the order in which the glob delivers the manifests. -/

namespace DistroSeed

open Chains KeySort Relation

/-! ## Two schedules -/

/-- What the schedule says of a task: its config and its command. -/
def Task.step (task : Task) : String × String := (task.config, task.cmd)

/-- The config and the command of a task number. -/
def stepOf (tasks : List Task) (id : ℕ) : Option (String × String) :=
  ((declared tasks).data id).map Task.step

/-- The same configs and commands one after the other, with the same numbers and the same names
of package inputs. -/
structure SameSequence (result result' : List Task) : Prop where
  steps : result.map Task.step = result'.map Task.step
  ids : result.map Task.id = result'.map Task.id
  packageInputs : result.map Task.packageInputName = result'.map Task.packageInputName

theorem map_number {α : Type*} {f : Task → α} (h : ∀ task id, f { task with id } = f task)
    (tasks : List Task) : (number tasks).map f = tasks.map f := by
  refine List.ext_getElem (by simp) fun i h₁ h₂ => ?_
  simp [number, h]

theorem Sorted.map_step {nx : SimpleCycles} {fuel : ℕ} {tasks result reordered : List Task}
    {g : TaskGraph} {gens : List (List ℕ)} {ids : List ℕ}
    (h : Sorted nx fuel tasks result g gens ids reordered) :
    ids.map (stepOf tasks) = (result.map Task.step).map some := by
  rw [← h.ids_eq, h.result_eq, map_number (fun _ _ => rfl), List.map_map, List.map_map]
  apply List.map_congr_left
  intro task htask
  rw [Function.comp_apply, stepOf, data_declared (h.perm.mem_iff.mp htask), Option.map_some]
  rfl

/-- Numbers and names of package inputs follow from the sequence. -/
theorem sameSequence_iff {tasks tasks' : List Task} :
    SameSequence (number tasks) (number tasks') ↔
      (number tasks).map Task.step = (number tasks').map Task.step := by
  constructor
  · exact SameSequence.steps
  · intro hsteps
    have hlen : tasks.length = tasks'.length := by simpa using congrArg List.length hsteps
    have hids : (number tasks).map Task.id = (number tasks').map Task.id := by
      rw [map_id_number, map_id_number, hlen]
    refine ⟨hsteps, hids, ?_⟩
    have hname : ∀ l : List Task, l.map Task.packageInputName =
        List.zipWith (fun id step => toString id ++ "-" ++ step.1) (l.map Task.id)
          (l.map Task.step) := by
      intro l
      rw [List.zipWith_map, List.zipWith_self]
      rfl
    rw [hname, hname, hids, hsteps]

theorem Sorted.sameSequence_iff_map_stepOf {nx : SimpleCycles} {fuel fuel' : ℕ}
    {tasks tasks' result result' reordered reordered' : List Task} {g g' : TaskGraph}
    {gens gens' : List (List ℕ)} {ids ids' : List ℕ}
    (hs : Sorted nx fuel tasks result g gens ids reordered)
    (hs' : Sorted nx fuel' tasks' result' g' gens' ids' reordered') :
    SameSequence result result' ↔ ids.map (stepOf tasks) = ids'.map (stepOf tasks') := by
  rw [hs.map_step, hs'.map_step, List.map_inj_right (fun _ _ => Option.some.inj), hs.result_eq,
    hs'.result_eq, sameSequence_iff]

/-- What `sort` returns does not depend on the cycle search or on how long it runs. -/
theorem sort_sameSequence {nx nx' : SimpleCycles} {fuel fuel' : ℕ} {tasks result result' : List Task}
    (h : sort nx fuel tasks = .returned result) (h' : sort nx' fuel' tasks = .returned result') :
    SameSequence result result' := by
  obtain ⟨g, gens, ids, reordered, hs⟩ := sort_eq_returned h
  obtain ⟨g', gens', ids', reordered', hs'⟩ := sort_eq_returned h'
  have hperm : ids.Perm ids' :=
    (hs.nodes_eq ▸ hs.order.perm).trans (hs'.nodes_eq ▸ hs'.order.perm).symm
  have hids : ids = ids' :=
    hperm.eq_of_pairwise (fun u v _ _ huv hvu => absurd hvu (ComesBefore.asymm u v huv))
      hs.pairwise_comesBefore hs'.pairwise_comesBefore
  have hsteps : result.map Task.step = result'.map Task.step := by
    rw [← List.map_inj_right fun _ _ => Option.some.inj, ← hs.map_step, ← hs'.map_step, hids]
  rw [hs.result_eq, hs'.result_eq] at hsteps ⊢
  exact sameSequence_iff.mpr hsteps

/-! ## How `sort` ends -/

/-- The search of every leaf ends. -/
def SearchesEnd (tasks : List Task) : Prop :=
  ∀ leaf ∈ (declared tasks).graph.nodes, (declared tasks).isLeaf leaf →
    (declared tasks).SearchEnds leaf

theorem satisfied_perm {tasks tasks' : List Task} (h : tasks'.Perm tasks) :
    Satisfied tasks' ↔ Satisfied tasks := by
  simp only [Satisfied, h.mem_iff]

theorem searchesEnd_perm {tasks tasks' : List Task} (h : tasks'.Perm tasks) :
    SearchesEnd tasks' ↔ SearchesEnd tasks := by
  obtain ⟨order, horder, hnumber⟩ := exists_reordered h
  have hends := horder.searchesEnd_iff
  rw [declared_congr hnumber] at hends
  exact hends

theorem exists_sort_ended_iff (nx : SimpleCycles) (tasks : List Task) :
    (∃ fuel, (sort nx fuel tasks).Ended) ↔ (Satisfied tasks → SearchesEnd tasks) := by
  simp only [sort_ended_iff]
  exact createTaskGraph_ends_iff tasks

theorem exists_sort_raised_iff (nx : SimpleCycles) (tasks : List Task) :
    (∃ fuel e, sort nx fuel tasks = .raised e) ↔
      (Satisfied tasks → SearchesEnd tasks ∧ ¬ Acyclic (TaskEdge tasks)) := by
  constructor
  · intro hexists hsat
    rcases hexists with ⟨fuel, e, h⟩
    have hends := (exists_sort_ended_iff nx tasks).mp ⟨fuel, by simp [h, Outcome.Ended]⟩ hsat
    rcases sort_raised_cases h with ⟨hunsat, _⟩ | ⟨_, hcyclic, _⟩
    · exact absurd hsat hunsat
    · exact ⟨hends, hcyclic⟩
  · intro h
    obtain ⟨fuel, hended⟩ := (exists_sort_ended_iff nx tasks).mpr fun hsat => (h hsat).1
    refine ⟨fuel, ?_⟩
    cases hrun : sort nx fuel tasks with
    | running => exact absurd hrun hended
    | raised e => exact ⟨e, rfl⟩
    | returned result =>
        obtain ⟨hsat, _, hacyclic⟩ := (exists_sort_returned_iff nx tasks).mp ⟨fuel, result, hrun⟩
        exact absurd hacyclic (h hsat).2

/-! ## Two orders of the manifests -/

section Runs

variable (nx : SimpleCycles) (enabled : String → Bool) (manifests manifests' : List Manifest)

def Fails : Prop := ∃ fuel e, scheduleManifests nx fuel enabled manifests = .raised e

def Schedules (result : List Task) : Prop :=
  ∃ fuel, scheduleManifests nx fuel enabled manifests = .returned result

/-- Both orders fail, or both give the same sequence. -/
def Reproducible : Prop :=
  (Fails nx enabled manifests ∧ Fails nx enabled manifests') ∨
    ∃ result result', Schedules nx enabled manifests result ∧
      Schedules nx enabled manifests' result' ∧ SameSequence result result'

end Runs

/-- Of two tasks of one config and depth that run different commands, the one that is reached first
in the list is so in `order` too. -/
def TiesKept (tasks order : List Task) : Prop :=
  ∀ u ∈ (number tasks).map Task.id, ∀ v ∈ (number tasks).map Task.id,
    configOf (number tasks) u = configOf (number tasks) v → stepOf tasks u ≠ stepOf tasks v →
      ReachedBefore (TaskEdge tasks) u v →
        ReachedBefore (TaskEdge order) (place order u) (place order v)

/-- The nearest barriers by the places in the list are those by the places in `order`. -/
def BarriersListed (tasks order : List Task) : Prop :=
  NearestBarriersAgree tasks fun u v => place order u < place order v

/-- The order in which the tasks are listed does not matter. Where every dependency name is matched,
every search ends and, unless the declared dependencies have a cycle, the two orders agree on the
nearest barriers and on the tasks of one config and depth. -/
def OrderIrrelevant (tasks tasks' : List Task) : Prop :=
  Satisfied tasks → SearchesEnd tasks ∧
    (Acyclic (DependsOn tasks) → ∃ order, Reordered tasks order ∧ number order = number tasks' ∧
      BarriersListed tasks order ∧ (Acyclic (TaskEdge tasks) → TiesKept tasks order))

/-! ### The runs behind the manifests -/

theorem setDefaultDependencies_ended (task : Task) : (setDefaultDependencies task).Ended := by
  unfold setDefaultDependencies
  split
  · simp [Outcome.Ended]
  · split
    · simp [Outcome.Ended]
    · split <;> simp [Outcome.Ended]

theorem discoverTasks_perm (enabled : String → Bool) {manifests manifests' : List Manifest}
    (h : manifests'.Perm manifests) :
    (discoverTasks enabled manifests').Perm (discoverTasks enabled manifests) :=
  (h.flatMap_right _).filter _

section Runs

variable {nx : SimpleCycles} {enabled : String → Bool} {manifests manifests' : List Manifest}
  {tasks tasks' : List Task}

theorem scheduleManifests_of_tasks
    (h : setAllDefaultDependencies (discoverTasks enabled manifests) = .returned tasks)
    (fuel : ℕ) : scheduleManifests nx fuel enabled manifests =
      (sort nx fuel tasks).mapError ScheduleError.sort := by
  rw [scheduleManifests, h]
  rfl

theorem fails_of_build
    (h : ∀ tasks, setAllDefaultDependencies (discoverTasks enabled manifests) ≠ .returned tasks) :
    Fails nx enabled manifests := by
  cases hrun : setAllDefaultDependencies (discoverTasks enabled manifests) with
  | running => exact absurd hrun (Outcome.mapM_ended fun task _ => setDefaultDependencies_ended task)
  | raised e => exact ⟨0, .build e, by rw [scheduleManifests, hrun]; rfl⟩
  | returned tasks => exact absurd hrun (h tasks)

theorem fails_iff (h : setAllDefaultDependencies (discoverTasks enabled manifests) = .returned tasks) :
    Fails nx enabled manifests ↔
      (Satisfied tasks → SearchesEnd tasks ∧ ¬ Acyclic (TaskEdge tasks)) := by
  rw [← exists_sort_raised_iff nx]
  simp only [Fails, scheduleManifests_of_tasks h, Outcome.exists_mapError_eq_raised]

theorem schedules_iff
    (h : setAllDefaultDependencies (discoverTasks enabled manifests) = .returned tasks)
    {result : List Task} : Schedules nx enabled manifests result ↔
      ∃ fuel, sort nx fuel tasks = .returned result := by
  simp only [Schedules, scheduleManifests_of_tasks h, Outcome.mapError_eq_returned]

variable (nx) in
theorem exists_schedules_iff
    (h : setAllDefaultDependencies (discoverTasks enabled manifests) = .returned tasks) :
    (∃ result, Schedules nx enabled manifests result) ↔
      Satisfied tasks ∧ SearchesEnd tasks ∧ Acyclic (TaskEdge tasks) := by
  simp only [schedules_iff h]
  rw [exists_comm, exists_sort_returned_iff]
  rfl

theorem Schedules.sameSequence
    (h : setAllDefaultDependencies (discoverTasks enabled manifests) = .returned tasks)
    {result result' : List Task} (hr : Schedules nx enabled manifests result)
    (hr' : Schedules nx enabled manifests result') : SameSequence result result' := by
  obtain ⟨fuel, hrun⟩ := (schedules_iff h).mp hr
  obtain ⟨fuel', hrun'⟩ := (schedules_iff h).mp hr'
  exact sort_sameSequence hrun hrun'

theorem Schedules.not_fails
    (h : setAllDefaultDependencies (discoverTasks enabled manifests) = .returned tasks)
    {result : List Task} (hr : Schedules nx enabled manifests result) :
    ¬ Fails nx enabled manifests := by
  obtain ⟨hsat, _, hacyclic⟩ := (exists_schedules_iff nx h).mp ⟨result, hr⟩
  intro hfails
  exact ((fails_iff h).mp hfails hsat).2 hacyclic

end Runs

/-! ## What the order of the manifests decides -/

section Order

variable {tasks order : List Task}

theorem Reordered.data_place (h : Reordered tasks order) {u : ℕ}
    (hu : u ∈ (number tasks).map Task.id) :
    (declared order).data (place order u) = ((declared tasks).data u).map (Task.placed order) := by
  obtain ⟨task, htask, rfl⟩ := List.mem_map.mp hu
  have hplaced : Task.placed order task ∈ number order := by
    rw [number_eq_map h.nodup]
    exact List.mem_map_of_mem (List.Perm.mem_iff h |>.mpr htask)
  rw [data_declared htask]
  exact data_declared hplaced

theorem Reordered.configOf_place (h : Reordered tasks order) {u : ℕ}
    (hu : u ∈ (number tasks).map Task.id) :
    configOf (number order) (place order u) = configOf (number tasks) u := by
  have hdata := congrArg (Option.map Task.config) (h.data_place hu)
  rw [Option.map_map] at hdata
  exact congrArg (Option.getD · "") hdata

theorem Reordered.stepOf_place (h : Reordered tasks order) {u : ℕ}
    (hu : u ∈ (number tasks).map Task.id) : stepOf order (place order u) = stepOf tasks u := by
  rw [stepOf, h.data_place hu, Option.map_map]
  rfl

theorem Reordered.perm_place (h : Reordered tasks order) :
    (((number tasks).map Task.id).map (place order)).Perm ((number order).map Task.id) := by
  have hids : (number order).map Task.id = (order.map Task.id).map (place order) := by
    rw [number_eq_map h.nodup, List.map_map, List.map_map]
    rfl
  rw [hids]
  exact ((List.Perm.map Task.id h).map _).symm

theorem pairwise_place (h : (order.map Task.id).Nodup) :
    (order.map Task.id).Pairwise fun u v => place order u < place order v := by
  rw [List.pairwise_iff_forall_sublist]
  intro u v huv
  exact Nat.succ_lt_succ ((pair_sublist_iff_idxOf_lt h (huv.subset (by simp))).mp huv)

/-- The searches over the two lists end at the same barriers. -/
theorem Reordered.barriersKept_iff_listed (h : Reordered tasks order) :
    BarriersKept tasks order ↔ BarriersListed tasks order :=
  h.barriersKept_iff (fun _ _ => lt_asymm) (pairwise_place h.nodup)

/-- With the same barriers, tasks of different commands come in the same order where ties do. -/
theorem Reordered.comesBefore_place (h : Reordered tasks order) (hkept : BarriersKept tasks order)
    (hties : TiesKept tasks order) {u v : ℕ} (hu : u ∈ (number tasks).map Task.id)
    (hv : v ∈ (number tasks).map Task.id) (hne : stepOf tasks u ≠ stepOf tasks v)
    (hbefore : ComesBefore tasks u v) : ComesBefore order (place order u) (place order v) := by
  have hcarries := h.carries_taskEdge hkept
  rcases hbefore with hlt | ⟨hnot, hahead⟩
  · exact Or.inl (hcarries.shallower_iff.mpr hlt)
  · refine Or.inr ⟨fun hlt => hnot (hcarries.shallower_iff.mp hlt), ?_⟩
    rw [AheadAtDepth, h.configOf_place hu, h.configOf_place hv]
    exact hahead.imp_right fun htie => ⟨htie.1, hties u hu v hv htie.1 hne htie.2⟩

section Schedules

variable {nx : SimpleCycles} {fuel fuel' : ℕ} {result result' reordered reordered' : List Task}
  {g g' : TaskGraph} {gens gens' : List (List ℕ)} {ids ids' : List ℕ}

theorem Sorted.perm_place (h : Reordered tasks order)
    (hs : Sorted nx fuel tasks result g gens ids reordered)
    (hs' : Sorted nx fuel' order result' g' gens' ids' reordered') :
    (ids.map (place order)).Perm ids' := by
  have hids : ids.Perm ((number tasks).map Task.id) := hs.nodes_eq ▸ hs.order.perm
  have hids' : ids'.Perm ((number order).map Task.id) := hs'.nodes_eq ▸ hs'.order.perm
  exact ((hids.map _).trans h.perm_place).trans hids'.symm

theorem Sorted.mem_ids_iff (hs : Sorted nx fuel tasks result g gens ids reordered) {u : ℕ} :
    u ∈ ids ↔ u ∈ (number tasks).map Task.id := by
  rw [hs.order.perm.mem_iff, hs.nodes_eq]

theorem Sorted.sameSequence_of_kept (h : Reordered tasks order) (hkept : BarriersKept tasks order)
    (hties : TiesKept tasks order) (hs : Sorted nx fuel tasks result g gens ids reordered)
    (hs' : Sorted nx fuel' order result' g' gens' ids' reordered') :
    SameSequence result result' := by
  rw [hs.sameSequence_iff_map_stepOf hs']
  refine map_eq_map_of_agree hs.pairwise_comesBefore hs'.pairwise_comesBefore ComesBefore.asymm
    (hs.perm_place h hs') (fun u hu => h.stepOf_place (hs.mem_ids_iff.mp hu)) ?_
  intro u hu v hv hne hbefore
  exact h.comesBefore_place hkept hties (hs.mem_ids_iff.mp hu) (hs.mem_ids_iff.mp hv) hne hbefore

/-- If no two tasks have the same config and command, only lists that keep the ties give the same
sequence. -/
theorem Sorted.tiesKept_of_sameSequence (h : Reordered tasks order)
    (hkept : BarriersKept tasks order) (hnodup : ((number tasks).map Task.step).Nodup)
    (hs : Sorted nx fuel tasks result g gens ids reordered)
    (hs' : Sorted nx fuel' order result' g' gens' ids' reordered')
    (hsame : SameSequence result result') : TiesKept tasks order := by
  have hids : ids.Perm ((number tasks).map Task.id) := hs.nodes_eq ▸ hs.order.perm
  have hlabels : (ids.map (stepOf tasks)).Nodup := by
    have hperm : (result.map Task.step).Perm ((number tasks).map Task.step) := by
      rw [hs.result_eq, map_number (fun _ _ => rfl)]
      exact hs.perm.map _
    rw [hs.map_step]
    exact (hperm.nodup_iff.mpr hnodup).map fun _ _ => Option.some.inj
  have hplaces : ids.map (place order) = ids' :=
    map_partner_eq_of_map_eq (hs.perm_place h hs')
      (fun u hu => h.stepOf_place (hs.mem_ids_iff.mp hu)) hlabels
      ((hs.sameSequence_iff_map_stepOf hs').mp hsame)
  have hordered : ids.Pairwise fun u v => ComesBefore order (place order u) (place order v) := by
    rw [← List.pairwise_map, hplaces]
    exact hs'.pairwise_comesBefore
  have hcarries := h.carries_taskEdge hkept
  intro u hu v hv hconfig _ hreached
  have hu' := hs.mem_ids_iff.mpr hu
  have hv' := hs.mem_ids_iff.mpr hv
  obtain ⟨k, l, l', hdu, hdv, hl, hl', hlt⟩ := hreached
  have hnotlt : ∀ {a b}, DepthIs (TaskEdge tasks) a k → DepthIs (TaskEdge tasks) b k →
      ¬ Shallower (TaskEdge tasks) a b := by
    intro a b ha hb
    rw [ha.shallower_iff hb]
    exact lt_irrefl k
  have hbefore : ComesBefore tasks u v :=
    Or.inr ⟨hnotlt hdv hdu, Or.inr ⟨hconfig, k, l, l', hdu, hdv, hl, hl', hlt⟩⟩
  have hne : u ≠ v := by
    rintro rfl
    exact ComesBefore.asymm u u hbefore hbefore
  have hidx := (idxOf_lt_iff_of_pairwise hs.ids_nodup hs.pairwise_comesBefore ComesBefore.asymm
    hu' hv' hne).mpr hbefore
  have hsub := (pair_sublist_iff_idxOf_lt hs.ids_nodup hv').mpr hidx
  rcases List.pairwise_iff_forall_sublist.mp hordered hsub with hlt | ⟨_, hahead⟩
  · exact absurd (hcarries.shallower_iff.mp hlt) (hnotlt hdu hdv)
  · rw [AheadAtDepth, h.configOf_place hu, h.configOf_place hv, hconfig] at hahead
    rcases hahead with hless | ⟨_, hreached⟩
    · exact absurd hless (lt_irrefl _)
    · exact hreached

end Schedules

end Order

/-! ## Two orders of the manifests: the result -/

section Congr

variable {tasks tasks' : List Task}

theorem dependsOn_congr (h : number tasks = number tasks') : DependsOn tasks = DependsOn tasks' := by
  funext u v
  simp only [DependsOn, h]

theorem taskEdge_congr (h : number tasks = number tasks') : TaskEdge tasks = TaskEdge tasks' := by
  funext u v
  simp only [TaskEdge, dependsOn_congr h, declared_congr h]

theorem sort_congr (nx : SimpleCycles) (fuel : ℕ) (h : number tasks = number tasks') :
    sort nx fuel tasks = sort nx fuel tasks' := by
  have hgraph : createTaskGraph fuel tasks = createTaskGraph fuel tasks' := by
    simp only [createTaskGraph, declaredGraph, h]
  simp only [sort, sortedIds, hgraph, h]

theorem acyclic_dependsOn_perm (h : tasks'.Perm tasks) :
    Acyclic (DependsOn tasks') ↔ Acyclic (DependsOn tasks) := by
  obtain ⟨order, horder, hnumber⟩ := exists_reordered h
  rw [← dependsOn_congr hnumber]
  exact horder.carries.acyclic_iff

theorem acyclic_dependsOn (h : Acyclic (TaskEdge tasks)) : Acyclic (DependsOn tasks) :=
  fun v hv => h v (TransGen.mono (fun _ _ => Or.inl) _ _ hv)

end Congr

section Runs

variable {nx : SimpleCycles} {enabled : String → Bool} {manifests manifests' : List Manifest}
  {tasks tasks' order : List Task}

theorem Schedules.searchesEnd
    (h : setAllDefaultDependencies (discoverTasks enabled manifests) = .returned tasks)
    {result : List Task} (hr : Schedules nx enabled manifests result) : SearchesEnd tasks :=
  ((exists_schedules_iff nx h).mp ⟨result, hr⟩).2.1

theorem sameSequence_of_kept (horder : Reordered tasks order) (hnumber : number order = number tasks')
    (hlisted : BarriersListed tasks order) (hties : TiesKept tasks order)
    {fuel fuel' : ℕ} {result result' : List Task} (h : sort nx fuel tasks = .returned result)
    (h' : sort nx fuel' tasks' = .returned result') : SameSequence result result' := by
  rw [← sort_congr nx fuel' hnumber] at h'
  obtain ⟨_, _, _, _, hs⟩ := sort_eq_returned h
  obtain ⟨_, _, _, _, hs'⟩ := sort_eq_returned h'
  exact hs.sameSequence_of_kept horder (horder.barriersKept_iff_listed.mpr hlisted) hties hs'

theorem tiesKept_of_sameSequence (horder : Reordered tasks order)
    (hnumber : number order = number tasks') (hlisted : BarriersListed tasks order)
    (hnodup : ((number tasks).map Task.step).Nodup) {fuel fuel' : ℕ} {result result' : List Task}
    (h : sort nx fuel tasks = .returned result) (h' : sort nx fuel' tasks' = .returned result')
    (hsame : SameSequence result result') : TiesKept tasks order := by
  rw [← sort_congr nx fuel' hnumber] at h'
  obtain ⟨_, _, _, _, hs⟩ := sort_eq_returned h
  obtain ⟨_, _, _, _, hs'⟩ := sort_eq_returned h'
  exact hs.tiesKept_of_sameSequence horder (horder.barriersKept_iff_listed.mpr hlisted) hnodup hs'
    hsame

/-- Two orders of one list give the same schedule if the order of the list does not matter. -/
theorem reproducible_of_orderIrrelevant (hperm : tasks'.Perm tasks)
    (h : setAllDefaultDependencies (discoverTasks enabled manifests) = .returned tasks)
    (h' : setAllDefaultDependencies (discoverTasks enabled manifests') = .returned tasks')
    (hirrelevant : OrderIrrelevant tasks tasks') : Reproducible nx enabled manifests manifests' := by
  have hsat' := satisfied_perm hperm
  have hends' := searchesEnd_perm hperm
  by_cases hsat : Satisfied tasks
  swap
  · exact Or.inl ⟨(fails_iff h).mpr fun hs => absurd hs hsat,
      (fails_iff h').mpr fun hs => absurd (hsat'.mp hs) hsat⟩
  obtain ⟨hends, hkeeps⟩ := hirrelevant hsat
  have hfails : ¬ Acyclic (TaskEdge tasks) → ¬ Acyclic (TaskEdge tasks') →
      Reproducible nx enabled manifests manifests' := by
    intro hcyclic hcyclic'
    exact Or.inl ⟨(fails_iff h).mpr fun _ => ⟨hends, hcyclic⟩,
      (fails_iff h').mpr fun _ => ⟨hends'.mpr hends, hcyclic'⟩⟩
  -- a cycle of declared dependencies is a cycle of both task graphs
  by_cases hdeclared : Acyclic (DependsOn tasks)
  swap
  · have hdeclared' := mt (acyclic_dependsOn_perm hperm).mp hdeclared
    exact hfails (mt acyclic_dependsOn hdeclared) (mt acyclic_dependsOn hdeclared')
  obtain ⟨order, horder, hnumber, hlisted, hties⟩ := hkeeps hdeclared
  have hiff : Acyclic (TaskEdge tasks') ↔ Acyclic (TaskEdge tasks) := by
    rw [← taskEdge_congr hnumber]
    exact (horder.carries_taskEdge (horder.barriersKept_iff_listed.mpr hlisted)).acyclic_iff
  by_cases hacyclic : Acyclic (TaskEdge tasks)
  swap
  · exact hfails hacyclic (mt hiff.mp hacyclic)
  obtain ⟨result, hresult⟩ := (exists_schedules_iff nx h).mpr ⟨hsat, hends, hacyclic⟩
  obtain ⟨result', hresult'⟩ := (exists_schedules_iff nx h').mpr
    ⟨hsat'.mpr hsat, hends'.mpr hends, hiff.mpr hacyclic⟩
  obtain ⟨fuel, hrun⟩ := (schedules_iff h).mp hresult
  obtain ⟨fuel', hrun'⟩ := (schedules_iff h').mp hresult'
  exact Or.inr ⟨result, result', hresult, hresult',
    sameSequence_of_kept horder hnumber hlisted (hties hacyclic) hrun hrun'⟩

/-- What two orders with the same schedule agree on. -/
theorem agree_of_reproducible
    (h : setAllDefaultDependencies (discoverTasks enabled manifests) = .returned tasks)
    (h' : setAllDefaultDependencies (discoverTasks enabled manifests') = .returned tasks')
    (hreproducible : Reproducible nx enabled manifests manifests') (hsat : Satisfied tasks) :
    SearchesEnd tasks ∧
      (Acyclic (TaskEdge tasks) → ((number tasks).map Task.step).Nodup →
        ∀ order, Reordered tasks order → number order = number tasks' →
          BarriersListed tasks order → TiesKept tasks order) := by
  rcases hreproducible with ⟨hfails, _⟩ | ⟨result, result', hresult, hresult', hsame⟩
  · obtain ⟨hends, hcyclic⟩ := (fails_iff h).mp hfails hsat
    exact ⟨hends, fun hacyclic => absurd hacyclic hcyclic⟩
  · refine ⟨hresult.searchesEnd h, fun _ hnodup order horder hnumber hlisted => ?_⟩
    obtain ⟨fuel, hrun⟩ := (schedules_iff h).mp hresult
    obtain ⟨fuel', hrun'⟩ := (schedules_iff h').mp hresult'
    exact tiesKept_of_sameSequence horder hnumber hlisted hnodup hrun hrun' hsame

/-- What can be built in one order can be built in another, from the same tasks. -/
theorem exists_built_of_perm (hperm : manifests'.Perm manifests)
    (h : setAllDefaultDependencies (discoverTasks enabled manifests) = .returned tasks) :
    ∃ tasks', setAllDefaultDependencies (discoverTasks enabled manifests') = .returned tasks' ∧
      tasks'.Perm tasks := by
  obtain ⟨tasks', htasks', hsame⟩ := Outcome.mapM_perm (discoverTasks_perm enabled hperm).symm h
  exact ⟨tasks', htasks', hsame.symm⟩

end Runs

/-- Two orders of the manifests give the same schedule if the order in which they list the tasks
does not matter. Searches have to end for it, and where the nearest barriers agree and no two tasks
have the same config and command, ties have to be kept for it. -/
theorem scheduleManifests_reproducible (nx : SimpleCycles) (enabled : String → Bool)
    {manifests manifests' : List Manifest} (h : manifests'.Perm manifests) :
    ((∀ tasks tasks',
        setAllDefaultDependencies (discoverTasks enabled manifests) = .returned tasks →
        setAllDefaultDependencies (discoverTasks enabled manifests') = .returned tasks' →
          OrderIrrelevant tasks tasks') → Reproducible nx enabled manifests manifests') ∧
      (Reproducible nx enabled manifests manifests' → ∀ tasks tasks',
        setAllDefaultDependencies (discoverTasks enabled manifests) = .returned tasks →
        setAllDefaultDependencies (discoverTasks enabled manifests') = .returned tasks' →
          Satisfied tasks → SearchesEnd tasks ∧
            (Acyclic (TaskEdge tasks) → ((number tasks).map Task.step).Nodup →
              ∀ order, Reordered tasks order → number order = number tasks' →
                BarriersListed tasks order → TiesKept tasks order)) := by
  refine ⟨fun hirrelevant => ?_, fun hreproducible tasks tasks' htasks htasks' hsat =>
    agree_of_reproducible htasks htasks' hreproducible hsat⟩
  by_cases hbuild :
      ∃ tasks, setAllDefaultDependencies (discoverTasks enabled manifests) = .returned tasks
  · obtain ⟨tasks, htasks⟩ := hbuild
    obtain ⟨tasks', htasks', hperm⟩ := exists_built_of_perm h htasks
    exact reproducible_of_orderIrrelevant hperm htasks htasks'
      (hirrelevant tasks tasks' htasks htasks')
  · rw [not_exists] at hbuild
    have hbuild' : ∀ tasks',
        setAllDefaultDependencies (discoverTasks enabled manifests') ≠ .returned tasks' := by
      intro tasks' htasks'
      obtain ⟨tasks, htasks, _⟩ := exists_built_of_perm h.symm htasks'
      exact hbuild tasks htasks
    exact Or.inl ⟨fails_of_build hbuild, fails_of_build hbuild'⟩

/-! ## What keeps barriers and ties -/

/-- Searches that end at one barrier in both lists. -/
theorem barriersKept_of_met {tasks order : List Task}
    (h : ∀ leaf ∈ (declared tasks).graph.nodes, (declared tasks).isLeaf leaf →
      ∃ barrier, MeetsFirst (number tasks) leaf barrier ∧ MeetsFirst order leaf barrier) :
    BarriersKept tasks order := by
  intro leaf hmem hleaf barrier
  obtain ⟨met, hlisted, hother⟩ := h leaf hmem hleaf
  constructor
  · intro hbarrier
    rwa [QueueSearch.FirstHit.unique hbarrier hother]
  · intro hbarrier
    rwa [QueueSearch.FirstHit.unique hbarrier hlisted]

/-- Tasks of one config that are no barriers and wait for the same tasks are reached in the order
of the list. -/
theorem Sorted.reachedBefore_of_listed {nx : SimpleCycles} {fuel : ℕ}
    {tasks result reordered : List Task} {g : TaskGraph} {gens : List (List ℕ)} {ids : List ℕ}
    (hs : Sorted nx fuel tasks result g gens ids reordered) {first second : Task}
    (hfirst : first ∈ number tasks) (hsecond : second ∈ number tasks)
    (hlt : first.id < second.id) (hconfig : first.config = second.config)
    (hauto : first.autoCreateRdepends = false) (hauto' : second.autoCreateRdepends = false)
    (hsame : SamePredecessors tasks first.id second.id) :
    ReachedBefore (TaskEdge tasks) first.id second.id := by
  have hidx := hs.listedOrderKept first hfirst second hsecond hlt hconfig hauto hauto' hsame
  have hparents := SamePredecessors.taskEdge_iff hfirst hsecond hauto hauto' hsame
  have hmem : ∀ task ∈ number tasks, task.id ∈ ids := fun task htask =>
    hs.mem_ids_iff.mpr (List.mem_map_of_mem htask)
  have hbefore := (idxOf_lt_iff_of_pairwise hs.ids_nodup hs.pairwise_comesBefore ComesBefore.asymm
    (hmem first hfirst) (hmem second hsecond) hlt.ne).mp hidx
  rcases hbefore with ⟨k, hk, hnotk⟩ | ⟨_, hless | ⟨_, hreached⟩⟩
  · exact absurd ((chainTo_iff_of_same_parents hparents k).mpr hk) hnotk
  · rw [configOf_number hfirst, configOf_number hsecond, hconfig] at hless
    exact absurd hless (lt_irrefl _)
  · exact hreached

/-! ## Two libraries and an application -/

def libraryManifest (config : String) : Manifest where
  config := config
  tasks := [{ cmd := "fetch.sh", cmdType := .host }]

/-- A manifest with two tasks that are built against two libraries. -/
def applicationManifest : Manifest where
  config := "DS_COMPONENT_APPLICATION"
  tasks := [{ cmd := "data.sh", cmdType := .host, dependencies := ["DS_COMPONENT_LIBRARY_A"] },
            { cmd := "config.sh", cmdType := .host, dependencies := ["DS_COMPONENT_LIBRARY_B"] }]

/-- The manifests of the application, with the libraries in the given order. -/
def applicationManifests (libraries : List String) : List Manifest :=
  [cleanWork, createWork, buildVm] ++ libraries.map libraryManifest ++ [applicationManifest]

def libraries : List String := ["DS_COMPONENT_LIBRARY_A", "DS_COMPONENT_LIBRARY_B"]

/-- A manifest with two tasks that are built against both libraries. -/
def sharedManifest : Manifest where
  config := "DS_COMPONENT_APPLICATION"
  tasks := [{ cmd := "data.sh", cmdType := .host, dependencies := libraries },
            { cmd := "config.sh", cmdType := .host, dependencies := libraries }]

def sharedManifests (libraries : List String) : List Manifest :=
  [cleanWork, createWork, buildVm] ++ libraries.map libraryManifest ++ [sharedManifest]

/-- The tasks of these manifests, where a library waits for the work directory. -/
def sharedTasks (libraries : List String) : List Task :=
  [cleanWork, createWork, buildVm].flatMap loadTasksFromManifest ++
    (libraries.map libraryManifest).flatMap (fun manifest => (loadTasksFromManifest manifest).map
      fun task => { task with dependencies := ["DS_WORK_READY"] }) ++
    loadTasksFromManifest sharedManifest

/-- The numbered tasks with the libraries swapped. -/
def sharedOrder : List Task :=
  [0, 1, 2, 4, 3, 5, 6].filterMap fun i => (number (sharedTasks libraries))[i]?

theorem barriersKept_sharedOrder : BarriersKept (sharedTasks libraries) sharedOrder := by
  apply barriersKept_of_met
  have hleaves : ∀ leaf ∈ (declared (sharedTasks libraries)).graph.nodes,
      (declared (sharedTasks libraries)).isLeaf leaf → leaf = 6 ∨ leaf = 7 := by decide +kernel
  intro leaf hmem hleaf
  rcases hleaves leaf hmem hleaf with rfl | rfl
  · exact ⟨3, ⟨1, by decide +kernel, by decide +kernel⟩, ⟨1, by decide +kernel, by decide +kernel⟩⟩
  · exact ⟨3, ⟨1, by decide +kernel, by decide +kernel⟩, ⟨1, by decide +kernel, by decide +kernel⟩⟩

theorem tiesKept_sharedOrder : TiesKept (sharedTasks libraries) sharedOrder := by
  obtain ⟨result, hsort⟩ : ∃ result, sort wholeGraphCycles 40 sharedOrder = .returned result :=
    ⟨_, rfl⟩
  obtain ⟨_, _, _, _, hs⟩ := sort_eq_returned hsort
  have hpairs : ∀ u ∈ (number (sharedTasks libraries)).map Task.id,
      ∀ v ∈ (number (sharedTasks libraries)).map Task.id,
        configOf (number (sharedTasks libraries)) u = configOf (number (sharedTasks libraries)) v →
          u ≠ v → (u = 6 ∧ v = 7) ∨ (u = 7 ∧ v = 6) := by decide +kernel
  have hplaces : place sharedOrder 6 = 6 ∧ place sharedOrder 7 = 7 := by decide +kernel
  intro u hu v hv hconfig hne hreached
  have huv : u ≠ v := by
    rintro rfl
    exact hne rfl
  rcases hpairs u hu v hv hconfig huv with ⟨rfl, rfl⟩ | ⟨rfl, rfl⟩
  · have hdata : { (sharedTasks libraries)[5] with id := 6 } ∈ number sharedOrder := by decide +kernel
    have hconf : { (sharedTasks libraries)[6] with id := 7 } ∈ number sharedOrder := by decide +kernel
    rw [hplaces.1, hplaces.2]
    exact hs.reachedBefore_of_listed hdata hconf (by decide) rfl rfl rfl
      (samePredecessors_of_dependencies_eq hdata hconf rfl)
  · -- the list does not reach the second task first
    have hdata : { (sharedTasks libraries)[5] with id := 6 } ∈ number (sharedTasks libraries) := by
      decide +kernel
    have hconf : { (sharedTasks libraries)[6] with id := 7 } ∈ number (sharedTasks libraries) := by
      decide +kernel
    have hlt := hreached.lt_of_same_parents (SamePredecessors.taskEdge_iff hconf hdata rfl rfl
      (samePredecessors_of_dependencies_eq hconf hdata rfl))
    exact absurd hlt (by decide)

theorem orderIrrelevant_sharedTasks :
    OrderIrrelevant (sharedTasks libraries) (sharedTasks libraries.reverse) := by
  have horder : Reordered (sharedTasks libraries) sharedOrder := by
    unfold Reordered
    decide +kernel
  obtain ⟨result, hsort⟩ :
      ∃ result, sort wholeGraphCycles 40 (sharedTasks libraries) = .returned result := ⟨_, rfl⟩
  obtain ⟨_, hends, _⟩ := (exists_sort_returned_iff wholeGraphCycles _).mp ⟨40, result, hsort⟩
  intro _
  exact ⟨hends, fun _ => ⟨sharedOrder, horder, by decide +kernel,
    horder.barriersKept_iff_listed.mp barriersKept_sharedOrder, fun _ => tiesKept_sharedOrder⟩⟩

/-- Both tasks wait for both libraries, so the order of the libraries does not matter. -/
theorem scheduleManifests_reproducible_sharedManifests :
    Reproducible wholeGraphCycles (fun _ => true) (sharedManifests libraries)
      (sharedManifests libraries.reverse) := by
  refine (scheduleManifests_reproducible wholeGraphCycles (fun _ => true) (by decide)).1 ?_
  intro tasks tasks' htasks htasks'
  have hbuilt : ∀ order ∈ [libraries, libraries.reverse], setAllDefaultDependencies
      (discoverTasks (fun _ => true) (sharedManifests order)) = .returned (sharedTasks order) := by
    decide +kernel
  rw [hbuilt _ (by simp)] at htasks htasks'
  obtain rfl := Outcome.returned.inj htasks
  obtain rfl := Outcome.returned.inj htasks'
  exact orderIrrelevant_sharedTasks

/-- The two tasks of the application run in file order for one order of the libraries, and the
other way round for the other. -/
theorem not_reproducible_applicationManifests :
    (applicationManifests libraries.reverse).Perm (applicationManifests libraries) ∧
      (∃ result result',
        Schedules wholeGraphCycles (fun _ => true) (applicationManifests libraries) result ∧
        Schedules wholeGraphCycles (fun _ => true) (applicationManifests libraries.reverse) result' ∧
        result.map Task.cmd = ["clean.sh", "create.sh", "fetch.sh", "fetch.sh", "data.sh",
          "config.sh", "build_vm.sh"] ∧
        result'.map Task.cmd = ["clean.sh", "create.sh", "fetch.sh", "fetch.sh", "config.sh",
          "data.sh", "build_vm.sh"]) ∧
      ¬ Reproducible wholeGraphCycles (fun _ => true) (applicationManifests libraries)
        (applicationManifests libraries.reverse) := by
  obtain ⟨tasks, htasks, result, hrun, hcmds⟩ : ∃ tasks, setAllDefaultDependencies
      (discoverTasks (fun _ => true) (applicationManifests libraries)) = .returned tasks ∧
        ∃ result, sort wholeGraphCycles 40 tasks = .returned result ∧
          result.map Task.cmd = ["clean.sh", "create.sh", "fetch.sh", "fetch.sh", "data.sh",
            "config.sh", "build_vm.sh"] :=
    ⟨_, rfl, _, rfl, by decide +kernel⟩
  obtain ⟨tasks', htasks', result', hrun', hcmds'⟩ : ∃ tasks, setAllDefaultDependencies
      (discoverTasks (fun _ => true) (applicationManifests libraries.reverse)) = .returned tasks ∧
        ∃ result, sort wholeGraphCycles 40 tasks = .returned result ∧
          result.map Task.cmd = ["clean.sh", "create.sh", "fetch.sh", "fetch.sh", "config.sh",
            "data.sh", "build_vm.sh"] :=
    ⟨_, rfl, _, rfl, by decide +kernel⟩
  have hresult := (schedules_iff htasks).mpr ⟨40, hrun⟩
  have hresult' := (schedules_iff htasks').mpr ⟨40, hrun'⟩
  refine ⟨by decide, ⟨result, result', hresult, hresult', hcmds, hcmds'⟩, ?_⟩
  rintro (⟨hfails, _⟩ | ⟨other, other', hother, hother', hsame⟩)
  · exact hresult.not_fails htasks hfails
  · have hsteps := ((hresult.sameSequence htasks hother).steps.trans hsame.steps).trans
      (hother'.sameSequence htasks' hresult').steps
    have hcmd := congrArg (List.map Prod.snd) hsteps
    rw [List.map_map, List.map_map] at hcmd
    have hsnd : (Prod.snd ∘ Task.step) = Task.cmd := rfl
    rw [hsnd, hcmds, hcmds'] at hcmd
    exact absurd hcmd (by decide)

end DistroSeed
