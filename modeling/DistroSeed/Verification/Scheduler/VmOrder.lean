import DistroSeed.Verification.Scheduler.Phases

/-! The target rootfs is built in the VM, but its manifest only waits for the
packagelist: whether the VM runs by then is decided by the depths in the task graph. -/

namespace DistroSeed

open Chains Relation KeySort

variable {distro : Distro} {tasks : List Task}

/-- Starting the VM waits for the VM image. -/
theorem vm_path {image start : Task} (himage : image ∈ number tasks)
    (hstart : start ∈ number tasks) (himageRole : HasRole distro image (.core .buildVm))
    (hstartRole : HasRole distro start (.core .vmReady)) : TaskEdge tasks image.id start.id := by
  refine Or.inl ⟨image, himage, start, hstart, rfl, rfl, ?_⟩
  obtain ⟨dep, hdep, hmatch⟩ := ((core_spec distro .vmReady).dependencies_iff .buildVm).mpr (by decide)
  exact ⟨dep, by rwa [hstartRole.dependencies_core], by rwa [himageRole.matches_core]⟩

theorem vmReady_config_lt : ∀ distro : Distro,
    (CoreRole.vmReady.task distro).config < (CoreRole.rootfs.task distro).config := by
  decide +kernel

/-- In the returned order the rootfs task comes after the tasks that build and start
the VM exactly if it is at least as deep in the task graph as the task that starts it. -/
theorem sort_rootfs_after_vm_iff {nx : SimpleCycles} {fuel : ℕ} {result : List Task}
    (h : sort nx fuel tasks = .returned result) {rootfs image start : Task}
    (hrootfs : rootfs ∈ number tasks) (himage : image ∈ number tasks)
    (hstart : start ∈ number tasks) (hrootfsRole : HasRole distro rootfs (.core .rootfs))
    (himageRole : HasRole distro image (.core .buildVm))
    (hstartRole : HasRole distro start (.core .vmReady)) :
    ∃ ids reordered, sortedIds nx fuel tasks = .returned ids ∧
      Renumbered tasks ids reordered result ∧
      (ids.idxOf image.id < ids.idxOf rootfs.id ∧ ids.idxOf start.id < ids.idxOf rootfs.id ↔
        ¬ Shallower (TaskEdge tasks) rootfs.id start.id) := by
  obtain ⟨g, gens, ids, reordered, hsorted⟩ := sort_eq_returned h
  have hspec := createTaskGraph_spec hsorted.graph
  refine ⟨ids, reordered, hsorted.sortedIds, hsorted.renumbered, ?_⟩
  have hmem : ∀ task ∈ number tasks, task.id ∈ g.graph.nodes := by
    intro task htask
    rw [hsorted.nodes_eq]
    exact List.mem_map_of_mem htask
  have hne : start.id ≠ rootfs.id := by
    intro heq
    obtain rfl := eq_of_id_eq hstart hrootfs heq
    cases hstartRole.unique hrootfsRole
  have hfirst : ids.idxOf image.id < ids.idxOf start.id :=
    hsorted.path_forward (.single (vm_path himage hstart himageRole hstartRole))
  have hconfig : configOf g.tasks start.id < configOf g.tasks rootfs.id := by
    rw [hspec.tasks_eq, configOf_number hstart, configOf_number hrootfs, hstartRole.eq_core,
      hrootfsRole.eq_core]
    exact vmReady_config_lt distro
  have horder : ids.idxOf start.id < ids.idxOf rootfs.id ↔
      ¬ Shallower (TaskEdge tasks) rootfs.id start.id := by
    rw [hsorted.order.idxOf_lt_iff (hmem start hstart) (hmem rootfs hrootfs) hne, ← hspec.adj_eq]
    constructor
    · intro hcases
      rcases hcases with hlt | ⟨hnot, _⟩
      · intro hgt
        have hbefore : ScheduledBefore g gens.flatten start.id rootfs.id := Or.inl hlt
        exact hbefore.asymm _ _ (Or.inl hgt)
      · exact hnot
    · intro hnot
      exact Or.inr ⟨hnot, Or.inl hconfig⟩
  rw [← horder]
  exact ⟨fun hboth => hboth.2, fun hlt => ⟨hfirst.trans hlt, hlt⟩⟩

/-- The core and Debian 12 alone, with their default dependencies. -/
def plainTasks : List Task := (baseTasks .bookworm).map withDefault

/-- Core task number `i` of `plainTasks`. -/
def plainTask (role : CoreRole) (i : ℕ) : Task := { role.task .bookworm with id := i }

theorem hasRole_plainTask (role : CoreRole) (i : ℕ) :
    HasRole .bookworm (plainTask role i) (.core role) :=
  hasRole_withId.mpr ((hasRole_core_iff (core_spec .bookworm role).id).mpr rfl)

theorem sort_rootfs_after_vm_iff_plainTasks :
    ∃ fuel result, sort wholeGraphCycles fuel plainTasks = .returned result ∧
      ∃ ids reordered, sortedIds wholeGraphCycles fuel plainTasks = .returned ids ∧
        Renumbered plainTasks ids reordered result ∧
        (ids.idxOf 3 < ids.idxOf 22 ∧ ids.idxOf 4 < ids.idxOf 22 ↔
          ¬ Shallower (TaskEdge plainTasks) 22 4) := by
  have hperm : (baseTasks .bookworm).Perm (baseTasks .bookworm ++ []) := by simp
  have hpipeline : Pipeline .bookworm plainTasks :=
    pipeline_of_perm hperm (by simp) (by simp [NamesUnused])
  obtain ⟨fuel, result, hsort⟩ := hpipeline.exists_sort_returned wholeGraphCycles
  have hrootfs : plainTask .rootfs 22 ∈ number plainTasks := by decide +kernel
  have himage : plainTask .buildVm 3 ∈ number plainTasks := by decide +kernel
  have hstart : plainTask .vmReady 4 ∈ number plainTasks := by decide +kernel
  exact ⟨fuel, result, hsort, sort_rootfs_after_vm_iff hsort hrootfs himage hstart
    (hasRole_plainTask _ _) (hasRole_plainTask _ _) (hasRole_plainTask _ _)⟩

/-- Three more host tasks, each waiting for the one before. -/
def hostChainTasks : List Task := plainTasks ++ [
  { config := "DS_HOST_1", cmdType := .host, dependencies := ["DS_WORK_READY"] },
  { config := "DS_HOST_2", cmdType := .host, dependencies := ["DS_HOST_1"] },
  { config := "DS_HOST_3", cmdType := .host, dependencies := ["DS_HOST_2"] }]

/-- The chain of host tasks holds up the VM image, but not the packagelist. -/
theorem rootfs_before_vm_for_hostChainTasks :
    RoleAt .bookworm hostChainTasks 22 (.core .rootfs) ∧
      RoleAt .bookworm hostChainTasks 4 (.core .vmReady) ∧
      ∃ ids, sortedIds wholeGraphCycles 100 hostChainTasks = .returned ids ∧
        (∃ result, sort wholeGraphCycles 100 hostChainTasks = .returned result) ∧
        ids.idxOf 22 < ids.idxOf 4 := by
  have hids : sortedIds wholeGraphCycles 100 hostChainTasks = .returned
      [1, 2, 5, 7, 23, 24, 25, 20, 8, 26, 3, 22, 4, 6, 9, 10, 11, 12, 13, 14, 15, 21, 16, 17,
        18, 19] := by
    decide +kernel
  have hrootfs : plainTask .rootfs 22 ∈ number hostChainTasks := by decide +kernel
  have hstart : plainTask .vmReady 4 ∈ number hostChainTasks := by decide +kernel
  refine ⟨⟨_, hrootfs, rfl, hasRole_plainTask _ _⟩, ⟨_, hstart, rfl, hasRole_plainTask _ _⟩, _,
    hids, ?_, by decide⟩
  exact ⟨_, by rw [sort, hids, Outcome.returned_bind]; rfl⟩

end DistroSeed
