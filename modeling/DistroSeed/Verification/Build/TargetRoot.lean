import DistroSeed.Model.TargetRoot
import DistroSeed.Verification.Build.Loop
import DistroSeed.Verification.Scheduler.Phases

/-! What the tasks of a build find mounted below the rootfs of the target, and what is left in it. -/

namespace DistroSeed

open Relation Scripts

/-! ## Where the tasks of the target stand -/

section Order

variable {distro : Distro} {tasks result reordered : List Task} {u v : ℕ} {role : Role}
  {nx : SimpleCycles} {fuel : ℕ} {g : TaskGraph} {gens : List (List ℕ)} {ids : List ℕ}

/-- No role has the role for a parent, and it holds up no stage. -/
def Role.IsLeaf (role : Role) : Prop :=
  ∀ p, role = .core p → p.isBarrier = false ∧ ∀ child : Role, p ∉ child.parents

theorem leaf_added (cmdType : CmdType) : (Role.added cmdType).IsLeaf := by
  rintro p ⟨⟩

theorem leaf_setTemporaryResolv : (Role.core .setTemporaryResolv).IsLeaf := by
  rintro p ⟨⟩
  exact ⟨rfl, by decide⟩

theorem leaf_installLatePackages : (Role.core .installLatePackages).IsLeaf := by
  rintro p ⟨⟩
  exact ⟨rfl, by decide⟩

theorem Pipeline.isLeaf (h : Pipeline distro tasks) (hleaf : role.IsLeaf)
    (hv : RoleAt distro tasks v role) : (declared tasks).isLeaf v := by
  rw [hv.isLeaf_iff]
  refine ⟨?_, ?_⟩
  · intro w hvw
    rcases h.exists_role hvw.mem_nodes.2 with ⟨wrole, hw⟩
    rcases (h.dependsOn_iff hv hw).mp hvw with ⟨p, hp, hparent⟩
    exact (hleaf p hp).2 wrole hparent
  · rintro ⟨p, hp, hbarrier⟩
    rw [(hleaf p hp).1] at hbarrier
    cases hbarrier

/-- A leaf comes before whatever waits for its barrier. -/
theorem Pipeline.path_of_leaf (h : Pipeline distro tasks) (hleaf : role.IsLeaf) {b q : CoreRole}
    (hb : role.barrier = some b)
    (hpath : ReflTransGen (fun p q : CoreRole => p ∈ (Role.core q).parents) b q)
    (hu : RoleAt distro tasks u role) (hv : RoleAt distro tasks v (.core q)) :
    TransGen (TaskEdge tasks) u v := by
  have hnode := h.isLeaf hleaf hu
  have hnot : ¬ (declared tasks).isBarrier u := by
    rw [hu.isBarrier_iff]
    exact (hu.isLeaf_iff.mp hnode).2
  have hmem : u ∈ (declared tasks).graph.nodes := by
    rcases hu with ⟨task, htask, hid, _⟩
    exact mem_nodes_declared.mpr ⟨task, htask, hid⟩
  rcases h.exists_nearestBarrier hu hnot hb with ⟨barrier, hnear⟩
  have hbarrier := h.nearestBarrier_role hu hnot hb hnear
  have hauto : TaskEdge tasks u barrier := Or.inr ⟨hmem, hnode, hnear⟩
  rcases reflTransGen_iff_eq_or_transGen.mp hpath with rfl | hpath
  · obtain rfl := h.unique _ _ _ hbarrier hv
    exact .single hauto
  · exact .head hauto (h.path hpath hbarrier hv)

/-- `q` waits for `p`, by the manifests. -/
def CoreRole.WaitsFor (p q : CoreRole) : Prop := p ∈ (Role.core q).parents

/-- The core tasks from the rootfs to its cleaning, each of which waits for the one before. -/
def targetChain : List CoreRole := [.rootfs, .buildPackages, .installPackages, .chrootPrep,
  .aptFinishInstall, .chrootReady, .chrootLate, .chrootClean]

theorem isChain_targetChain : targetChain.IsChain CoreRole.WaitsFor := by
  unfold CoreRole.WaitsFor
  decide

theorem waitsFor_of_sublist {p q : CoreRole} (h : [p, q].Sublist targetChain) :
    TransGen CoreRole.WaitsFor p q := by
  have hchain : targetChain.IsChain (TransGen CoreRole.WaitsFor) :=
    isChain_targetChain.imp fun _ _ => .single
  exact List.pairwise_pair.mp (hchain.pairwise.sublist h)

/-- A task that mounts directories below the rootfs. -/
def MountsTarget (distro : Distro) (task : Task) : Prop :=
  task.cmdType = .target ∨ HasRole distro task (.core .installPackages)

/-- The tasks of a schedule that mount directories below the rootfs come after the one that fills it
and before the one that cleans it, and so does what prepares it for a `chroot`. -/
structure TargetOrder (distro : Distro) (schedule : List Task) : Prop where
  sorted : schedule.Pairwise fun a b => a.id < b.id
  afterRootfs : ∀ task ∈ schedule, MountsTarget distro task →
    ∀ rootfs ∈ schedule, HasRole distro rootfs (.core .rootfs) → rootfs.id < task.id
  beforeClean : ∀ task ∈ schedule, MountsTarget distro task ∨ HasRole distro task (.core .rootfs) ∨
      HasRole distro task (.core .chrootPrep) →
    ∀ clean ∈ schedule, HasRole distro clean (.core .chrootClean) → task.id < clean.id

theorem target_roles : ∀ (distro : Distro) (p : CoreRole), (p.task distro).cmdType = .target →
    p ∈ [CoreRole.aptFinishInstall, .setTemporaryResolv, .chrootLate, .installLatePackages] := by
  decide +kernel

/-- The roles of the tasks that run in the target. -/
theorem role_of_target {task : Task} (hrole : HasRole distro task role)
    (htarget : task.cmdType = .target) :
    role = .added .target ∨ ∃ p ∈ [CoreRole.aptFinishInstall, .setTemporaryResolv, .chrootLate,
      .installLatePackages], role = .core p := by
  cases role with
  | added cmdType =>
      rw [← hrole.1, htarget]
      exact Or.inl rfl
  | core p =>
      have hcmd : (p.task distro).cmdType = .target := by
        rw [← htarget, hrole.eq_core]
      exact Or.inr ⟨p, target_roles distro p hcmd, rfl⟩

theorem Pipeline.role_of_mem_result (hp : Pipeline distro tasks)
    (h : Sorted nx fuel tasks result g gens ids reordered) {task : Task} (htask : task ∈ result) :
    ∃ role, HasRole distro task role := by
  rcases h.mem_result_iff.mp htask with ⟨old, hold, rfl⟩
  rcases hp.role old hold with ⟨role, hrole⟩
  exact ⟨role, hasRole_withId.mpr hrole⟩

theorem Pipeline.lt_of_waitsFor (hp : Pipeline distro tasks)
    (h : Sorted nx fuel tasks result g gens ids reordered) {a b : Task} (ha : a ∈ result)
    (hb : b ∈ result) {p q : CoreRole} (hap : HasRole distro a (.core p))
    (hbq : HasRole distro b (.core q)) (hpath : TransGen CoreRole.WaitsFor p q) : a.id < b.id :=
  h.lt_of_role_path ha hb hap hbq fun _ _ hu hv => hp.path hpath hu hv

theorem Pipeline.targetOrder (hp : Pipeline distro tasks)
    (h : Sorted nx fuel tasks result g gens ids reordered) : TargetOrder distro result := by
  refine ⟨?_, ?_, ?_⟩
  · have hids : (result.map Task.id).Pairwise (· < ·) := by
      rw [h.map_id]
      exact List.pairwise_lt_range'
    exact List.pairwise_map.mp hids
  · intro task htask hmounts rootfs hrootfs hcore
    rcases hmounts with htarget | hinstall
    · rcases hp.role_of_mem_result h htask with ⟨role, hrole⟩
      rcases role_of_target hrole htarget with rfl | ⟨p, hmem, rfl⟩
      · exact h.lt_of_role_path hrootfs htask hcore hrole fun u v hu hv =>
          hp.path_to_added (q := .chrootReady) (by decide)
            (waitsFor_of_sublist (by decide)).to_reflTransGen hu hv
      · refine hp.lt_of_waitsFor h hrootfs htask hcore hrole ?_
        simp only [List.mem_cons, List.not_mem_nil, or_false] at hmem
        rcases hmem with rfl | rfl | rfl | rfl
        · exact waitsFor_of_sublist (by decide)
        · exact (waitsFor_of_sublist (q := .aptFinishInstall) (by decide)).tail
            (show _ ∈ _ by decide)
        · exact waitsFor_of_sublist (by decide)
        · exact (waitsFor_of_sublist (q := .chrootLate) (by decide)).tail (show _ ∈ _ by decide)
    · exact hp.lt_of_waitsFor h hrootfs htask hcore hinstall (waitsFor_of_sublist (by decide))
  · intro task htask hbefore clean hclean hcore
    have hleaf : ∀ {role b}, HasRole distro task role → role.IsLeaf → role.barrier = some b →
        ReflTransGen CoreRole.WaitsFor b .chrootClean → task.id < clean.id := by
      intro role b hrole hleaf hb hpath
      exact h.lt_of_role_path htask hclean hrole hcore fun u v hu hv =>
        hp.path_of_leaf hleaf hb hpath hu hv
    rcases hbefore with (htarget | hinstall) | hrootfs | hprep
    · rcases hp.role_of_mem_result h htask with ⟨role, hrole⟩
      rcases role_of_target hrole htarget with rfl | ⟨p, hmem, rfl⟩
      · exact hleaf hrole (leaf_added _) rfl (waitsFor_of_sublist (by decide)).to_reflTransGen
      · simp only [List.mem_cons, List.not_mem_nil, or_false] at hmem
        rcases hmem with rfl | rfl | rfl | rfl
        · exact hp.lt_of_waitsFor h htask hclean hrole hcore (waitsFor_of_sublist (by decide))
        · exact hleaf hrole leaf_setTemporaryResolv rfl
            (waitsFor_of_sublist (by decide)).to_reflTransGen
        · exact hp.lt_of_waitsFor h htask hclean hrole hcore (waitsFor_of_sublist (by decide))
        · exact hleaf hrole leaf_installLatePackages rfl .refl
    · exact hp.lt_of_waitsFor h htask hclean hinstall hcore (waitsFor_of_sublist (by decide))
    · exact hp.lt_of_waitsFor h htask hclean hrootfs hcore (waitsFor_of_sublist (by decide))
    · exact hp.lt_of_waitsFor h htask hclean hprep hcore (waitsFor_of_sublist (by decide))

end Order

/-! ## What the scripts leave behind -/

namespace TargetRoot

open RootCommand

variable {build : TargetBuild} {effect : String → Finset (List String) → Finset (List String)}
  {schedule : List Task} {s s' : TargetRoot} {cmds rest : List RootCommand}

/-- What no image may have in it: device nodes, temporary files, lists of `apt`, the configuration
that makes `apt` use the proxy, and the emulator. Names with a dot in front are not meant: no
pattern matches them. -/
def Leftover (build : TargetBuild) (path : List String) : Prop :=
  belowGlob ["dev"] "" path ∨ belowGlob ["tmp"] "" path ∨ belowGlob ["run"] "" path ∨
    belowGlob ["var", "lib", "apt", "lists"] "" path ∨ belowGlob ["var", "cache", "apt"] ".bin" path ∨
      ["etc", "apt", "apt.conf.d", "99mmdebstrap"] <+: path ∨ build.qemuStatic <+: path

structure Cleaned (build : TargetBuild) (s : TargetRoot) : Prop where
  mounts : s.mounts = ∅
  files : ∀ path ∈ s.files, ¬ Leftover build path

/-- Nothing is deleted through a mount, a `chroot` has all its mounts, and a task behind the cleaning
finds a clean rootfs. -/
def Guard (build : TargetBuild) (schedule : List Task) : RootCommand → TargetRoot → Prop
  | clear, s | removeGlob _ _, s => s.mounts = ∅
  | chroot _, s => ∀ dir, dir ∈ s.mounts
  | startTask task, s => ∀ clean ∈ schedule, HasRole build.distro clean (.core .chrootClean) →
      clean.id < task.id → Cleaned build s
  | _, _ => True

/-- Behind a build, the rootfs may be as it likes. -/
abbrev KeepsTarget (build : TargetBuild)
    (effect : String → Finset (List String) → Finset (List String)) (schedule : List Task) :
    List RootCommand → TargetRoot → Prop :=
  Keeps (scenario build effect schedule) (fun _ => True) (Guard build schedule)

theorem keeps_nil : KeepsTarget build effect schedule [] s := .nil trivial

theorem keeps_run {cmd : RootCommand} (hguard : Guard build schedule cmd s)
    (hrun : (language build effect).run cmd s = some (s', []))
    (hnext : KeepsTarget build effect schedule rest s') :
    KeepsTarget build effect schedule (cmd :: rest) s :=
  .of_run hrun hguard (fun _ => trivial) (fun _ _ => trivial) fun _ => hnext

/-- Commands that have no guard and change no mount. -/
def IsQuiet : RootCommand → Prop
  | create _ | remove _ | other _ => True
  | _ => False

theorem mounts_step_of_isQuiet {cmd : RootCommand} (h : IsQuiet cmd) :
    (s.step effect cmd).mounts = s.mounts := by
  cases cmd with
  | create path | remove path =>
      simp only [step]
      split <;> rfl
  | other name => rfl
  | _ => exact h.elim

theorem keeps_quiet (hcmds : ∀ cmd ∈ cmds, IsQuiet cmd)
    (hnext : ∀ s' : TargetRoot, s'.mounts = s.mounts → KeepsTarget build effect schedule rest s') :
    KeepsTarget build effect schedule (cmds ++ rest) s := by
  induction cmds generalizing s with
  | nil => exact hnext s rfl
  | cons cmd cmds ih =>
      have hquiet : IsQuiet cmd := hcmds cmd List.mem_cons_self
      have hmounts : (s.step effect cmd).mounts = s.mounts := mounts_step_of_isQuiet hquiet
      have hcons : KeepsTarget build effect schedule (cmds ++ rest) (s.step effect cmd) := by
        refine ih (fun cmd' hcmd' => hcmds cmd' (List.mem_cons_of_mem cmd hcmd')) ?_
        intro s' hs'
        exact hnext s' (hs'.trans hmounts)
      cases cmd with
      | create path | remove path | other name => exact keeps_run trivial rfl hcons
      | _ => exact hquiet.elim

theorem keeps_mountTarget
    (hnext : ∀ s' : TargetRoot, (∀ dir, dir ∈ s'.mounts) → KeepsTarget build effect schedule rest s') :
    KeepsTarget build effect schedule (mountTarget ++ rest) s := by
  refine keeps_run trivial rfl (keeps_run trivial rfl (keeps_run trivial rfl (keeps_run trivial rfl ?_)))
  have hquiet : ∀ cmd ∈ [create ["dev", "pts"]], IsQuiet cmd := by simp [IsQuiet]
  apply keeps_quiet hquiet
  intro s₁ hs₁
  refine keeps_run trivial rfl (hnext _ ?_)
  intro dir
  have hmounts : (s₁.step effect (mount .devPts)).mounts = insert .devPts s₁.mounts := rfl
  rw [hmounts, hs₁]
  cases dir <;> simp [step]

theorem keeps_chroot {name : String} (hmounts : ∀ dir, dir ∈ s.mounts)
    (hnext : ∀ s' : TargetRoot, (∀ dir, dir ∈ s'.mounts) → KeepsTarget build effect schedule rest s') :
    KeepsTarget build effect schedule (chroot name :: rest) s :=
  keeps_run hmounts rfl (hnext _ hmounts)

theorem keeps_runTargetTask {task : Task}
    (hnext : ∀ s' : TargetRoot, (∀ dir, dir ∈ s'.mounts) → KeepsTarget build effect schedule rest s') :
    KeepsTarget build effect schedule (runTargetTask task ++ rest) s := by
  have hscript : runTargetTask task ++ rest =
      mountTarget ++ ([create ["run_in_chroot"], create ["tmp", "ds-env"]] ++ (chroot task.cmd ::
        ([remove ["run_in_chroot"], remove ["tmp", "ds-env"]] ++ rest))) := by
    simp [runTargetTask]
  rw [hscript]
  apply keeps_mountTarget
  intro s₁ hs₁
  apply keeps_quiet (by simp [IsQuiet])
  intro s₂ hs₂
  apply keeps_chroot (by simpa [hs₂] using hs₁)
  intro s₃ hs₃
  apply keeps_quiet (by simp [IsQuiet])
  intro s₄ hs₄
  exact hnext s₄ (by simpa [hs₄] using hs₃)

theorem keeps_packages {packages : List String} (hmounts : ∀ dir, dir ∈ s.mounts)
    (hnext : ∀ s' : TargetRoot, (∀ dir, dir ∈ s'.mounts) → KeepsTarget build effect schedule rest s') :
    KeepsTarget build effect schedule (packages.flatMap installPackage ++ rest) s := by
  induction packages generalizing s with
  | nil => exact hnext s hmounts
  | cons package packages ih =>
      have hscript : (package :: packages).flatMap installPackage ++ rest =
          [create (targetPackageDir ++ [package])] ++ (chroot "dpkg" ::
            (packages.flatMap installPackage ++ rest)) := by
        simp [installPackage]
      rw [hscript]
      apply keeps_quiet (by simp [IsQuiet])
      intro s₁ hs₁
      exact keeps_chroot (by simpa [hs₁] using hmounts) fun s₂ hs₂ => ih hs₂

/-- `install-packages.sh` leaves its mounts behind if there is anything to install. -/
theorem keeps_installPackages
    (hnext : ∀ s' : TargetRoot, s' = s ∨ (∀ dir, dir ∈ s'.mounts) →
      KeepsTarget build effect schedule rest s') :
    KeepsTarget build effect schedule (installPackages build ++ rest) s := by
  unfold installPackages
  split_ifs with hnone
  · exact hnext s (Or.inl rfl)
  · simp only [List.append_assoc]
    apply keeps_mountTarget
    intro s₁ hs₁
    apply keeps_quiet (by simp [IsQuiet])
    intro s₂ hs₂
    apply keeps_packages (by simpa [hs₂] using hs₁)
    intro s₃ hs₃
    apply keeps_quiet (by simp [IsQuiet])
    intro s₄ hs₄
    exact hnext s₄ (Or.inr (by simpa [hs₄] using hs₃))

theorem keeps_buildRootfs (hmounts : s.mounts = ∅)
    (hnext : ∀ s' : TargetRoot, s'.mounts = ∅ → KeepsTarget build effect schedule rest s') :
    KeepsTarget build effect schedule (buildRootfs ++ rest) s := by
  have hscript : buildRootfs ++ rest = [other "install"] ++ (clear ::
      ([other "mmdebstrap", remove ["etc", "apt", "sources.list"]] ++ rest)) := rfl
  rw [hscript]
  apply keeps_quiet (by simp [IsQuiet])
  intro s₁ hs₁
  have hnone : s₁.mounts = ∅ := hs₁.trans hmounts
  refine keeps_run hnone (if_pos hnone) ?_
  apply keeps_quiet (by simp [IsQuiet])
  intro s₂ hs₂
  exact hnext s₂ (hs₂.trans hnone)

theorem keeps_chrootPrep
    (hnext : ∀ s' : TargetRoot, s'.mounts = s.mounts → KeepsTarget build effect schedule rest s') :
    KeepsTarget build effect schedule (chrootPrep build ++ rest) s :=
  keeps_quiet (by simp [chrootPrep, IsQuiet]) hnext

/-! ### The cleaning -/

theorem mem_mounts_umount {dir dir' : RootMount} : dir' ∈ (s.step effect (umount dir)).mounts ↔
    dir' ∈ s.mounts ∧ (dir ∈ s.mounts → ¬ dir.path <+: dir'.path) := by
  by_cases hdir : dir ∈ s.mounts <;> simp [step, hdir]

@[simp] theorem files_umount (dir : RootMount) : (s.step effect (umount dir)).files = s.files := by
  simp only [step]
  split <;> rfl

/-- The mount of `/dev/pts` is gone with that of `/dev`. -/
theorem mounts_umount (hdev : .devPts ∈ s.mounts → .dev ∈ s.mounts) :
    (((s.step effect (umount .dev)).step effect (umount .sys)).step effect (umount .proc)).mounts =
      ∅ := by
  rw [Finset.eq_empty_iff_forall_notMem]
  intro dir hmem
  rcases mem_mounts_umount.mp hmem with ⟨hmem₂, hproc⟩
  rcases mem_mounts_umount.mp hmem₂ with ⟨hmem₁, hsys⟩
  rcases mem_mounts_umount.mp hmem₁ with ⟨hmem₀, hdev'⟩
  cases dir with
  | proc => exact hproc hmem₂ (List.prefix_refl _)
  | sys => exact hsys hmem₁ (List.prefix_refl _)
  | dev => exact hdev' hmem₀ (List.prefix_refl _)
  | devPts => exact hdev' (hdev hmem₀) (by decide)

theorem not_hides (hmounts : s.mounts = ∅) (path : List String) : ¬ s.hides path := by
  simp [hides, hmounts]

theorem step_remove {path : List String} (h : ¬ s.hides path) :
    s.step effect (remove path) =
      { s with files := s.files.filter fun file => ¬ path <+: file } := if_neg h

theorem step_create {path : List String} (h : ¬ s.hides path) :
    s.step effect (create path) = { s with files := insert path s.files } := if_neg h

theorem not_hides_qemuStatic (build : TargetBuild) (s : TargetRoot) : ¬ s.hides build.qemuStatic := by
  rintro ⟨dir, _, hprefix⟩
  exact build.notMounted dir hprefix

theorem keeps_removeGlob {dir : List String} {suffix : String} (hmounts : s.mounts = ∅)
    (hnext : KeepsTarget build effect schedule rest
      { s with files := s.files.filter fun file => ¬ belowGlob dir suffix file }) :
    KeepsTarget build effect schedule (removeGlob dir suffix :: rest) s := by
  have hstep : s.step effect (removeGlob dir suffix) =
      { s with files := s.files.filter fun file => ¬ belowGlob dir suffix file } :=
    if_neg (not_hides hmounts dir)
  rw [← hstep] at hnext
  exact keeps_run hmounts rfl hnext

theorem keeps_chrootClean (hdev : .devPts ∈ s.mounts → .dev ∈ s.mounts)
    (hnext : ∀ s' : TargetRoot, Cleaned build s' → KeepsTarget build effect schedule rest s') :
    KeepsTarget build effect schedule (chrootClean build ++ rest) s := by
  refine keeps_run trivial rfl (keeps_run trivial rfl (keeps_run trivial rfl (keeps_run trivial rfl ?_)))
  rw [step_remove (not_hides_qemuStatic build s)]
  generalize hs₁ : ({ s with files := s.files.filter fun file => ¬ build.qemuStatic <+: file } :
    TargetRoot) = s₁
  have hnone : (((s₁.step effect (umount .dev)).step effect (umount .sys)).step effect
      (umount .proc)).mounts = ∅ := by
    apply mounts_umount
    rw [← hs₁]
    exact hdev
  generalize hs₂ : ((s₁.step effect (umount .dev)).step effect (umount .sys)).step effect
    (umount .proc) = s₂ at hnone ⊢
  refine keeps_removeGlob (by exact hnone) ?_
  refine keeps_removeGlob (by exact hnone) ?_
  refine keeps_removeGlob (by exact hnone) ?_
  refine keeps_removeGlob (by exact hnone) ?_
  refine keeps_removeGlob (by exact hnone) ?_
  refine keeps_run trivial rfl (hnext _ ?_)
  rw [step_remove (not_hides (by exact hnone) _)]
  refine ⟨hnone, ?_⟩
  have hfiles : ∀ path ∈ s₂.files, ¬ build.qemuStatic <+: path := by
    rw [← hs₂, files_umount, files_umount, files_umount, ← hs₁]
    intro path hpath
    simpa using (Finset.mem_filter.mp hpath).2
  intro path hpath
  simp only [Finset.mem_filter] at hpath
  rcases hpath with ⟨⟨⟨⟨⟨⟨hpath, hdev⟩, htmp⟩, hrun⟩, hlists⟩, hcache⟩, hproxy⟩
  rintro (h | h | h | h | h | h | h)
  · exact hdev h
  · exact htmp h
  · exact hrun h
  · exact hlists h
  · exact hcache h
  · exact hproxy h
  · exact hfiles path hpath h

theorem keeps_addVersionSums (hs : Cleaned build s)
    (hnext : ∀ s' : TargetRoot, Cleaned build s' → KeepsTarget build effect schedule rest s') :
    KeepsTarget build effect schedule (addVersionSums ++ rest) s := by
  have hcreate : ∀ {s : TargetRoot}, Cleaned build s → ∀ name, ¬ Leftover build [name] →
      Cleaned build (s.step effect (create [name])) := by
    intro s hs name hname
    rw [step_create (not_hides hs.mounts _)]
    refine ⟨hs.mounts, ?_⟩
    intro path hpath
    rcases Finset.mem_insert.mp hpath with rfl | hpath
    · exact hname
    · exact hs.files path hpath
  have hqemu : ∀ name, ¬ build.qemuStatic <+: [name] := by
    intro name hprefix
    have hlength := hprefix.length_le
    have hnested := build.nested
    simp only [List.length_singleton] at hlength
    omega
  have hversion := hcreate hs "root.version" (by simp [Leftover, belowGlob, hqemu])
  have hsums := hcreate hversion "md5sums.txt" (by simp [Leftover, belowGlob, hqemu])
  exact keeps_run trivial rfl (keeps_run trivial rfl (hnext _ hsums))

/-! ## A whole build -/

/-- Between two tasks of a build, `rest` are still to come. -/
structure Between (build : TargetBuild) (done todo : List Task) (s : TargetRoot) : Prop where
  devPts : .devPts ∈ s.mounts → .dev ∈ s.mounts
  unmounted : (∃ rootfs ∈ todo, HasRole build.distro rootfs (.core .rootfs)) → s.mounts = ∅
  cleaned : (∃ clean ∈ done, HasRole build.distro clean (.core .chrootClean)) → Cleaned build s

theorem isEntry_iff {distro : Distro} {p : CoreRole} {task : Task} :
    isEntry (p.task distro) task ↔ HasRole distro task (.core p) := decide_eq_true_iff

section Task

variable {task : Task} {done todo : List Task}

theorem between_append (hs : Between build done (task :: todo) s)
    (hclean : ¬ HasRole build.distro task (.core .chrootClean)) : Between build (done ++ [task]) todo s where
  devPts := hs.devPts
  unmounted := by
    rintro ⟨rootfs, hmem, hrole⟩
    exact hs.unmounted ⟨rootfs, List.mem_cons_of_mem task hmem, hrole⟩
  cleaned := by
    rintro ⟨clean, hmem, hrole⟩
    rcases List.mem_append.mp hmem with hmem | hmem
    · exact hs.cleaned ⟨clean, hmem, hrole⟩
    · obtain rfl := List.mem_singleton.mp hmem
      exact absurd hrole hclean

/-- A task of the schedule, with those before and behind it. -/
structure Splits (schedule done : List Task) (task : Task) (todo : List Task) : Prop where
  eq : schedule = done ++ task :: todo
  before : ∀ other ∈ done, other.id < task.id
  behind : ∀ other ∈ todo, task.id < other.id

theorem splits_of_order {distro : Distro} (h : TargetOrder distro schedule)
    (hschedule : schedule = done ++ task :: todo) : Splits schedule done task todo := by
  have hsorted := h.sorted
  rw [hschedule, List.pairwise_append] at hsorted
  rcases hsorted with ⟨_, htodo, hacross⟩
  refine ⟨hschedule, fun other hother => hacross other hother task List.mem_cons_self, ?_⟩
  exact (List.pairwise_cons.mp htodo).1

theorem Splits.mem (h : Splits schedule done task todo) : task ∈ schedule := by
  rw [h.eq]
  simp

theorem Splits.mem_done (h : Splits schedule done task todo) {other : Task}
    (hother : other ∈ schedule) (hlt : other.id < task.id) : other ∈ done := by
  rw [h.eq] at hother
  rcases List.mem_append.mp hother with hmem | hmem
  · exact hmem
  · rcases List.mem_cons.mp hmem with rfl | hmem
    · exact absurd hlt (Nat.lt_irrefl _)
    · exact absurd (h.behind other hmem) (Nat.lt_asymm hlt)

/-- What must come before the cleaning finds it still to come. -/
theorem Splits.uncleaned (h : Splits schedule done task todo) {distro : Distro}
    (horder : TargetOrder distro schedule)
    (htask : MountsTarget distro task ∨ HasRole distro task (.core .rootfs) ∨
      HasRole distro task (.core .chrootPrep)) :
    ¬ ∃ clean ∈ done ++ [task], HasRole distro clean (.core .chrootClean) := by
  rintro ⟨clean, hmem, hrole⟩
  have hclean : clean ∈ schedule := by
    rw [h.eq]
    rcases List.mem_append.mp hmem with hmem | hmem
    · exact List.mem_append_left _ hmem
    · exact List.mem_append_right _ (List.mem_singleton.mp hmem ▸ List.mem_cons_self)
  have hlt := horder.beforeClean task h.mem htask clean hclean hrole
  rcases List.mem_append.mp hmem with hmem | hmem
  · exact absurd (h.before clean hmem) (Nat.lt_asymm hlt)
  · obtain rfl := List.mem_singleton.mp hmem
    exact absurd hlt (Nat.lt_irrefl _)

theorem Splits.noRootfs (h : Splits schedule done task todo) {distro : Distro}
    (horder : TargetOrder distro schedule) (htask : MountsTarget distro task) :
    ¬ ∃ rootfs ∈ todo, HasRole distro rootfs (.core .rootfs) := by
  rintro ⟨rootfs, hmem, hrole⟩
  have hrootfs : rootfs ∈ schedule := by
    rw [h.eq]
    exact List.mem_append_right _ (List.mem_cons_of_mem task hmem)
  exact absurd (horder.afterRootfs task h.mem htask rootfs hrootfs hrole)
    (Nat.lt_asymm (h.behind rootfs hmem))

/-- One task, from the state before it to that behind it. -/
theorem keeps_taskScript (horder : TargetOrder build.distro schedule)
    (hsplits : Splits schedule done task todo) (hs : Between build done (task :: todo) s)
    (hnext : ∀ s' : TargetRoot, Between build (done ++ [task]) todo s' →
      KeepsTarget build effect schedule rest s') :
    KeepsTarget build effect schedule (taskScript build task ++ rest) s := by
  have hmounted : MountsTarget build.distro task → ∀ s' : TargetRoot,
      s' = s ∨ (∀ dir, dir ∈ s'.mounts) → Between build (done ++ [task]) todo s' := by
    intro hmounts s' hs'
    refine ⟨?_, fun h => absurd h (hsplits.noRootfs horder hmounts),
      fun h => absurd h (hsplits.uncleaned horder (Or.inl hmounts))⟩
    rcases hs' with rfl | hall
    · exact hs.devPts
    · exact fun _ => hall .dev
  unfold taskScript
  split_ifs with htarget hrootfs hinstall hprep hclean hident
  · exact keeps_runTargetTask fun s' hall => hnext s' (hmounted (Or.inl htarget) s' (Or.inr hall))
  · have hrole : HasRole build.distro task (.core .rootfs) := isEntry_iff.mp hrootfs
    apply keeps_buildRootfs (hs.unmounted ⟨task, List.mem_cons_self, hrole⟩)
    intro s' hnone
    refine hnext s' ⟨fun hmem => ?_, fun _ => hnone,
      fun h => absurd h (hsplits.uncleaned horder (Or.inr (Or.inl hrole)))⟩
    rw [hnone] at hmem
    exact absurd hmem (Finset.notMem_empty _)
  · have hrole : HasRole build.distro task (.core .installPackages) := isEntry_iff.mp hinstall
    exact keeps_installPackages fun s' hs' => hnext s' (hmounted (Or.inr hrole) s' hs')
  · have hrole : HasRole build.distro task (.core .chrootPrep) := isEntry_iff.mp hprep
    apply keeps_chrootPrep
    intro s' hmounts
    refine hnext s' ⟨by rw [hmounts]; exact hs.devPts, ?_,
      fun h => absurd h (hsplits.uncleaned horder (Or.inr (Or.inr hrole)))⟩
    rintro ⟨rootfs, hmem, hrole⟩
    exact hmounts.trans (hs.unmounted ⟨rootfs, List.mem_cons_of_mem task hmem, hrole⟩)
  · apply keeps_chrootClean hs.devPts
    intro s' hs'
    refine hnext s' ⟨fun hmem => ?_, fun _ => hs'.mounts, fun _ => hs'⟩
    rw [hs'.mounts] at hmem
    exact absurd hmem (Finset.notMem_empty _)
  · have hnot : ¬ HasRole build.distro task (.core .chrootClean) := fun h => hclean (isEntry_iff.mpr h)
    have hbetween := between_append hs hnot
    by_cases hdone : ∃ clean ∈ done ++ [task], HasRole build.distro clean (.core .chrootClean)
    · apply keeps_addVersionSums (hbetween.cleaned hdone)
      intro s' hs'
      refine hnext s' ⟨fun hmem => ?_, fun _ => hs'.mounts, fun _ => hs'⟩
      rw [hs'.mounts] at hmem
      exact absurd hmem (Finset.notMem_empty _)
    · apply keeps_quiet (by simp [addVersionSums, IsQuiet])
      intro s' hmounts
      exact hnext s' ⟨by rw [hmounts]; exact hbetween.devPts,
        fun h => hmounts.trans (hbetween.unmounted h), fun h => absurd h hdone⟩
  · have hnot : ¬ HasRole build.distro task (.core .chrootClean) := fun h => hclean (isEntry_iff.mpr h)
    exact hnext s (between_append hs hnot)

end Task

theorem keeps_todo (horder : TargetOrder build.distro schedule) {done todo : List Task}
    (hschedule : schedule = done ++ todo) (hs : Between build done todo s) :
    KeepsTarget build effect schedule (todo.map startTask) s := by
  induction todo generalizing done s with
  | nil => exact keeps_nil
  | cons task todo ih =>
      have hsplits := splits_of_order horder hschedule
      refine .of_run rfl ?_ (fun _ => trivial) (fun _ _ => trivial) fun _ => ?_
      · intro clean hclean hrole hlt
        exact hs.cleaned ⟨clean, hsplits.mem_done hclean hlt, hrole⟩
      · refine keeps_taskScript horder hsplits hs fun s' hs' => ih ?_ hs'
        rw [hschedule, List.append_assoc, List.singleton_append]

/-- Whatever tasks without dependencies of their own are added to the core and a distro: in every
build of the sorted tasks, cut short anywhere, the scripts delete from the rootfs only while nothing
is mounted below it, run in it only while all is mounted that they need, and every task behind the
cleaning finds nothing mounted and nothing left over from the build. -/
theorem targetRoot_of_build {nx : SimpleCycles} {fuel : ℕ} {extras loaded tasks result : List Task}
    (hperm : loaded.Perm (baseTasks build.distro ++ extras))
    (hextras : ∀ extra ∈ extras, AddedTask extra) (hnames : NamesUnused build.distro extras)
    (hdefault : setAllDefaultDependencies loaded = .returned tasks)
    (hsort : sort nx fuel tasks = .returned result) {boot : TargetRoot}
    {c : Config TargetRoot RootCommand} (h : Reaches (scenario build effect result) boot c)
    {cmd : RootCommand} (hscript : c.script = cmd :: rest) :
    (cmd = clear ∨ (∃ dir suffix, cmd = removeGlob dir suffix) → c.state.mounts = ∅) ∧
      (∀ name, cmd = chroot name → ∀ dir, dir ∈ c.state.mounts) ∧
      ∀ task, cmd = startTask task → ∀ clean ∈ result,
        HasRole build.distro clean (.core .chrootClean) → clean.id < task.id →
          Cleaned build c.state := by
  obtain rfl : tasks = loaded.map withDefault :=
    (Outcome.returned.inj ((setAllDefault_of_perm hperm hextras hnames).symm.trans hdefault)).symm
  rcases sort_eq_returned hsort with ⟨g, gens, ids, reordered, hsorted⟩
  have horder := (pipeline_of_perm hperm hextras hnames).targetOrder hsorted
  have hguard : Guard build result cmd c.state := by
    refine h.meets_guard (fun _ => True) _ ?_ (fun _ _ _ _ => trivial) trivial hscript
    rintro script s _ ⟨rfl, hmounts⟩
    have hsplit : result = [] ++ result := rfl
    refine keeps_todo horder hsplit ⟨fun hmem => ?_, fun _ => hmounts, ?_⟩
    · rw [hmounts] at hmem
      exact absurd hmem (Finset.notMem_empty _)
    · rintro ⟨clean, hmem, _⟩
      cases hmem
  refine ⟨?_, ?_, ?_⟩
  · rintro (rfl | ⟨dir, suffix, rfl⟩)
    · exact hguard
    · exact hguard
  · rintro name rfl
    exact hguard
  · rintro task rfl
    exact hguard

/-! ## A build with one further task of each type -/

/-- The tasks of the core, of Debian 12 and of `addedTasks` behind the default dependencies. -/
def addedLoaded : List Task := (baseTasks .bookworm ++ addedTasks).map withDefault

def addedSchedule : List Task :=
  match sort wholeGraphCycles 100 addedLoaded with
  | .returned schedule => schedule
  | _ => []

def armhfBuild : TargetBuild where
  distro := .bookworm
  qemuStatic := ["usr", "bin", "qemu-arm-static"]
  packages := ["1-overlay.deb"]
  nested := by decide
  notMounted := by
    intro dir
    cases dir <;> decide

/-- Further commands that leave the rootfs as it is. -/
def leaveFiles (_ : String) (files : Finset (List String)) : Finset (List String) := files

/-- The build, stopped behind `n` commands. -/
def afterCommands (n : ℕ) : Config TargetRoot RootCommand :=
  runFor (language armhfBuild leaveFiles) n ⟨⟨∅, ∅⟩, addedSchedule.map startTask⟩

theorem reaches_afterCommands (n : ℕ) :
    Reaches (scenario armhfBuild leaveFiles addedSchedule) ⟨∅, ∅⟩ (afterCommands n) := by
  have hstart : (scenario armhfBuild leaveFiles addedSchedule).Start (addedSchedule.map startTask)
      ⟨∅, ∅⟩ := ⟨rfl, rfl⟩
  exact Reaches.startFor .refl hstart n fun _ _ _ _ _ => trivial

theorem added_addedTasks : ∀ extra ∈ addedTasks, AddedTask extra := by
  have hadded : ∀ extra ∈ addedTasks, extra.autoCreateRdepends = false ∧
      extra.dependencies = [] ∧ extra.cmdType ≠ .dummy := by
    decide
  intro extra hextra
  rcases hadded extra hextra with ⟨hnot, hdeps, hcmd⟩
  exact ⟨hnot, hdeps, hcmd⟩

theorem targetRoot_of_build_addedSchedule :
    (afterCommands 108).script.head? = some (removeGlob ["dev"] "") ∧
      (removeGlob ["dev"] "" = clear ∨ (∃ dir suffix, removeGlob ["dev"] "" = removeGlob dir suffix) →
        (afterCommands 108).state.mounts = ∅) ∧
      (∀ name, removeGlob ["dev"] "" = chroot name → ∀ dir, dir ∈ (afterCommands 108).state.mounts) ∧
      ∀ task, removeGlob ["dev"] "" = startTask task → ∀ clean ∈ addedSchedule,
        HasRole .bookworm clean (.core .chrootClean) → clean.id < task.id →
          Cleaned armhfBuild (afterCommands 108).state := by
  have hhead : (afterCommands 108).script =
      removeGlob ["dev"] "" :: (afterCommands 108).script.tail := by
    decide +kernel
  have hperm : (baseTasks .bookworm ++ addedTasks).Perm (baseTasks armhfBuild.distro ++ addedTasks) :=
    .refl _
  have hnames : NamesUnused armhfBuild.distro addedTasks := by
    unfold NamesUnused
    decide +kernel
  have hdefault : setAllDefaultDependencies (baseTasks .bookworm ++ addedTasks) =
      .returned addedLoaded := by
    decide +kernel
  have hsort : sort wholeGraphCycles 100 addedLoaded = .returned addedSchedule := by
    decide +kernel
  refine ⟨by rw [hhead]; rfl, ?_⟩
  exact targetRoot_of_build hperm added_addedTasks hnames hdefault hsort (reaches_afterCommands 108)
    hhead

end TargetRoot

end DistroSeed
