import DistroSeed.Verification.Staging.Names
import DistroSeed.Verification.Vm.Exports
import DistroSeed.Verification.Vm.HostPaths

/-! Two runs of `build.py` in different checkout directories: what differs between the variables
that their tasks get in the VM. -/

namespace DistroSeed

open Paths

/-! ## What `vm_env` makes of its dictionaries -/

/-- The environments of two hosts agree on all that `vm_env` takes from them. -/
theorem lookup_vmEnv_congr {environ environ' extra : Env} {name : String}
    (h : name ∉ vmPaths.map Prod.fst → extra.lookup name = none →
      environ.lookup name = environ'.lookup name) :
    (vmEnv (fun path => path) environ extra).lookup name =
      (vmEnv (fun path => path) environ' extra).lookup name := by
  rw [lookup_vmEnv, lookup_vmEnv]
  cases hextra : extra.lookup name with
  | some value => rfl
  | none =>
      by_cases hpath : name ∈ vmPaths.map Prod.fst
      · obtain ⟨pair, hpair, hname⟩ := List.mem_map.mp hpath
        obtain ⟨_, _, _, hlookup⟩ := Dict.exists_lookup_update ∅ ⟨pair, hpair, hname⟩
        rw [hlookup]
        rfl
      · rw [h hpath hextra]

/-! ## The environment of one task -/

section Task

variable {names : StagingNames} {ctx' : TaskContext} {task : Task}

/-- For the VM, the path of the command and that of the task make the environment. -/
theorem environment_congr (names : StagingNames) {ctx : TaskContext} (hvm : task.cmdType.inVm)
    (hcmd : ctx.fullCmd = ctx'.fullCmd) (hpath : ctx.path = ctx'.path) :
    task.environment names ctx = task.environment names ctx' := by
  cases htype : task.cmdType with
  | vm | cross | target => simp [Task.environment, htype, hcmd, hpath]
  | host | dummy | packagelist | packagelistCross => simp [CmdType.inVm, htype] at hvm

theorem lookup_stagingEnv_of_ne {root name : String} (hown : name ≠ "DS_TASK_WORK")
    (hstaging : name.toList.take 13 ≠ "DS_TASK_WORK_".toList) :
    (task.stagingEnv names root).lookup name = none := by
  have hne : ∀ dep : String, "DS_TASK_WORK_" ++ dep ≠ name := ne_taskWork hstaging
  rw [Task.stagingEnv, AList.lookup_insert_ne hown, Dict.lookup_update_of_notMem,
    Dict.lookup_update_of_notMem, AList.lookup_empty]
  · exact List.forall_mem_map.mpr fun config _ => hne config
  · exact List.forall_mem_map.mpr fun item _ => hne item.1

/-- Neither the versions nor the staging variables replace another variable of the task. -/
theorem lookup_taskEnv_of_ne {base : Env} {root : Option String} {name : String}
    (hversion : name ≠ "DS_MANIFEST_VERSION") (hpkg : name ≠ "DS_PKG_VERSION")
    (hown : name ≠ "DS_TASK_WORK") (hstaging : name.toList.take 13 ≠ "DS_TASK_WORK_".toList) :
    (task.taskEnv names base root).lookup name = base.lookup name := by
  have hversions : ((base.insert "DS_MANIFEST_VERSION" task.manifestVersion).insert
      "DS_PKG_VERSION" task.pkgVersion).lookup name = base.lookup name := by
    rw [AList.lookup_insert_ne hpkg, AList.lookup_insert_ne hversion]
  cases root with
  | none => exact hversions
  | some root =>
      rw [Task.taskEnv, Dict.lookup_update_of_perm _ (List.Perm.refl _),
        lookup_stagingEnv_of_ne hown hstaging, Option.none_or, hversions]

/-- In the VM, the environment of a task names its command, and its path unless it is a target
task. -/
theorem exists_environment_inVm (names : StagingNames) (ctx : TaskContext)
    (hvm : task.cmdType.inVm) :
    ∃ extra, task.environment names ctx = some extra ∧
      extra.lookup "DS_TASK_CMD" = some ("/src/" ++ ctx.fullCmd) ∧
      extra.lookup "DS_TASK_PATH" =
        if task.cmdType = .target then none else some ("/src/" ++ ctx.path) := by
  cases htype : task.cmdType with
  | vm | cross | target =>
      refine ⟨_, by rw [Task.environment, htype], ?_, ?_⟩
      all_goals
        rw [lookup_taskEnv_of_ne (by decide) (by decide) (by decide) (by decide)]
        rfl
  | host | dummy | packagelist | packagelistCross => simp [CmdType.inVm, htype] at hvm

end Task

/-! ## The loop over the tasks -/

/-- What a task does that is started: one of type `dummy` nothing, and another sets `DS_TASK_PATH`
and gets its environment. -/
theorem PlacedTask.run_cases {host : Host} {names : StagingNames} {environ after : Env}
    {placed : PlacedTask} {given : Option Env}
    (h : placed.run host names environ = .returned (after, given)) :
    (placed.cmdType = .dummy ∧ after = environ ∧ given = none) ∨
    ∃ root staging : String, environ.lookup "DS_HOST_ROOT_PATH" = some root ∧
      after = environ.insert "DS_TASK_PATH" (placed.taskPath host.cwd root) ∧
      given = placed.given names (placed.context host after root staging) := by
  rw [PlacedTask.run] at h
  by_cases hdummy : placed.cmdType = .dummy
  · rw [if_pos hdummy] at h
    obtain ⟨rfl, rfl⟩ := Prod.mk.inj (Outcome.returned.inj h)
    exact Or.inl ⟨hdummy, rfl, rfl⟩
  · rw [if_neg hdummy] at h
    cases hroot : environ.lookup "DS_HOST_ROOT_PATH" with
    | none =>
        rw [hroot] at h
        cases h
    | some root =>
        rw [hroot] at h
        dsimp only at h
        split at h
        next => cases h
        next =>
          obtain ⟨staging, _, h⟩ := Outcome.bind_eq_returned.mp h
          obtain ⟨rfl, rfl⟩ := Prod.mk.inj (Outcome.returned.inj h)
          exact Or.inr ⟨root, staging, rfl, rfl, rfl⟩

/-- All variables but `DS_TASK_PATH` stay what they are. -/
theorem PlacedTask.run_frame {host : Host} {names : StagingNames} {environ after : Env}
    {placed : PlacedTask} {given : Option Env}
    (h : placed.run host names environ = .returned (after, given)) {name : String}
    (hname : name ≠ "DS_TASK_PATH") : after.lookup name = environ.lookup name := by
  rcases placed.run_cases h with ⟨_, rfl, _⟩ | ⟨root, staging, _, rfl, _⟩
  · rfl
  · exact AList.lookup_insert_ne hname

/-- Every task runs in the variables that the run started with, `DS_TASK_PATH` apart. -/
theorem Host.exists_run_of_mem {host : Host} {names : StagingNames} {environ : Env}
    {tasks : List PlacedTask} {placed : PlacedTask} {given : Option Env}
    (h : (placed, given) ∈ host.runTasks names environ tasks) :
    ∃ before after : Env,
      (∀ name, name ≠ "DS_TASK_PATH" → before.lookup name = environ.lookup name) ∧
      placed.run host names before = .returned (after, given) := by
  induction tasks generalizing environ with
  | nil => cases h
  | cons task tasks ih =>
      rw [Host.runTasks] at h
      split at h
      next after given' hrun =>
        rcases List.mem_cons.mp h with hpair | hmem
        · obtain ⟨rfl, rfl⟩ := Prod.mk.inj hpair
          exact ⟨environ, after, fun _ _ => rfl, hrun⟩
        · split at hmem
          next =>
            obtain ⟨before, after', hbefore, hrun'⟩ := ih hmem
            exact ⟨before, after', fun name hname =>
              (hbefore name hname).trans (task.run_frame hrun hname), hrun'⟩
          next => cases hmem
      next => cases h

/-! ## The variables of the host -/

/-- `os.environ` when the loop over the tasks starts. -/
def Host.startEnv (host : Host) (kconf : Kconf) (arch : TargetArch) (release : Release)
    (defconfig : String) : Env :=
  (Dict.update host.environ (host.commonVars arch release defconfig ++ kconf.configVars)).insert
    "DS_SESSION_PID" (toString host.pid)

section StartEnv

variable {kconf : Kconf} {arch : TargetArch} {release : Release} {defconfig name : String}

theorem ne_configVar (hname : name.toList.take 3 = "DS_".toList) (key : String) :
    "CONFIG_" ++ key ≠ name := by
  rintro rfl
  rw [String.toList_append] at hname
  exact absurd hname (by simp)

theorem filter_configVars (hname : name.toList.take 3 = "DS_".toList) :
    kconf.configVars.filter (·.1 = name) = [] := by
  rw [List.filter_eq_nil_iff]
  intro pair hpair
  obtain ⟨sym, _, rfl⟩ := List.mem_map.mp hpair
  simpa using ne_configVar hname sym.1

@[simp] theorem Host.lookup_startEnv_rootPath (host : Host) :
    (host.startEnv kconf arch release defconfig).lookup "DS_HOST_ROOT_PATH" =
      some host.rootPath := by
  rw [Host.startEnv, AList.lookup_insert_ne (by decide), Dict.lookup_update, List.filter_append,
    filter_configVars (by decide)]
  simp [Host.commonVars]

/-- The names with the prefix `DS_` that neither depend on the process nor on the date. -/
def isStableName (name : String) : Bool :=
  "DS_".toList.isPrefixOf name.toList &&
    name ∉ ["DS_SESSION_PID", "DS_BUILD_DATE", "DS_OUTPUT_BASENAME"]

/-- The variables of two hosts agree if `vm_env` does not set them itself. -/
theorem Host.lookup_startEnv_congr {first second : Host}
    (henviron : first.environ.lookup name = second.environ.lookup name) (hstable : isStableName name)
    (hpath : name ∉ vmPaths.map Prod.fst) :
    (first.startEnv kconf arch release defconfig).lookup name =
      (second.startEnv kconf arch release defconfig).lookup name := by
  obtain ⟨hstarts, hnames⟩ : "DS_".toList.isPrefixOf name.toList ∧ name ≠ "DS_SESSION_PID" ∧
      name ≠ "DS_BUILD_DATE" ∧ name ≠ "DS_OUTPUT_BASENAME" := by
    simpa [isStableName] using hstable
  have hcommon : (first.commonVars arch release defconfig).filter (·.1 = name) =
      (second.commonVars arch release defconfig).filter (·.1 = name) := by
    simp only [vmPaths, List.map_cons, List.map_nil, List.mem_cons, not_or] at hpath
    simp [Host.commonVars, List.filter_cons, Ne.symm hnames.2.1, Ne.symm hnames.2.2,
      Ne.symm hpath.1, Ne.symm hpath.2.1, Ne.symm hpath.2.2.1, Ne.symm hpath.2.2.2.2.1]
  rw [Host.startEnv, Host.startEnv, AList.lookup_insert_ne hnames.1,
    AList.lookup_insert_ne hnames.1, Dict.lookup_update, Dict.lookup_update, List.filter_append,
    List.filter_append, hcommon, henviron]

end StartEnv

/-! ## Two runs -/

/-- In a run of `build.py`, the command of a task is given an environment. -/
def Host.Gives (host : Host) (kconf : Kconf) (tasks : List PlacedTask) (i : ℕ)
    (placed : PlacedTask) (given : Env) : Prop :=
  ∃ started, host.build kconf tasks = .returned started ∧ started[i]? = some (placed, some given)

/-- What the environment of a task is made of in a run, from the variables that it started with. -/
structure Host.RunsIn (host : Host) (start : Env) (placed : PlacedTask) (ctx : TaskContext) :
    Prop where
  fullCmd : ctx.fullCmd = placed.fullCmd host.cwd host.rootPath
  path : ctx.path = placed.path
  taskPath : ctx.environ.lookup "DS_TASK_PATH" = some (placed.taskPath host.cwd host.rootPath)
  others : ∀ name, name ≠ "DS_TASK_PATH" → ctx.environ.lookup name = start.lookup name

theorem Host.runsIn_context {host : Host} {start before : Env} {placed : PlacedTask}
    (hbefore : ∀ name, name ≠ "DS_TASK_PATH" → before.lookup name = start.lookup name)
    (staging : String) :
    host.RunsIn start placed (placed.context host
      (before.insert "DS_TASK_PATH" (placed.taskPath host.cwd host.rootPath)) host.rootPath
      staging) where
  fullCmd := by simp only [PlacedTask.context]
  path := by simp only [PlacedTask.context]
  taskPath := by simp only [PlacedTask.context, AList.lookup_insert]
  others name hname := by
    rw [← hbefore name hname]
    simp only [PlacedTask.context]
    exact AList.lookup_insert_ne hname

theorem Host.Gives.exists_context {host : Host} {kconf : Kconf} {tasks : List PlacedTask} {i : ℕ}
    {placed : PlacedTask} {given : Env} (h : host.Gives kconf tasks i placed given)
    (hvm : placed.cmdType.inVm) :
    ∃ arch release defconfig ctx extra, kconf.choose = .returned (arch, release, defconfig) ∧
      host.RunsIn (host.startEnv kconf arch release defconfig) placed ctx ∧
      placed.environment (configureStaging (tasks.map (·.toTask))) ctx = some extra ∧
      given = vmEnv (fun path => path) ctx.environ extra := by
  obtain ⟨started, hbuild, hstarted⟩ := h
  rw [Host.build, kconfigExportVars] at hbuild
  obtain ⟨environ, hexport, hbuild⟩ := Outcome.bind_eq_returned.mp hbuild
  obtain ⟨⟨arch, release, defconfig⟩, hchoose, hexport⟩ := Outcome.bind_eq_returned.mp hexport
  obtain rfl := Outcome.returned.inj hexport
  obtain rfl := Outcome.returned.inj hbuild
  obtain ⟨before, after, hbefore, hrun⟩ := host.exists_run_of_mem (List.mem_of_getElem? hstarted)
  rcases placed.run_cases hrun with ⟨hdummy, _, hgiven⟩ | ⟨root, staging, hroot, rfl, hgiven⟩
  · cases hgiven
  · have hrootPath : root = host.rootPath := by
      have hstart := hbefore "DS_HOST_ROOT_PATH" (by decide)
      rw [hroot] at hstart
      exact Option.some.inj (hstart.trans (host.lookup_startEnv_rootPath))
    rw [hrootPath, Task.given, if_pos hvm] at hgiven
    obtain ⟨extra, hextra, rfl⟩ := Option.map_eq_some_iff.mp hgiven.symm
    exact ⟨arch, release, defconfig, _, extra, hchoose, host.runsIn_context hbefore staging, hextra,
      rfl⟩

/-- The way to the command is as good from either checkout, and a target task has but one
checkout to be in. -/
def PlacedTask.SameIn (placed : PlacedTask) (cwd cwd' : AbsoluteDir) : Prop :=
  SameWay placed.cmdWay cwd.names cwd'.names ∧
    (placed.cmdType = .target → cwd = cwd')

/-- A command that lies in the checkout is called the same from everywhere. -/
theorem PlacedTask.sameIn_of_below {placed : PlacedTask} (hbelow : placed.cmdWay.1 = 0)
    (htype : placed.cmdType ≠ .target) (cwd cwd' : AbsoluteDir) : placed.SameIn cwd cwd' :=
  ⟨sameWay_of_below hbelow _ _, fun htarget => absurd htarget htype⟩

section TwoRuns

variable {first second : Host} {names : StagingNames} {placed : PlacedTask}
  {start start' extra extra' : Env} {ctx ctx' : TaskContext}

theorem stable_eq_of_sameIn (hfirst : first.RunsIn start placed ctx)
    (hsecond : second.RunsIn start' placed ctx') (hvm : placed.cmdType.inVm)
    (hextra : placed.environment names ctx = some extra)
    (hextra' : placed.environment names ctx' = some extra')
    (hstart : ∀ name, isStableName name → name ∉ vmPaths.map Prod.fst →
      start.lookup name = start'.lookup name)
    (h : placed.SameIn first.cwd second.cwd) {name : String} (hstable : isStableName name) :
    (vmEnv (fun path => path) ctx.environ extra).lookup name =
      (vmEnv (fun path => path) ctx'.environ extra').lookup name := by
  have hcmd : ctx.fullCmd = ctx'.fullCmd := by
    rw [hfirst.fullCmd, hsecond.fullCmd]
    exact placed.fullCmd_eq_iff.mpr h.1
  have hsame := environment_congr names hvm hcmd (hfirst.path.trans hsecond.path.symm)
  rw [hextra, hextra'] at hsame
  obtain rfl := Option.some.inj hsame
  refine lookup_vmEnv_congr fun hpath hnone => ?_
  by_cases hname : name = "DS_TASK_PATH"
  · -- the task's own environment leaves the variable out, which only that of a target task does
    subst hname
    obtain ⟨_, henv, _, htaskPath⟩ := exists_environment_inVm names ctx hvm
    rw [hextra] at henv
    obtain rfl := Option.some.inj henv
    rw [hnone] at htaskPath
    by_cases htarget : placed.cmdType = .target
    · have hcwd := h.2 htarget
      rw [hfirst.taskPath, hsecond.taskPath, Host.rootPath, Host.rootPath, hcwd]
    · rw [if_neg htarget] at htaskPath
      cases htaskPath
  · rw [hfirst.others name hname, hsecond.others name hname]
    exact hstart name hstable hpath

theorem sameIn_of_stable_eq (hfirst : first.RunsIn start placed ctx)
    (hsecond : second.RunsIn start' placed ctx') (hvm : placed.cmdType.inVm)
    (hextra : placed.environment names ctx = some extra)
    (hextra' : placed.environment names ctx' = some extra')
    (h : ∀ name, isStableName name →
      (vmEnv (fun path => path) ctx.environ extra).lookup name =
        (vmEnv (fun path => path) ctx'.environ extra').lookup name) :
    placed.SameIn first.cwd second.cwd := by
  obtain ⟨_, henv, hcmd, htaskPath⟩ := exists_environment_inVm names ctx hvm
  rw [hextra] at henv
  obtain rfl := Option.some.inj henv
  obtain ⟨_, henv, hcmd', htaskPath'⟩ := exists_environment_inVm names ctx' hvm
  rw [hextra'] at henv
  obtain rfl := Option.some.inj henv
  constructor
  · have hlookup := h "DS_TASK_CMD" (by decide)
    rw [lookup_vmEnv, lookup_vmEnv, hcmd, hcmd', Option.some_or, Option.some_or] at hlookup
    have hfull := (String.append_right_inj _).mp (Option.some.inj hlookup)
    rw [hfirst.fullCmd, hsecond.fullCmd] at hfull
    exact placed.fullCmd_eq_iff.mp hfull
  · intro htarget
    rw [if_pos htarget] at htaskPath htaskPath'
    have hlookup := h "DS_TASK_PATH" (by decide)
    have hpaths : (Dict.update ∅ vmPaths).lookup "DS_TASK_PATH" = none := by decide
    rw [lookup_vmEnv, lookup_vmEnv, htaskPath, htaskPath', hpaths, if_pos (by decide),
      if_pos (by decide), hfirst.taskPath, hsecond.taskPath] at hlookup
    have hnames := congrArg pathNames (Option.some.inj hlookup)
    rw [placed.pathNames_taskPath first, placed.pathNames_taskPath second] at hnames
    exact AbsoluteDir.ext (List.append_cancel_right hnames)

end TwoRuns

/-- Of two runs with the same configuration and tasks, the commands in the VM get the same stable
variables, exactly if each of them has the same way from both checkouts, and none is a target task
unless the checkouts are the same. -/
theorem vmVariables_checkout_iff {first second : Host}
    (henviron : ∀ name, isExportedName name →
      first.environ.lookup name = second.environ.lookup name)
    (kconf : Kconf) (tasks : List PlacedTask) :
    (∀ i placed given given', first.Gives kconf tasks i placed given →
        second.Gives kconf tasks i placed given' → placed.cmdType.inVm →
        ∀ name, isStableName name → given.lookup name = given'.lookup name) ↔
      ∀ i placed given given', first.Gives kconf tasks i placed given →
        second.Gives kconf tasks i placed given' → placed.cmdType.inVm →
        placed.SameIn first.cwd second.cwd := by
  have hiff : ∀ i placed given given', first.Gives kconf tasks i placed given →
      second.Gives kconf tasks i placed given' → placed.cmdType.inVm →
      ((∀ name, isStableName name → given.lookup name = given'.lookup name) ↔
        placed.SameIn first.cwd second.cwd) := by
    intro i placed given given' hgiven hgiven' hvm
    obtain ⟨arch, release, defconfig, ctx, extra, hchoose, hfirst, hextra, rfl⟩ :=
      hgiven.exists_context hvm
    obtain ⟨arch', release', defconfig', ctx', extra', hchoose', hsecond, hextra', rfl⟩ :=
      hgiven'.exists_context hvm
    rw [hchoose] at hchoose'
    obtain ⟨rfl, rfl, rfl⟩ : arch = arch' ∧ release = release' ∧ defconfig = defconfig' := by
      simpa using hchoose'
    refine ⟨sameIn_of_stable_eq hfirst hsecond hvm hextra hextra',
      fun h _ => stable_eq_of_sameIn hfirst hsecond hvm hextra hextra' ?_ h⟩
    intro name hstable hpath
    refine Host.lookup_startEnv_congr (henviron name ?_) hstable hpath
    simp only [isStableName, Bool.and_eq_true] at hstable
    rw [isExportedName, hstable.1, Bool.or_true]
  constructor
  · exact fun h i placed given given' hgiven hgiven' hvm =>
      (hiff i placed given given' hgiven hgiven' hvm).mp (h i placed given given' hgiven hgiven' hvm)
  · exact fun h i placed given given' hgiven hgiven' hvm =>
      (hiff i placed given given' hgiven hgiven' hvm).mpr (h i placed given given' hgiven hgiven' hvm)

/-! ## Two checkouts -/

/-- A host in whose checkout every file exists that a task names. -/
def checkoutHost (cwd : AbsoluteDir) : Host where
  cwd := cwd
  environ := Dict.update ∅ [("PWD", cwd.path), ("DS_VM_CORES", "4")]
  date := "20240229"
  pid := 100
  isFile _ := true
  mkdtemp first _ := "/tmp/" ++ first
  succeeds _ := true

def homeCheckout : AbsoluteDir where
  names := ["home".toList, "distro-seed".toList]
  isPathName := by decide

def serverCheckout : AbsoluteDir where
  names := ["srv".toList, "build".toList, "distro-seed".toList]
  isPathName := by decide

def debianKconf : Kconf where
  evalString symbol := if symbol ∈ ["DS_ARCH_ARMHF", "DS_DISTRO_DEBIAN_12"] then 2 else 0
  syms := Dict.update ∅ [("DS_DEFCONFIG", "ts4100_debian_12_minimal_defconfig"), ("MODULES", "y")]

/-- The task of `tasks/core/chroot_late`. -/
def lateTask : PlacedTask where
  id := 12
  config := "DS_TARGET_CHROOT_LATE"
  cmdType := .target
  cmd := "apt_update.sh"
  dependencies := ["DS_TARGET_CHROOT_READY"]
  autoCreateRdepends := true
  dir := ["tasks".toList, "core".toList, "chroot_late".toList]
  isPathName := by decide
  ne_nil := List.cons_ne_nil _ _

theorem vmVariables_checkout_iff_lateTask :
    (∀ i placed given given',
        (checkoutHost homeCheckout).Gives debianKconf [lateTask] i placed given →
        (checkoutHost serverCheckout).Gives debianKconf [lateTask] i placed given' →
        placed.cmdType.inVm →
        ∀ name, isStableName name → given.lookup name = given'.lookup name) ↔
      ∀ i placed given given',
        (checkoutHost homeCheckout).Gives debianKconf [lateTask] i placed given →
        (checkoutHost serverCheckout).Gives debianKconf [lateTask] i placed given' →
        placed.cmdType.inVm → placed.SameIn homeCheckout serverCheckout := by
  refine vmVariables_checkout_iff (fun name hname => ?_) debianKconf [lateTask]
  have hpwd : name ≠ "PWD" := by
    rintro rfl
    exact absurd hname (by decide)
  rw [checkoutHost, checkoutHost, Dict.lookup_update, Dict.lookup_update]
  simp [List.filter_cons, Ne.symm hpwd]

/-- A target task sees where the checkout lies on the host. -/
theorem lateTask_leaks_checkout :
    ∃ given given', (checkoutHost homeCheckout).Gives debianKconf [lateTask] 0 lateTask given ∧
      (checkoutHost serverCheckout).Gives debianKconf [lateTask] 0 lateTask given' ∧
      lateTask.cmdType.inVm ∧ isStableName "DS_TASK_PATH" ∧
      given.lookup "DS_TASK_PATH" = some "/home/distro-seed/tasks/core/chroot_late" ∧
      given'.lookup "DS_TASK_PATH" = some "/srv/build/distro-seed/tasks/core/chroot_late" := by
  refine ⟨_, _, ⟨_, rfl, rfl⟩, ⟨_, rfl, rfl⟩, by decide, by decide, ?_, ?_⟩
  · decide +kernel
  · decide +kernel

end DistroSeed
