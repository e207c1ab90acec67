import DistroSeed.Verification.Packages.Inputs

/-! Which files of the overlays are in the target rootfs in the end. -/

namespace DistroSeed

open KeySort PackageStore

variable {Content Archive : Type} {tar : Tar Content Archive} {tools : PackageTools Content}
  {targetArch : String} {output : Task → TaskOutput Content}

/-! ## The packages of a schedule -/

/-- The package of a task: the files of its overlay that `dpkg-deb` does not take for control
files, under the name that the config gives. -/
def Task.overlayPackage (output : Task → TaskOutput Content) (task : Task) :
    Package String Path Content where
  name := "distro-seed-" ++ String.ofList (cleanName task.config.toList)
  file path := if isDebianPath path then none else (output task).overlay.file path

/-- The packages in the order of the schedule. -/
def overlayPackages (output : Task → TaskOutput Content) (tasks : List Task) :
    List (Package String Path Content) :=
  (stagingTasks output tasks).map (Task.overlayPackage output)

/-- The types of the tasks that have a `DS_OVERLAY`. -/
def CmdType.hasOverlay : CmdType → Bool
  | .host | .vm | .cross => true
  | .target | .dummy | .packagelist | .packagelistCross => false

/-- The content of a path in the latest overlay that contains it. -/
def latestOverlay (output : Task → TaskOutput Content) (tasks : List Task) (path : Path) :
    Option Content :=
  tasks.foldl
    (fun found task =>
      if task.cmdType.hasOverlay then (output task).overlay.file path <|> found else found)
    none

theorem hasOverlay_of_stages {task : Task} (h : task.stages output) : task.cmdType.hasOverlay := by
  revert h
  rw [Task.stages]
  cases task.cmdType <;> simp [CmdType.hasOverlay]

/-- A task that stages nothing has left no files. -/
theorem file_eq_none_of_not_stages {task : Task} (h : ¬ task.stages output)
    (hoverlay : task.cmdType.hasOverlay) (path : Path) : (output task).overlay.file path = none := by
  have hempty : (output task).overlay.hasEntries = false := by
    revert h hoverlay
    rw [Task.stages]
    cases task.cmdType <;> simp +contextual [CmdType.hasOverlay]
  have hnone : (output task).overlay = ∅ := by
    apply Directory.eq_empty_of_not_hasEntries
    simp [hempty]
  rw [hnone, Directory.file_empty]

/-- The latest overlay with a path is the last package with it. -/
theorem latestOverlay_eq (output : Task → TaskOutput Content) (tasks : List Task) {path : Path}
    (hpath : ¬ isDebianPath path) :
    latestOverlay output tasks path =
      latest ((tasks.filter (Task.stages output)).map (Task.overlayPackage output)) path := by
  induction tasks using List.reverseRecOn with
  | nil => rfl
  | append_singleton tasks task ih =>
      rw [latestOverlay, List.foldl_append, ← latestOverlay, ih, List.filter_append,
        List.map_append]
      by_cases hstages : task.stages output
      · simp [hstages, hasOverlay_of_stages hstages, latest_append_singleton,
          Task.overlayPackage, hpath]
      · by_cases hoverlay : task.cmdType.hasOverlay
        · simp [hstages, hoverlay, file_eq_none_of_not_stages hstages hoverlay]
        · simp [hstages, hoverlay]

/-- The content is that of an overlay which is staged. -/
theorem exists_stages_of_latestOverlay {tasks : List Task} {path : Path} {content : Content}
    (h : latestOverlay output tasks path = some content) :
    ∃ task ∈ tasks, task.stages output := by
  by_contra hnone
  have hall : ∀ task ∈ tasks, ¬ task.stages output := fun task hmem hstages =>
    hnone ⟨task, hmem, hstages⟩
  have hlatest : latestOverlay output tasks path = none := by
    clear h hnone
    induction tasks using List.reverseRecOn with
    | nil => rfl
    | append_singleton tasks task ih =>
        rw [latestOverlay, List.foldl_append, ← latestOverlay, ih fun t ht => hall t (by simp [ht])]
        by_cases hoverlay : task.cmdType.hasOverlay
        · simp [hoverlay, file_eq_none_of_not_stages (hall task (by simp)) hoverlay]
        · simp [hoverlay]
  rw [hlatest] at h
  cases h

theorem latest_overlayPackages_of_isDebianPath (output : Task → TaskOutput Content)
    (tasks : List Task) {path : Path} (hpath : isDebianPath path) :
    latest (overlayPackages output tasks) path = none := by
  rw [overlayPackages]
  induction stagingTasks output tasks using List.reverseRecOn with
  | nil => rfl
  | append_singleton tasks task ih =>
      rw [List.map_append, List.map_cons, List.map_nil, latest_append_singleton, ih]
      simp [Task.overlayPackage, hpath]

/-! ## `build-packages.sh` -/

/-- An archive is made of a directory with entries only; the others are found empty. -/
theorem getD_map_extract (tar : Tar Content Archive) (directory : Directory Content) :
    (Option.map tar.extract
      (if directory.hasEntries then some (tar.create directory) else none)).getD ∅ = directory := by
  by_cases h : directory.hasEntries
  · simp [h, tar.extract_create]
  · rw [if_neg h, Directory.eq_empty_of_not_hasEntries h]
    rfl

/-- A generated control file has the name of the package. -/
theorem packageControl_package {input : PackageInput Archive} {debianroot : Directory Content}
    (hcontrol : debianroot.file ["control"] = none) {control : Control}
    (h : packageControl tools targetArch input debianroot = .returned control) :
    control.package = packageName input.name := by
  rw [packageControl, hcontrol] at h
  simp only at h
  split at h
  · obtain rfl := Outcome.returned.inj h
    rfl
  · cases h

/-- The package that is built for a task which supplies no control file. -/
theorem buildPackage_spec {task : Task} (hstages : task.stages output)
    (hcontrol : (output task).debian.file ["control"] = none) {result : Option (Deb Content)}
    (h : buildPackage tar tools targetArch (task.packageInput tar output) = .returned result) :
    ∃ deb, result = some deb ∧ deb.fileName = task.packageInputName ++ ".deb" ∧
      deb.package = task.overlayPackage output := by
  have harchive : ¬ ((task.packageInput tar output).data.isNone &&
      (task.packageInput tar output).debian.isNone) := by
    revert hstages
    rw [Task.stages, Task.packageInput]
    cases task.cmdType <;> cases (output task).overlay.hasEntries <;>
      cases (output task).debian.hasEntries <;> simp
  have hdata : ((task.packageInput tar output).data.map tar.extract).getD ∅ =
      (output task).overlay := getD_map_extract tar _
  have hdebian : ((task.packageInput tar output).debian.map tar.extract).getD ∅ =
      (output task).debian := getD_map_extract tar _
  rw [buildPackage, if_neg harchive] at h
  simp only [hdata, hdebian] at h
  obtain ⟨control, hcontrol', h⟩ := Outcome.bind_eq_returned.mp h
  have hname := packageControl_package hcontrol hcontrol'
  split at h
  · obtain rfl := Outcome.returned.inj h
    refine ⟨_, rfl, rfl, ?_⟩
    rw [Task.overlayPackage, ← packageName_packageInputName, Deb.package, assembleDeb, hname]
    rfl
  · cases h

/-- The packages that are built, in the order of the schedule. -/
theorem buildPackages_spec {tasks : List Task}
    (hcontrol : ∀ task ∈ number tasks, (output task).debian.file ["control"] = none)
    {listed : List (PackageInput Archive)}
    (hlisted : listed.Perm (packageInputs tar output (number tasks))) {debs : List (Deb Content)}
    (h : buildPackages tar tools targetArch listed = .returned debs) :
    (debs.map fun deb => (deb.fileName, deb.package)) =
      (stagingTasks output tasks).map fun task =>
        (task.packageInputName ++ ".deb", task.overlayPackage output) := by
  rw [buildPackages, sortedBy_packageInputs tasks hlisted, Outcome.bind_eq_returned] at h
  obtain ⟨results, hresults, h⟩ := h
  obtain rfl := Outcome.returned.inj h
  rw [List.mapM_map] at hresults
  have hstep : ∀ task ∈ stagingTasks output tasks, ∀ result,
      buildPackage tar tools targetArch (task.packageInput tar output) = .returned result →
      result.map (fun deb => (deb.fileName, deb.package)) =
        some (task.packageInputName ++ ".deb", task.overlayPackage output) := by
    intro task htask result hresult
    obtain ⟨hmem, hstages⟩ := List.mem_filter.mp htask
    obtain ⟨deb, rfl, hname, hpackage⟩ := buildPackage_spec hstages (hcontrol task hmem) hresult
    rw [Option.map_some, hname, hpackage]
  have hmap := Outcome.map_of_mapM_eq_returned hstep hresults
  have hfilter := congrArg (List.filterMap id) hmap
  rw [List.filterMap_map, List.filterMap_map] at hfilter
  rw [List.map_filterMap]
  simpa [Function.comp_def, List.filterMap_eq_map'] using hfilter

/-- `install-packages.sh` takes the packages in the order of the schedule. -/
theorem sortedBy_debs {tasks : List Task} {debs listed : List (Deb Content)}
    (hdebs : (debs.map fun deb => (deb.fileName, deb.package)) =
      (stagingTasks output tasks).map fun task =>
        (task.packageInputName ++ ".deb", task.overlayPackage output))
    (hlisted : listed.Perm debs) : sortedBy (packageSortKey ·.fileName) listed = debs := by
  apply sortedBy_eq_of_perm _ hlisted
  have hkeys : (debs.map fun deb => packageSortKey deb.fileName) =
      (stagingTasks output tasks).map Task.id := by
    have hmap := congrArg (List.map fun pair => packageSortKey pair.1) hdebs
    rw [List.map_map, List.map_map] at hmap
    simpa [Function.comp_def, packageSortKey_fileName] using hmap
  rw [← List.pairwise_map (f := fun deb : Deb Content => packageSortKey deb.fileName) (R := (· < ·)),
    hkeys, List.pairwise_map]
  exact pairwise_id_stagingTasks output tasks

/-! ## `install-packages.sh` -/

theorem installPackage_eq {rootfs rootfs' : Rootfs Content} {deb : Deb Content}
    (h : installPackage tools rootfs deb = .returned rootfs') :
    rootfs' = rootfs.install deb.package := by
  rw [installPackage] at h
  split at h
  · rename_i result hresult
    obtain rfl := Outcome.returned.inj h
    exact tools.dpkg_eq rootfs deb result hresult
  · cases h

theorem file_foldl_depmod (versions : List String) (rootfs : Rootfs Content) {path : Path}
    (hpath : ¬ isModuleIndex path) :
    (versions.foldl tools.depmod rootfs).file path = rootfs.file path := by
  induction versions generalizing rootfs with
  | nil => rfl
  | cons version versions ih =>
      rw [List.foldl_cons, ih, tools.depmod_file rootfs version path hpath]

theorem removeTree_file_of_isPrefixOf {dir path : Path} (h : dir.isPrefixOf path)
    (rootfs : Rootfs Content) : (removeTree dir rootfs).file path = none := if_pos h

theorem removeTree_file_of_not_isPrefixOf {dir path : Path} (h : ¬ dir.isPrefixOf path)
    (rootfs : Rootfs Content) : (removeTree dir rootfs).file path = rootfs.file path := if_neg h

/-- The rootfs after the script, the files of `depmod` apart. -/
theorem installPackages_file {debs listed : List (Deb Content)}
    (hsorted : sortedBy (packageSortKey ·.fileName) listed = debs) (hne : listed ≠ [])
    {base rootfs : Rootfs Content} (h : installPackages tools listed base = .returned rootfs)
    {path : Path} (hindex : ¬ isModuleIndex path) :
    rootfs.file path =
      if targetPackageDir.isPrefixOf path then none
      else (installAll (removeTree targetPackageDir base) (debs.map Deb.package)).file path := by
  have hempty : ¬ listed.isEmpty := by simpa using hne
  rw [installPackages, if_neg hempty, hsorted, Outcome.bind_eq_returned] at h
  obtain ⟨installed, hinstalled, h⟩ := h
  obtain rfl := Outcome.returned.inj h
  have hfold := Outcome.eq_foldl_of_foldlM_eq_returned
    (fun deb _ rootfs rootfs' hstep => installPackage_eq hstep) hinstalled
  have hall : installed = installAll (removeTree targetPackageDir base) (debs.map Deb.package) := by
    rw [hfold, installAll, List.foldl_map]
  by_cases hdir : targetPackageDir.isPrefixOf path
  · rw [if_pos hdir, removeTree_file_of_isPrefixOf hdir]
  · rw [if_neg hdir, removeTree_file_of_not_isPrefixOf hdir, file_foldl_depmod _ _ hindex, hall]

/-! ## The whole build -/

/-- When a file of an overlay is in the target rootfs in the end: it is not where
`install-packages.sh` cleans up; if `dpkg-deb` takes it for a control file, the rootfs has it
anyway; and no package takes it away without a later one that brings it back. -/
structure OverlaySurvives (output : Task → TaskOutput Content) (tasks : List Task)
    (base : Rootfs Content) (path : Path) (content : Content) : Prop where
  not_cleaned : ¬ targetPackageDir.isPrefixOf path
  not_control : isDebianPath path → base.file path = some content
  survives : Survives base.owned (overlayPackages output tasks) path

theorem file_buildAndInstall_iff {tasks : List Task} {base rootfs : Rootfs Content}
    (hcontrol : ∀ task ∈ number tasks, (output task).debian.file ["control"] = none)
    (hrun : buildAndInstall tar tools targetArch (packageInputs tar output (number tasks)) base =
      .returned rootfs)
    {path : Path} {content : Content} (hindex : ¬ isModuleIndex path)
    (hlatest : latestOverlay output (number tasks) path = some content) :
    rootfs.file path = some content ↔ OverlaySurvives output tasks base path content := by
  obtain ⟨debs, hbuild, hinstall⟩ := Outcome.bind_eq_returned.mp hrun
  have hdebs := buildPackages_spec hcontrol (tools.glob_perm _) hbuild
  have hpackages : debs.map Deb.package = overlayPackages output tasks := by
    have hmap := congrArg (List.map Prod.snd) hdebs
    rw [List.map_map, List.map_map] at hmap
    exact hmap
  have hne : tools.glob debs ≠ [] := by
    obtain ⟨task, hmem, hstages⟩ := exists_stages_of_latestOverlay hlatest
    have hstaging : task ∈ stagingTasks output tasks := List.mem_filter.mpr ⟨hmem, hstages⟩
    intro hnil
    have hdebsNil : debs = [] := List.perm_nil.mp (hnil ▸ tools.glob_perm debs).symm
    rw [hdebsNil, List.map_nil] at hdebs
    rw [List.map_eq_nil_iff.mp hdebs.symm] at hstaging
    cases hstaging
  rw [installPackages_file (sortedBy_debs hdebs (tools.glob_perm debs)) hne hinstall hindex,
    hpackages]
  by_cases hdir : targetPackageDir.isPrefixOf path
  · rw [if_pos hdir]
    exact iff_of_false (by simp) fun h => h.not_cleaned hdir
  · rw [if_neg hdir, file_installAll_iff, removeTree_file_of_not_isPrefixOf hdir]
    by_cases hdebian : isDebianPath path
    · rw [latest_overlayPackages_of_isDebianPath output tasks hdebian]
      exact ⟨fun h => ⟨hdir, fun _ => h.1, h.2⟩, fun h => ⟨h.not_control hdebian, h.survives⟩⟩
    · rw [overlayPackages, stagingTasks, ← latestOverlay_eq output _ hdebian, hlatest]
      exact ⟨fun h => ⟨hdir, fun hpath => absurd hpath hdebian, h.2⟩,
        fun h => ⟨rfl, h.survives⟩⟩

/-- After the two scripts every file of an overlay is in the target rootfs, with the content of
the latest overlay that contains it, if and only if none of them is lost on the way; the files
that `depmod` writes afterwards are its own. -/
theorem overlays_kept_iff (tar : Tar Content Archive) (tools : PackageTools Content)
    (targetArch : String) (output : Task → TaskOutput Content) (tasks : List Task)
    (base rootfs : Rootfs Content)
    (hcontrol : ∀ task ∈ number tasks, (output task).debian.file ["control"] = none)
    (hrun : buildAndInstall tar tools targetArch (packageInputs tar output (number tasks)) base =
      .returned rootfs) :
    (∀ path content, ¬ isModuleIndex path →
        latestOverlay output (number tasks) path = some content →
        rootfs.file path = some content) ↔
      ∀ path content, ¬ isModuleIndex path →
        latestOverlay output (number tasks) path = some content →
        OverlaySurvives output tasks base path content := by
  constructor
  · intro h path content hindex hlatest
    exact (file_buildAndInstall_iff hcontrol hrun hindex hlatest).mp (h path content hindex hlatest)
  · intro h path content hindex hlatest
    exact (file_buildAndInstall_iff hcontrol hrun hindex hlatest).mpr (h path content hindex hlatest)

/-! ## Two tasks with an overlay -/

/-- Programs that do what they are for and nothing else. -/
def plainTools : PackageTools String where
  glob := id
  glob_perm := fun _ => List.Perm.refl _
  validateVersion := fun _ => true
  readControl := fun _ => generatedControl "" "" "" ""
  dpkgDeb := fun _ => true
  dpkg := fun rootfs deb => some (rootfs.install deb.package)
  dpkg_eq := fun _ _ _ h => (Option.some.inj h).symm
  moduleDirs := fun _ => []
  depmod := fun rootfs _ => rootfs
  depmod_file := fun _ _ _ _ => rfl

def emptyRootfs : Rootfs String := ⟨fun _ => none, fun _ _ => false⟩

/-- A task on the host and a task in the cross chroot. -/
def hostAndCross (hostConfig crossConfig : String) : List Task :=
  [{ config := hostConfig, cmdType := .host }, { config := crossConfig, cmdType := .cross }]

/-- The first task installs a firmware file, the second one a program. -/
def firmwareAndProgram (task : Task) : TaskOutput String where
  overlay :=
    if task.id = 1 then ⟨Finmap.singleton ["lib", "firmware", "wifi.bin"] "firmware", ∅⟩
    else ⟨Finmap.singleton ["usr", "bin", "wifi"] "program", ∅⟩
  debian := ∅

/-- The rootfs after the two scripts. -/
def hostAndCrossRun (hostConfig crossConfig : String) : Outcome PackageError (Rootfs String) :=
  buildAndInstall (Tar.plain String) plainTools "armhf"
    (packageInputs (Tar.plain String) firmwareAndProgram
      (number (hostAndCross hostConfig crossConfig))) emptyRootfs

theorem path_of_firmwareAndProgram {hostConfig crossConfig : String} {path : Path}
    {content : String}
    (h : latestOverlay firmwareAndProgram (number (hostAndCross hostConfig crossConfig)) path =
      some content) :
    path = ["lib", "firmware", "wifi.bin"] ∨ path = ["usr", "bin", "wifi"] := by
  by_contra hnot
  obtain ⟨hfirmware, hprogram⟩ := not_or.mp hnot
  have hlookup : ∀ (other : Path) (content : String), path ≠ other →
      (⟨Finmap.singleton other content, ∅⟩ : Directory String).file path = none := by
    intro other content hne
    exact Finmap.lookup_eq_none.mpr fun hmem => hne ((Finmap.mem_singleton path other content).mp hmem)
  have hnone : latestOverlay firmwareAndProgram (number (hostAndCross hostConfig crossConfig)) path =
      none := by
    simp [latestOverlay, number, hostAndCross, CmdType.hasOverlay, firmwareAndProgram,
      hlookup _ _ hfirmware, hlookup _ _ hprogram]
  rw [hnone] at h
  cases h

/-- Two tasks of different configs. -/
theorem overlays_kept_iff_hostAndCross :
    ∃ rootfs, hostAndCrossRun "DS_WIFI" "DS_WIFI_TOOLS" = .returned rootfs ∧
      ∀ path content, ¬ isModuleIndex path →
        latestOverlay firmwareAndProgram (number (hostAndCross "DS_WIFI" "DS_WIFI_TOOLS")) path =
          some content →
        rootfs.file path = some content := by
  have hends : (fun _ => ()) <$> hostAndCrossRun "DS_WIFI" "DS_WIFI_TOOLS" = .returned () := by
    decide +kernel
  cases hrun : hostAndCrossRun "DS_WIFI" "DS_WIFI_TOOLS" with
  | running => rw [hrun] at hends; cases hends
  | raised e => rw [hrun] at hends; cases hends
  | returned rootfs =>
      refine ⟨rootfs, rfl, ?_⟩
      apply (overlays_kept_iff (Tar.plain String) plainTools "armhf" firmwareAndProgram
        (hostAndCross "DS_WIFI" "DS_WIFI_TOOLS") emptyRootfs rootfs (by decide +kernel) hrun).mpr
      intro path content _ hlatest
      refine ⟨?_, ?_, ?_⟩
      · rcases path_of_firmwareAndProgram hlatest with rfl | rfl <;> decide
      · intro hdebian
        rcases path_of_firmwareAndProgram hlatest with rfl | rfl <;> exact absurd hdebian (by decide)
      · exact survives_of_nodup (by decide +kernel) fun _ _ => by simp [emptyRootfs]

/-- Two tasks of one config: the package of the program takes the place of the firmware's. -/
theorem overlays_lost :
    (∀ task ∈ number (hostAndCross "DS_WIFI" "DS_WIFI"),
        (firmwareAndProgram task).debian.file ["control"] = none) ∧
      latestOverlay firmwareAndProgram (number (hostAndCross "DS_WIFI" "DS_WIFI"))
        ["lib", "firmware", "wifi.bin"] = some "firmware" ∧
      (fun rootfs => rootfs.file ["lib", "firmware", "wifi.bin"]) <$>
        hostAndCrossRun "DS_WIFI" "DS_WIFI" = .returned none := by
  decide +kernel

end DistroSeed
