import DistroSeed.Library.Paths
import DistroSeed.Model.ManifestFiles

/-! A run of `build.py` in a checkout directory: the variables that `vars.py` exports, and the
environment that `Task.run` gives to the command of each task. -/

namespace DistroSeed

open Parsed (osNormpath)

/-! ## `os.path` -/

/-- A name of a file or directory. -/
def IsPathName (name : List Char) : Prop :=
  Paths.IsName '/' name ∧ name ≠ ['.'] ∧ name ≠ ['.', '.']

instance (name : List Char) : Decidable (IsPathName name) := inferInstanceAs (Decidable (_ ∧ _))

/-- An absolute directory, as `os.getcwd` returns it. -/
@[ext] structure AbsoluteDir where
  names : List (List Char)
  isPathName : ∀ name ∈ names, IsPathName name

def AbsoluteDir.path (dir : AbsoluteDir) : String :=
  String.ofList ('/' :: ['/'].intercalate dir.names)

def osPathAbspath (cwd : AbsoluteDir) (path : String) : String :=
  osNormpath (osPathJoin cwd.path path)

/-- The names of an absolute path. -/
def pathNames (path : String) : List (List Char) := Paths.names '/' path.toList

/-- A relative path from the levels it goes up and the names it goes down. -/
def wayPath (way : ℕ × List (List Char)) : String :=
  let relList := List.replicate way.1 ['.', '.'] ++ way.2
  if relList = [] then "." else String.ofList (['/'].intercalate relList)

/-- `os.path.relpath`, of a path that is not empty. -/
def osPathRelpath (cwd : AbsoluteDir) (path start : String) : String :=
  wayPath (Paths.wayTo (pathNames (osPathAbspath cwd start)) (pathNames (osPathAbspath cwd path)))

/-- `os.path.dirname`. -/
def osPathDirname (path : String) : String :=
  let head := path.toList.rdropWhile (· ≠ '/')
  if head.all (· = '/') then String.ofList head
  else String.ofList (head.rdropWhile (· = '/'))

/-- `os.path.basename`. -/
def osPathBasename (path : String) : String := String.ofList (path.toList.rtakeWhile (· ≠ '/'))

/-! ## `vars.py` -/

/-- A configuration: the values of expressions, and those of all symbols as strings. -/
structure Kconf where
  evalString : String → ℕ
  syms : Dict String String

/-- What a run of `build.py` meets on its host: the directory it runs in, the environment it
inherits, the date, its process, the files, the directories that `mkdtemp` makes for a task, and
which commands succeed. -/
structure Host where
  cwd : AbsoluteDir
  environ : Env
  date : String
  pid : ℕ
  isFile : String → Bool
  mkdtemp : String → Task → String
  succeeds : Task → Bool

/-- What ends `kconfig_export_vars` early. -/
inductive VarsError where
  | unsupportedArch
  | unsupportedDistro
  | keyError (key : String)
deriving DecidableEq, Repr

structure TargetArch where
  symbol : String
  arch : String
  qemuStatic : String

def targetArchs : List TargetArch := [⟨"DS_ARCH_AARCH64", "arm64", "qemu-aarch64-static"⟩,
  ⟨"DS_ARCH_ARMHF", "armhf", "qemu-arm-static"⟩, ⟨"DS_ARCH_ARMEL", "armel", "qemu-armeb-static"⟩]

structure Release where
  symbol : String
  distro : String
  release : String
  releaseNum : String

def releases : List Release := [⟨"DS_DISTRO_DEBIAN_11", "debian", "bullseye", "11"⟩,
  ⟨"DS_DISTRO_DEBIAN_12", "debian", "bookworm", "12"⟩,
  ⟨"DS_DISTRO_DEBIAN_13", "debian", "trixie", "13"⟩,
  ⟨"DS_DISTRO_UBUNTU_22_04", "ubuntu", "jammy", "22.04"⟩,
  ⟨"DS_DISTRO_UBUNTU_24_04", "ubuntu", "noble", "24.04"⟩]

/-- The name of the output from that of the defconfig. -/
def outputBasename (release : Release) (defconfig date : String) : String :=
  let platform := if defconfig = "" then "rootfs"
    else String.ofList (defconfig.toList.takeWhile (· ≠ '_'))
  let pkgvariant := if "_defconfig".toList.isSuffixOf defconfig.toList then
      defconfig.toList.take (defconfig.length - 10)
    else defconfig.toList
  let pkgvariant := if pkgvariant = [] then "image"
    else String.ofList (pkgvariant.rtakeWhile (· ≠ '_'))
  platform ++ "-" ++ release.distro ++ "-" ++ release.releaseNum ++ "-" ++ release.release ++ "-" ++
    pkgvariant ++ "-" ++ date

/-- `DS_HOST_ROOT_PATH`; the name in quotes is meant to be `__file__`, but any name would do. -/
def Host.rootPath (host : Host) : String := osPathDirname (osPathAbspath host.cwd "__file__")

/-- The variables that are set for all tasks. -/
def Host.commonVars (host : Host) (arch : TargetArch) (release : Release) (defconfig : String) :
    List (String × String) := [
  ("DS_WORK", osPathDirname (host.rootPath ++ "/work/")),
  ("DS_DL", osPathDirname (host.rootPath ++ "/dl/")),
  ("DS_CACHE", osPathDirname (host.rootPath ++ "/cache/")),
  ("DS_HOST_ROOT_PATH", host.rootPath),
  ("DS_DISTRO", release.distro),
  ("DS_RELEASE", release.release),
  ("DS_RELEASE_NUM", release.releaseNum),
  ("DS_TARGET_ARCH", arch.arch),
  ("DS_QEMU_STATIC", arch.qemuStatic),
  ("DS_BUILD_DATE", host.date),
  ("DS_OUTPUT_BASENAME", outputBasename release (osPathBasename defconfig) host.date)]

def Kconf.configVars (kconf : Kconf) : List (String × String) :=
  (kconf.syms.items.filter (·.1 ≠ "MODULES")).map fun sym => ("CONFIG_" ++ sym.1, sym.2)

/-- The two chains of `kconfig_export_vars`, and the defconfig. -/
def Kconf.choose (kconf : Kconf) : Outcome VarsError (TargetArch × Release × String) :=
  match targetArchs.find? fun arch => kconf.evalString arch.symbol ≠ 0 with
  | none => .raised .unsupportedArch
  | some arch =>
      match releases.find? fun release => kconf.evalString release.symbol ≠ 0 with
      | none => .raised .unsupportedDistro
      | some release =>
          match kconf.syms.lookup "DS_DEFCONFIG" with
          | none => .raised (.keyError "DS_DEFCONFIG")
          | some defconfig => .returned (arch, release, defconfig)

def kconfigExportVars (host : Host) (kconf : Kconf) : Outcome VarsError Env := do
  let (arch, release, defconfig) ← kconf.choose
  .returned (Dict.update host.environ
    (host.commonVars arch release defconfig ++ kconf.configVars))

/-! ## `Task.run` -/

/-- A task with the directory of its manifest, as the glob delivers it. -/
structure PlacedTask extends Task where
  dir : List (List Char)
  isPathName : ∀ name ∈ dir, IsPathName name
  ne_nil : dir ≠ []

def PlacedTask.path (placed : PlacedTask) : String := String.ofList (['/'].intercalate placed.dir)

/-- The types whose commands `vm.run_script` runs. -/
def CmdType.inVm (cmdType : CmdType) : Bool := cmdType ∈ [.vm, .cross, .target]

/-- The environment that the command of a task is given, in the VM with the variables of the host
that `vm_env` takes. -/
def Task.given (names : StagingNames) (ctx : TaskContext) (task : Task) : Option Env :=
  if task.cmdType.inVm then (task.environment names ctx).map (vmEnv (fun path => path) ctx.environ)
  else task.environment names ctx

/-- `full_cmd`. -/
def PlacedTask.fullCmd (cwd : AbsoluteDir) (root : String) (placed : PlacedTask) : String :=
  osPathRelpath cwd (placed.path ++ "/" ++ placed.cmd) root

/-- `DS_TASK_PATH` in `os.environ`. -/
def PlacedTask.taskPath (cwd : AbsoluteDir) (root : String) (placed : PlacedTask) : String :=
  osPathAbspath cwd (root ++ "/" ++ placed.path)

/-- `work/staging`; without `DS_WORK` only the commands in the VM can run. -/
def stagingDir (cwd : AbsoluteDir) (environ : Env) (cmdType : CmdType) :
    Outcome Yaml.PyError String :=
  match environ.lookup "DS_WORK" with
  | some work => .returned (osPathAbspath cwd (osPathJoin work "staging"))
  | none => if cmdType.inVm then .returned "" else .raised .typeError

/-- What the environment of a task is made of, when `os.environ` has its `DS_TASK_PATH`. -/
def PlacedTask.context (host : Host) (environ : Env) (root staging : String) (placed : PlacedTask) :
    TaskContext where
  environ := environ
  staging := staging
  fullCmd := placed.fullCmd host.cwd root
  path := placed.path
  overlay := host.mkdtemp "ds-overlay." placed.toTask
  debian := host.mkdtemp "ds-overlay-debian." placed.toTask

/-- `Task.run` up to the start of the command: `os.environ` from then on, and what the command is
given. -/
def PlacedTask.run (host : Host) (names : StagingNames) (environ : Env) (placed : PlacedTask) :
    Outcome Yaml.PyError (Env × Option Env) :=
  if placed.cmdType = .dummy then .returned (environ, none)
  else
    match environ.lookup "DS_HOST_ROOT_PATH" with
    | none => .raised (.keyError "DS_HOST_ROOT_PATH")
    | some root => do
        let environ := environ.insert "DS_TASK_PATH" (placed.taskPath host.cwd root)
        let fullCmd := placed.fullCmd host.cwd root
        if !host.isFile fullCmd then
          .raised (.valueError
            (placed.config ++ " has task \"" ++ fullCmd ++ "\" that does not exist"))
        else
          let staging ← stagingDir host.cwd environ placed.cmdType
          .returned (environ, placed.given names (placed.context host environ root staging))

/-! ## `build.py` -/

/-- A task is over without an error; one of type `dummy` does nothing. -/
def Host.passes (host : Host) (task : Task) : Bool :=
  task.cmdType = .dummy || host.succeeds task

/-- The loop over the tasks: each one that is started, with what its command is given. -/
def Host.runTasks (host : Host) (names : StagingNames) : Env → List PlacedTask →
    List (PlacedTask × Option Env)
  | _, [] => []
  | environ, placed :: rest =>
      match placed.run host names environ with
      | .returned (environ, given) => (placed, given) ::
          if host.passes placed.toTask then host.runTasks names environ rest else []
      | _ => []

/-- `build.py` with these tasks in the order of the schedule. -/
def Host.build (host : Host) (kconf : Kconf) (tasks : List PlacedTask) :
    Outcome VarsError (List (PlacedTask × Option Env)) := do
  let environ ← kconfigExportVars host kconf
  .returned (host.runTasks (configureStaging (tasks.map (·.toTask)))
    (environ.insert "DS_SESSION_PID" (toString host.pid)) tasks)

end DistroSeed
