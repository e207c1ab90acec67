import DistroSeed.Library.Dict
import DistroSeed.Library.PyText
import DistroSeed.Library.ShellWords
import DistroSeed.Model.LocalPackages

/-! The environment in which `Task.run` runs the command of a task, and the shell text that sets it
in the VM. -/

namespace DistroSeed

open KeySort PyText

/-- Variables whose values are texts. -/
abbrev Env := Dict String String

/-- Variables as `os.environ` has them: what the bytes of a value cannot be decoded to is a lone
surrogate there. -/
abbrev PyEnv := Dict String (List ℕ)

/-- `os.path.join` of two parts. -/
def osPathJoin (dir name : String) : String :=
  if name.toList.head? = some '/' then name
  else if dir = "" || dir.toList.getLast? = some '/' then dir ++ name
  else dir ++ "/" ++ name

/-- The class attributes that `configure_staging` sets. -/
structure StagingNames where
  configs : List String
  provides : Dict String String

/-- `Task.configure_staging`: of several tasks that provide one name, the last one counts. -/
def configureStaging (tasks : List Task) : StagingNames where
  configs := sortedBy id (tasks.map (·.config)).dedup
  provides := Dict.update ∅
    ((tasks.filter (·.provides ≠ "")).map fun task => (task.provides, task.config))

/-- `_staging_env`. -/
def Task.stagingEnv (names : StagingNames) (root : String) (task : Task) : Env :=
  let env : Env := Dict.update ∅
    (names.configs.map fun config => ("DS_TASK_WORK_" ++ config, osPathJoin root config))
  let env : Env := Dict.update env
    (names.provides.items.map fun item => ("DS_TASK_WORK_" ++ item.1, osPathJoin root item.2))
  env.insert "DS_TASK_WORK" (osPathJoin root task.config)

/-- `_task_env`. -/
def Task.taskEnv (names : StagingNames) (base : Env) (root : Option String) (task : Task) : Env :=
  let env := (base.insert "DS_MANIFEST_VERSION" task.manifestVersion).insert "DS_PKG_VERSION"
    task.pkgVersion
  match root with
  | none => env
  | some root => Dict.update env (Dict.items (task.stagingEnv names root))

/-- What `Task.run` puts into the environment of a task besides: `os.environ` with the task's
`DS_TASK_PATH`, the absolute path of `work/staging`, the paths of the command and of the task, and
the two temporary directories. -/
structure TaskContext where
  environ : Env
  staging : String
  fullCmd : String
  path : String
  overlay : String
  debian : String

/-- The environment that `Task.run` hands to the command, or to `vm.run_script` for it. -/
def Task.environment (names : StagingNames) (ctx : TaskContext) (task : Task) : Option Env :=
  match task.cmdType with
  | .dummy => none
  | .host =>
      some (((task.taskEnv names ctx.environ (some ctx.staging)).insert "DS_OVERLAY"
        ctx.overlay).insert "DS_OVERLAY_PKG_DEBIAN" ctx.debian)
  | .packagelist | .packagelistCross =>
      some (task.taskEnv names ctx.environ (some ctx.staging))
  | .vm | .cross =>
      some (task.taskEnv names (Dict.update ∅ [("DS_PACKAGE_INPUT_NAME", task.packageInputName),
        ("DS_TASK_CMD", "/src/" ++ ctx.fullCmd), ("DS_TASK_PATH", "/src/" ++ ctx.path)])
        (some "/vm-work/staging"))
  | .target =>
      some (task.taskEnv names (Dict.update ∅ [("DS_TASK_CMD", "/src/" ++ ctx.fullCmd)]) none)

/-- The staging root of the environments that name one. -/
def TaskContext.stagingRoot (ctx : TaskContext) : CmdType → Option String
  | .host | .packagelist | .packagelistCross => some ctx.staging
  | .vm | .cross => some "/vm-work/staging"
  | .target | .dummy => none

/-! ## The environment in the VM -/

/-- The variables that `vm_env` takes from the host. -/
def isExportedName (name : String) : Bool :=
  "CONFIG_".toList.isPrefixOf name.toList || "DS_".toList.isPrefixOf name.toList

/-- The variables that `vm_env` sets itself, before those of the host and again behind them. -/
def vmPaths : List (String × String) := [("DS_HOST_ROOT_PATH", "/src"), ("DS_CACHE", "/cache"),
  ("DS_DL", "/dl"), ("DS_PYTHON_VENV", "/opt/distro-seed/venv"), ("DS_WORK", "/work"),
  ("DS_TARGET_ROOTFS", "/vm-work/rootfs")]

/-- `vm_env`; without `extra` it is empty. `literal` makes values of the fixed ones. -/
def vmEnv {υ : Type*} (literal : String → υ) (environ extra : Dict String υ) : Dict String υ :=
  let paths := vmPaths.map fun item => (item.1, literal item.2)
  let env : Dict String υ := Dict.update ∅ paths
  let env := env.update (environ.items.filter fun item => isExportedName item.1)
  let env := env.update paths
  env.update extra.items

/-- `value.replace("'", "'"'"'")`. -/
def escapeQuotes (value : List ℕ) : List ℕ :=
  value.flatMap fun c => if c = '\''.toNat then codePoints "'\"'\"'" else [c]

/-- A line of `_env_exports`. -/
def exportLine (item : String × List ℕ) : List ℕ :=
  codePoints ("export " ++ item.1 ++ "='") ++ escapeQuotes item.2 ++ codePoints "'"

/-- `_env_exports`. -/
def envExports (env : PyEnv) : List ℕ :=
  (codePoints "\n").intercalate ((sortedBy Prod.fst env.items).map exportLine)

/-- What a shell does with a text that sets variables and runs nothing else; other texts are left
open. -/
def shellSets (text : String) (env : Env) : Option Env :=
  (ShellWords.settings text.toList).map fun settings =>
    Dict.update env (settings.map fun setting => (String.ofList setting.1, String.ofList setting.2))

end DistroSeed
