import Mathlib.Data.String.Basic

/-! Manifest entries and tasks, with the fields the scheduler and the packaging read. -/

namespace DistroSeed

/-- The values `load_tasks_from_manifest` accepts for `cmd_type`. -/
inductive CmdType where
  | host
  | vm
  | cross
  | target
  | dummy
  | packagelist
  | packagelistCross
deriving DecidableEq, Repr

/-- One entry of a manifest's `tasks` list; absent fields take the loader's defaults. -/
structure TaskManifest where
  cmdType : CmdType
  cmd : String := ""
  dependencies : List String := []
  provides : String := ""
  autoCreateRdepends : Bool := false
  manifestVersion : String := ""
  pkgVersion : String := ""
deriving DecidableEq, Repr

structure Task where
  id : ℕ := 0
  config : String
  dependencies : List String := []
  provides : String := ""
  cmdType : CmdType
  cmd : String := ""
  autoCreateRdepends : Bool := false
  manifestVersion : String := ""
  pkgVersion : String := ""
deriving DecidableEq, Repr

/-- `Task.__init__`: a task starts without a number. -/
def Task.ofManifest (config : String) (manifest : TaskManifest) : Task where
  config := config
  dependencies := manifest.dependencies
  provides := manifest.provides
  cmdType := manifest.cmdType
  cmd := manifest.cmd
  autoCreateRdepends := manifest.autoCreateRdepends
  manifestVersion := manifest.manifestVersion
  pkgVersion := manifest.pkgVersion

/-- A dependency name selects a task by its config or by what it provides. -/
def Task.matches (subtask : Task) (dep : String) : Bool :=
  subtask.config = dep || subtask.provides = dep

/-- `for i, task in enumerate(tasks, start=1): task.id = i`. -/
def number (tasks : List Task) : List Task :=
  tasks.mapIdx fun i task => { task with id := i + 1 }

end DistroSeed
