import DistroSeed.Library.Outcome
import DistroSeed.Model.Task

/-! The default dependencies that `build.py` gives to tasks which declare none. -/

namespace DistroSeed

/-- The error branch of the loop over the tasks. -/
inductive BuildError where
  | invalidTaskType (config : String)
deriving DecidableEq, Repr

/-- The name that a task of this type waits for by default. -/
def defaultDependency : CmdType → Option String
  | .host => some "DS_WORK_READY"
  | .vm => some "DS_VM_READY"
  | .cross => some "DS_CROSS_READY"
  | .target => some "DS_TARGET_CHROOT_READY"
  | .packagelist => some "DS_CORE_PACKAGELIST_PREP"
  | .packagelistCross => some "DS_PACKAGELIST_CROSS_PREP"
  | .dummy => none

/-- One turn of the loop; `DS_CORE_CLEAN_WORK` alone keeps an empty list. -/
def setDefaultDependencies (task : Task) : Outcome BuildError Task :=
  if task.dependencies ≠ [] then .returned task
  else if task.config = "DS_CORE_CLEAN_WORK" then .returned task
  else
    match defaultDependency task.cmdType with
    | some dep => .returned { task with dependencies := [dep] }
    | none => .raised (.invalidTaskType task.config)

def setAllDefaultDependencies (tasks : List Task) : Outcome BuildError (List Task) :=
  tasks.mapM setDefaultDependencies

end DistroSeed
