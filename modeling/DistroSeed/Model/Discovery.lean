import DistroSeed.Model.Manifests
import DistroSeed.Model.TaskManager

/-! `build.py` from the manifests that the glob delivers to the schedule. -/

namespace DistroSeed

/-- What ends the build before its first task. -/
inductive ScheduleError where
  | build (e : BuildError)
  | sort (e : SortError)
deriving DecidableEq, Repr

/-- The tasks of the manifests, in the order in which the glob delivers them, without those whose
config is not enabled. -/
def discoverTasks (enabled : String → Bool) (manifests : List Manifest) : List Task :=
  (manifests.flatMap loadTasksFromManifest).filter fun task => enabled task.config

def scheduleManifests (nx : SimpleCycles) (fuel : ℕ) (enabled : String → Bool)
    (manifests : List Manifest) : Outcome ScheduleError (List Task) := do
  let tasks ← (setAllDefaultDependencies (discoverTasks enabled manifests)).mapError .build
  (sort nx fuel tasks).mapError .sort

end DistroSeed
