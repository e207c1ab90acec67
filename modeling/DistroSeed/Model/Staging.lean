import Mathlib.Data.List.AList
import DistroSeed.Model.Files
import DistroSeed.Model.Task

/-! The copies of the configs' `DS_TASK_WORK`, and what the runs of tasks do to them. -/

namespace DistroSeed

/-- `work/staging` on the host, `work/staging-archives`, and `/vm-work/staging` in the VM;
on the host a directory that does not exist yet has nothing in it. -/
structure Staging (Content Archive : Type*) where
  host : String → Directory Content
  archives : AList fun _ : String => Archive
  vm : String → Option (Directory Content)

/-- A task as it is run: what its command does to `DS_TASK_WORK` on the host if it runs there,
and to the directories of all configs in the VM if it runs there. -/
structure TaskRun (Content : Type*) where
  config : String
  cmdType : CmdType
  onHost : Directory Content → Directory Content
  inVm : (String → Option (Directory Content)) → String → Option (Directory Content)

/-- The types of the tasks whose commands run on the host. -/
def CmdType.isHostSide : CmdType → Bool
  | .host | .packagelist | .packagelistCross => true
  | .vm | .cross | .target | .dummy => false

/-- The types of the tasks whose commands find `/vm-work/staging`. -/
def CmdType.isInVm : CmdType → Bool
  | .vm | .cross => true
  | .host | .packagelist | .packagelistCross | .target | .dummy => false

namespace Staging

variable {Content Archive : Type*} (tar : Tar Content Archive)

/-- Before the first task of a build. -/
def start : Staging Content Archive where
  host := fun _ => ∅
  archives := ∅
  vm := fun _ => none

/-- `_stage_host_staging`. -/
def stageHostStaging (config : String) (s : Staging Content Archive) : Staging Content Archive :=
  if !(s.host config).hasEntries then s
  else { s with archives := s.archives.insert config (tar.create (s.host config)) }

/-- One turn of the loop of `sync-staging.sh`. -/
def syncArchive (vm : String → Option (Directory Content)) (archive : Sigma fun _ : String => Archive) :
    String → Option (Directory Content) :=
  if (vm archive.1).isSome then vm
  else Function.update vm archive.1 (some (tar.extract archive.2))

/-- `sync-staging.sh`. -/
def syncStaging (s : Staging Content Archive) : Staging Content Archive :=
  { s with vm := s.archives.entries.foldl (syncArchive tar) s.vm }

/-- `mkdir -p "${DS_TASK_WORK}"`. -/
def makeTaskWork (config : String) (s : Staging Content Archive) : Staging Content Archive :=
  { s with vm := Function.update s.vm config (some ((s.vm config).getD ∅)) }

end Staging

namespace TaskRun

variable {Content Archive : Type*} (tar : Tar Content Archive)

/-- Where the command of a vm or cross task starts. -/
def commandStart (r : TaskRun Content) (s : Staging Content Archive) : Staging Content Archive :=
  (s.syncStaging tar).makeTaskWork r.config

/-- `Task.run`, the staging directories only. -/
def run (r : TaskRun Content) (s : Staging Content Archive) : Staging Content Archive :=
  match r.cmdType with
  | .host | .packagelist | .packagelistCross =>
      Staging.stageHostStaging tar r.config
        { s with host := Function.update s.host r.config (r.onHost (s.host r.config)) }
  | .vm | .cross => { r.commandStart tar s with vm := r.inVm (r.commandStart tar s).vm }
  | .target | .dummy => s

/-- A build runs its tasks one after another. -/
def runAll (runs : List (TaskRun Content)) (s : Staging Content Archive) :
    Staging Content Archive :=
  runs.foldl (fun s r => r.run tar s) s

end TaskRun

end DistroSeed
