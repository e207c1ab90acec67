import DistroSeed.Library.Scripts
import DistroSeed.Model.Files

/-! The cross root in the VM: what `setup-cross.sh` and `run-cross-task.sh` mount below it, and
when they delete it. -/

namespace DistroSeed

open Scripts

/-- The directories that `run-cross-task.sh` mounts into the cross root. -/
inductive SharedDir where
  | cache
  | dl
  | work
  | src
  | vmWork
deriving DecidableEq, Repr

/-- The directories below `CROSS_ROOT` that get a mount. -/
inductive MountDir where
  | proc
  | sys
  | dev
  | devPts
  | shared (dir : SharedDir)
deriving DecidableEq, Repr

/-- The order of the loop in `run-cross-task.sh`. -/
def SharedDir.all : List SharedDir := [cache, dl, work, src, vmWork]

def MountDir.all : List MountDir := [proc, sys, dev, devPts] ++ SharedDir.all.map shared

/-- `DS_DISTRO`, `DS_RELEASE` and `DS_TARGET_ARCH`. -/
structure CrossEnv where
  distro : String
  release : String
  targetArch : String
deriving DecidableEq, Repr

/-- The file name of `STAMP`. -/
def CrossEnv.stamp (env : CrossEnv) : String :=
  ".distro-seed-cross-" ++ env.distro ++ "-" ++ env.release ++ "-" ++ env.targetArch

/-- The mount points below the cross root, each with the variables of the run that mounted it,
the stamp files in the cross root, and what the shared directories have in them. -/
structure CrossRoot (Content : Type*) where
  mounts : MountDir → Option CrossEnv
  stamps : Finset String
  shared : SharedDir → Directory Content

/-- The commands of the two scripts. `other` stands for the commands that leave the mounts and
the stamps alone; some of them write to the shared directories. -/
inductive CrossCommand where
  | setupCross (env : CrossEnv)
  | mount (dir : MountDir) (env : CrossEnv)
  | umount (dir : MountDir)
  | removeRoot
  | touchStamp (env : CrossEnv)
  | other (name : String)
deriving DecidableEq, Repr

namespace CrossRoot

open CrossCommand

variable {Content : Type*}

/-- `mountpoint -q` for some directory below the cross root. -/
def hasMount (s : CrossRoot Content) : Bool := MountDir.all.any fun dir => (s.mounts dir).isSome

/-! ## setup-cross.sh -/

def mountCrossRuntime (env : CrossEnv) : List CrossCommand :=
  [other "mkdir", mount .proc env, mount .sys env, mount .dev env, mount .devPts env]

def unmountCrossRuntime : List CrossCommand :=
  [umount .devPts, umount .dev, umount .sys, umount .proc]

/-- The script without a stamp of its own. -/
def createCrossRoot (env : CrossEnv) : List CrossCommand :=
  [other "load_distro_cross_setup", other "collect_packages", other "setup_cross_tools",
    other "declare"] ++ unmountCrossRuntime ++
  [removeRoot, other "mkdir", other "mmdebstrap"] ++ mountCrossRuntime env ++
  [other "dpkg", other "install", other "write_cross_sources", other "apt-get", other "ln",
    other "cat", touchStamp env]

def setupCrossCalls (env : CrossEnv) (s : CrossRoot Content) : List CrossCommand :=
  if env.stamp ∈ s.stamps then mountCrossRuntime env else createCrossRoot env

/-! ## run-cross-task.sh -/

def mountShared (env : CrossEnv) (dir : SharedDir) : List CrossCommand :=
  [other "mkdir", mount (.shared dir) env]

def runCrossTask (env : CrossEnv) : List CrossCommand :=
  [setupCross env, other "sync-staging.sh", other "mkdir"] ++
  SharedDir.all.flatMap (mountShared env) ++
  [other "rm", other "mkdir", other "export", other "chroot", other "stage-package-input.sh",
    other "rm"]

/-! ## Commands -/

/-- `mountpoint -q "$dir" || mount ... "$dir"`. -/
def mountDir (dir : MountDir) (env : CrossEnv) (s : CrossRoot Content) : CrossRoot Content :=
  if (s.mounts dir).isSome then s else { s with mounts := Function.update s.mounts dir env }

/-- `if mountpoint -q "$dir"; then umount "$dir"; fi`. -/
def umountDir (dir : MountDir) (s : CrossRoot Content) : CrossRoot Content :=
  { s with mounts := Function.update s.mounts dir none }

/-- `effect` is what the other commands do to the shared directories. A mount point cannot be
removed, so `rm -rf "$CROSS_ROOT"` succeeds only without one; until it fails it has deleted some
of what it found in the cross root and in what is mounted there. -/
def language (effect : String → (SharedDir → Directory Content) → SharedDir → Directory Content) :
    Language (CrossRoot Content) CrossCommand where
  run
    | setupCross env, s => some (s, s.setupCrossCalls env)
    | mount dir env, s => some (s.mountDir dir env, [])
    | umount dir, s => some (s.umountDir dir, [])
    | removeRoot, s => if s.hasMount then none else some ({ s with stamps := ∅ }, [])
    | touchStamp env, s => some ({ s with stamps := insert env.stamp s.stamps }, [])
    | other name, s => some ({ s with shared := effect name s.shared }, [])
  Fails
    | removeRoot, s, s' => s'.mounts = s.mounts ∧ s'.stamps ⊆ s.stamps ∧
        ∀ dir, s.mounts (.shared dir) = none → s'.shared dir = s.shared dir
    | other _, s, s' => s'.mounts = s.mounts ∧ s'.stamps = s.stamps
    | _, _, _ => False

/-! ## One boot of the VM -/

/-- A script that the host has the VM run: `setup-cross.sh` on its own, or a cross task. -/
inductive Invocation where
  | setup (env : CrossEnv)
  | task (env : CrossEnv)
deriving DecidableEq, Repr

def Invocation.env : Invocation → CrossEnv
  | setup env | task env => env

def Invocation.script : Invocation → List CrossCommand
  | setup env => [setupCross env]
  | task env => runCrossTask env

/-- The invocations for which `may` holds, each cut short anywhere; between them the shared
directories change in any way. -/
def scenario (effect : String → (SharedDir → Directory Content) → SharedDir → Directory Content)
    (may : Invocation → CrossRoot Content → Prop) : Scenario (CrossRoot Content) CrossCommand where
  lang := language effect
  Start script s := ∃ invocation, script = invocation.script ∧ may invocation s
  Change s s' := s'.mounts = s.mounts ∧ s'.stamps = s.stamps
  MayRun _ _ := True
  MayStop _ _ := True

end CrossRoot

end DistroSeed
