import DistroSeed.Library.Scripts
import DistroSeed.Model.Manifests
import Mathlib.Data.Finset.Filter
import Mathlib.Data.Finset.Insert

/-! The rootfs of the target in the VM: what the tasks of a build mount below it, put into it and
delete from it. -/

namespace DistroSeed

open Scripts

/-- The directories of the rootfs that get a mount. -/
inductive RootMount where
  | proc
  | sys
  | dev
  | devPts
deriving DecidableEq, Repr

def RootMount.path : RootMount → List String
  | proc => ["proc"]
  | sys => ["sys"]
  | dev => ["dev"]
  | devPts => ["dev", "pts"]

/-- The mounts below the rootfs, and the files and directories of the rootfs itself. -/
structure TargetRoot where
  mounts : Finset RootMount
  files : Finset (List String)
deriving DecidableEq

/-- What the scripts find outside of the rootfs: the distro of the build, where `which` finds
`DS_QEMU_STATIC` (in some directory, and not in one that is mounted), and the packages in the order
in which they are installed. -/
structure TargetBuild where
  distro : Distro
  qemuStatic : List String
  packages : List String
  nested : 2 ≤ qemuStatic.length
  notMounted : ∀ dir : RootMount, ¬ dir.path <+: qemuStatic

/-- The commands of the scripts. A `chroot` runs something in the rootfs, and `other` stands for the
further commands that write to it. -/
inductive RootCommand where
  | startTask (task : Task)
  | clear
  | mount (dir : RootMount)
  | umount (dir : RootMount)
  | create (path : List String)
  | remove (path : List String)
  | removeGlob (dir : List String) (suffix : String)
  | chroot (name : String)
  | other (name : String)
deriving DecidableEq, Repr

namespace TargetRoot

open RootCommand

/-! ## Scripts -/

/-- `mount-target.sh`. -/
def mountTarget : List RootCommand :=
  [other "install", mount .proc, mount .sys, mount .dev, create ["dev", "pts"], mount .devPts]

/-- `run-target-task.sh`. -/
def runTargetTask (task : Task) : List RootCommand :=
  mountTarget ++ [create ["run_in_chroot"], create ["tmp", "ds-env"], chroot task.cmd,
    remove ["run_in_chroot"], remove ["tmp", "ds-env"]]

/-- `tasks/distros/build.sh`. -/
def buildRootfs : List RootCommand :=
  [other "install", clear, other "mmdebstrap", remove ["etc", "apt", "sources.list"]]

def targetPackageDir : List String := ["tmp", "distro-seed-packages"]

/-- The loop of `install-packages.sh`. -/
def installPackage (package : String) : List RootCommand :=
  [create (targetPackageDir ++ [package]), chroot "dpkg"]

/-- `install-packages.sh`. -/
def installPackages (build : TargetBuild) : List RootCommand :=
  if build.packages = [] then []
  else
    mountTarget ++ [create build.qemuStatic, create ["dev", "zero"], create ["dev", "null"],
      remove targetPackageDir, create targetPackageDir] ++
    build.packages.flatMap installPackage ++ [other "depmod", remove targetPackageDir]

/-- `chroot_prep.sh`. -/
def chrootPrep (build : TargetBuild) : List RootCommand :=
  [create build.qemuStatic, create ["dev", "zero"], create ["dev", "null"], other "resolv.conf"]

/-- `chroot_clean.sh`. -/
def chrootClean (build : TargetBuild) : List RootCommand :=
  [remove build.qemuStatic, umount .dev, umount .sys, umount .proc, removeGlob ["dev"] "",
    removeGlob ["tmp"] "", removeGlob ["run"] "", removeGlob ["var", "lib", "apt", "lists"] "",
    removeGlob ["var", "cache", "apt"] ".bin", remove ["etc", "apt", "apt.conf.d", "99mmdebstrap"]]

/-- `add_version_sums.sh`. -/
def addVersionSums : List RootCommand := [create ["root.version"], create ["md5sums.txt"]]

/-- The task is this entry of a manifest, whatever number it has. -/
def isEntry (entry task : Task) : Bool := { task with id := 0 } = entry

/-- What a task does to the rootfs. The tasks that are not listed leave it alone. -/
def taskScript (build : TargetBuild) (task : Task) : List RootCommand :=
  if task.cmdType = .target then runTargetTask task
  else if isEntry (build.distro.manifest.task 0 Nat.two_pos) task then buildRootfs
  else if isEntry (localPackages.task 1 Nat.one_lt_two) task then installPackages build
  else if isEntry (DistroSeed.chrootPrep.task 0 Nat.one_pos) task then chrootPrep build
  else if isEntry (DistroSeed.chrootClean.task 0 Nat.one_pos) task then chrootClean build
  else if isEntry (rootfsIdentification.task 0 Nat.one_pos) task then addVersionSums
  else []

/-! ## Commands -/

/-- The name matches `*` followed by the suffix. -/
def globMatches (suffix name : String) : Bool :=
  name.toList.head? ≠ some '.' && suffix.toList.isSuffixOf name.toList

/-- A path at or below a match of the pattern in the directory. -/
def belowGlob (dir : List String) (suffix : String) (path : List String) : Bool :=
  dir.isPrefixOf path && (path.drop dir.length).head?.any (globMatches suffix)

/-- The path is in a mounted file system. -/
def hides (s : TargetRoot) (path : List String) : Prop := ∃ dir ∈ s.mounts, dir.path <+: path

instance (s : TargetRoot) (path : List String) : Decidable (s.hides path) :=
  inferInstanceAs (Decidable (∃ dir ∈ s.mounts, dir.path <+: path))

/-- What a command does that starts no task. A mount of `/dev` takes that of `/dev/pts` with it when
it is removed, and what is done below a mount is not done to the rootfs. -/
def step (effect : String → Finset (List String) → Finset (List String)) (s : TargetRoot) :
    RootCommand → TargetRoot
  | startTask _ => s
  | clear => { s with files := ∅ }
  | mount dir => { s with mounts := insert dir s.mounts }
  | umount dir =>
      if dir ∈ s.mounts then { s with mounts := s.mounts.filter fun other => ¬ dir.path <+: other.path }
      else s
  | create path => if s.hides path then s else { s with files := insert path s.files }
  | remove path =>
      if s.hides path then s else { s with files := s.files.filter fun file => ¬ path <+: file }
  | removeGlob dir suffix =>
      if s.hides dir then s
      else { s with files := s.files.filter fun file => ¬ belowGlob dir suffix file }
  | chroot name | other name => { s with files := effect name s.files }

/-- `find "$INSTALL" -mindepth 1 -xdev -exec rm -rf {} +` names the mount points too, which cannot
be removed. A command that fails may leave anything. -/
def language (build : TargetBuild)
    (effect : String → Finset (List String) → Finset (List String)) :
    Language TargetRoot RootCommand where
  run
    | startTask task, s => some (s, taskScript build task)
    | clear, s => if s.mounts = ∅ then some (s.step effect clear, []) else none
    | cmd, s => some (s.step effect cmd, [])
  Fails _ _ _ := True

/-- Builds of the scheduled tasks, each cut short anywhere and each in a VM that has nothing mounted
below the rootfs yet. -/
def scenario (build : TargetBuild)
    (effect : String → Finset (List String) → Finset (List String)) (schedule : List Task) :
    Scenario TargetRoot RootCommand where
  lang := language build effect
  Start script s := script = schedule.map startTask ∧ s.mounts = ∅
  Change _ _ := True
  MayRun _ _ := True
  MayStop _ _ := True

end TargetRoot

end DistroSeed
