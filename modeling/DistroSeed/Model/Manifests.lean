import DistroSeed.Model.Build

/-! The manifests that are enabled in every configuration, and those of the distros. -/

namespace DistroSeed

/-- A `manifest.yaml`, with the fields that the scheduler reads. -/
structure Manifest where
  config : String
  tasks : List TaskManifest
deriving DecidableEq, Repr

def loadTasksFromManifest (manifest : Manifest) : List Task :=
  manifest.tasks.map (Task.ofManifest manifest.config)

/-- The `i`-th task of a manifest. -/
def Manifest.task (manifest : Manifest) (i : ℕ) (h : i < manifest.tasks.length := by decide) :
    Task := Task.ofManifest manifest.config manifest.tasks[i]

/-! ## tasks/core -/

def cleanWork : Manifest where
  config := "DS_CORE_CLEAN_WORK"
  tasks := [{ cmd := "clean.sh", cmdType := .host, autoCreateRdepends := true }]

def createWork : Manifest where
  config := "DS_CORE_CREATE_WORK"
  tasks := [{ cmd := "create.sh", cmdType := .host, dependencies := ["DS_CORE_CLEAN_WORK"],
              provides := "DS_WORK_READY", autoCreateRdepends := true }]

def buildVm : Manifest where
  config := "DS_CORE_BUILD_VM"
  tasks := [{ cmd := "build_vm.sh", cmdType := .host, dependencies := ["DS_WORK_READY"],
              provides := "DS_VM_IMAGE_READY", autoCreateRdepends := true }]

def vmReady : Manifest where
  config := "DS_CORE_VM_READY"
  tasks := [{ cmd := "start_vm.py", cmdType := .host, dependencies := ["DS_VM_IMAGE_READY"],
              provides := "DS_VM_READY", autoCreateRdepends := true }]

def packagelistCrossPrep : Manifest where
  config := "DS_CORE_PACKAGELIST_CROSS_PREP"
  tasks := [{ cmdType := .dummy, dependencies := ["DS_WORK_READY"],
              provides := "DS_PACKAGELIST_CROSS_PREP" }]

def crossReady : Manifest where
  config := "DS_CROSS_READY"
  tasks := [{ cmd := "setup-cross.sh", cmdType := .vm,
              dependencies := ["DS_VM_READY", "DS_PACKAGELIST_CROSS_PREP"],
              provides := "DS_CROSS_READY" }]

def packagelistPrep : Manifest where
  config := "DS_CORE_PACKAGELIST_PREP"
  tasks := [{ cmdType := .dummy, dependencies := ["DS_WORK_READY"] }]

def packagelistReady : Manifest where
  config := "DS_CORE_PACKAGELIST"
  tasks := [{ cmdType := .dummy, dependencies := ["DS_CORE_PACKAGELIST_PREP"],
              autoCreateRdepends := true }]

def localPackages : Manifest where
  config := "DS_TARGET_LOCAL_PACKAGES"
  tasks := [{ cmd := "build-packages.sh", cmdType := .vm,
              dependencies := ["DS_VM_READY", "DS_DISTRO_ROOTFS"],
              provides := "DS_TARGET_LOCAL_PACKAGES_BUILT", autoCreateRdepends := true },
            { cmd := "install-packages.sh", cmdType := .vm,
              dependencies := ["DS_TARGET_LOCAL_PACKAGES_BUILT"],
              provides := "DS_TARGET_ROOTFS_COMBINED", autoCreateRdepends := true }]

def chrootPrep : Manifest where
  config := "DS_TARGET_CHROOT_PREP"
  tasks := [{ cmd := "chroot_prep.sh", cmdType := .vm,
              dependencies := ["DS_TARGET_ROOTFS_COMBINED"],
              provides := "DS_TARGET_CHROOT_EARLY", autoCreateRdepends := true }]

def aptFinishInstall : Manifest where
  config := "DS_TARGET_APT_CONFIGURED"
  tasks := [{ cmd := "apt_finish_install.sh", cmdType := .target,
              dependencies := ["DS_TARGET_CHROOT_EARLY"],
              provides := "DS_TARGET_CHROOT_APT", autoCreateRdepends := true }]

def setTemporaryResolv : Manifest where
  config := "DS_SET_TEMPORARY_RESOLV"
  tasks := [{ cmd := "set.sh", cmdType := .target,
              dependencies := ["DS_TARGET_APT_CONFIGURED"] }]

def chrootReady : Manifest where
  config := "DS_TARGET_CHROOT_READY"
  tasks := [{ cmdType := .dummy, dependencies := ["DS_TARGET_CHROOT_APT"],
              autoCreateRdepends := true }]

def chrootLate : Manifest where
  config := "DS_TARGET_CHROOT_LATE"
  tasks := [{ cmd := "apt_update.sh", cmdType := .target,
              dependencies := ["DS_TARGET_CHROOT_READY"], autoCreateRdepends := true }]

def chrootClean : Manifest where
  config := "DS_TARGET_CHROOT_CLEAN"
  tasks := [{ cmd := "chroot_clean.sh", cmdType := .vm,
              dependencies := ["DS_TARGET_CHROOT_LATE"],
              provides := "DS_TARGET_ROOTFS_CLEANED", autoCreateRdepends := true }]

def rootfsIdentification : Manifest where
  config := "DS_TARGET_ROOTFS_IDENTIFIABLE"
  tasks := [{ cmd := "add_version_sums.sh", cmdType := .vm,
              dependencies := ["DS_TARGET_ROOTFS_CLEANED"],
              provides := "DS_TARGET_ROOTFS_IDENTIFICATION", autoCreateRdepends := true }]

def rootfsReady : Manifest where
  config := "DS_TARGET_ROOTFS_READY"
  tasks := [{ cmdType := .dummy, dependencies := ["DS_TARGET_ROOTFS_IDENTIFIABLE"],
              autoCreateRdepends := true }]

def imagesGenerated : Manifest where
  config := "DS_TARGET_IMAGES_READY"
  tasks := [{ cmdType := .dummy, dependencies := ["DS_TARGET_ROOTFS_READY"],
              autoCreateRdepends := true }]

/-! ## tasks/distros -/

def packagelistAppend : Manifest where
  config := "DS_TARGET_PACKAGELIST_EXTRA"
  tasks := [{ cmd := "packages.sh", cmdType := .packagelist }]

def installLatePackages : Manifest where
  config := "DS_TARGET_LATE_PACKAGES_INSTALL"
  tasks := [{ cmd := "install.sh", cmdType := .target,
              dependencies := ["DS_TARGET_CHROOT_LATE"] }]

/-- The five distro manifests, which differ in their config only. -/
inductive Distro where
  | bullseye
  | bookworm
  | trixie
  | jammy
  | noble
deriving DecidableEq, Repr

def Distro.config : Distro → String
  | bullseye => "DS_DISTRO_DEBIAN_11"
  | bookworm => "DS_DISTRO_DEBIAN_12"
  | trixie => "DS_DISTRO_DEBIAN_13"
  | jammy => "DS_DISTRO_UBUNTU_22_04"
  | noble => "DS_DISTRO_UBUNTU_24_04"

def Distro.manifest (distro : Distro) : Manifest where
  config := distro.config
  tasks := [{ cmd := "../../build.sh", cmdType := .vm, dependencies := ["DS_CORE_PACKAGELIST"],
              provides := "DS_DISTRO_ROOTFS" },
            { cmd := "sourceslist.sh", cmdType := .host }]

/-- The manifests that `tasks/core/Kconfig` enables in every configuration. -/
def coreManifests : List Manifest := [cleanWork, createWork, buildVm, vmReady,
  packagelistCrossPrep, crossReady, packagelistPrep, packagelistReady, localPackages, chrootPrep,
  aptFinishInstall, setTemporaryResolv, chrootReady, chrootLate, chrootClean,
  rootfsIdentification, rootfsReady, imagesGenerated, packagelistAppend, installLatePackages]

/-- The tasks of every configuration for this distro, as the manifests declare them. -/
def baseTasks (distro : Distro) : List Task :=
  (coreManifests ++ [distro.manifest]).flatMap loadTasksFromManifest

end DistroSeed
