import DistroSeed.Library.Scripts

/-! The disk images of the VM: `build_vm.sh` with its cache, the images in `work/qemu-host`, and
the sessions that boot from them. -/

namespace DistroSeed

open Scripts

/-- An installed system disk: what `tasks/core/build_vm` had in it, and which run of the installer
has written it. -/
structure VmImage (Sources : Type*) where
  installedFrom : Sources
  install : ℕ
deriving DecidableEq, Repr

/-- The files that decide what the VM boots from. `cachedImage` and `cachedKey` are `vm-base.qcow2`
and `vm-base.key`, `base` is `base.qcow2`, and `runtime` is the content of `base.qcow2` on top of
which `runtime.qcow2` was created. `running` is what `is_running` answers, and `owned` whether the
process in `distro-seed.pid` is alive. -/
structure VmStore (Sources : Type*) where
  sources : Sources
  installs : ℕ
  cachedImage : Option (VmImage Sources)
  cachedKey : Option String
  buildImage : Option (VmImage Sources)
  base : Option (VmImage Sources)
  runtime : Option (VmImage Sources)
  running : Bool
  owned : Bool
deriving DecidableEq, Repr

/-- The commands of `build_vm.sh` and of the sessions. `vmExits` is the VM that stops on its own,
and `other` stands for the commands that leave the images alone. -/
inductive VmCommand where
  | removeWork
  | buildVmSh
  | createDisk
  | install
  | moveToCache
  | writeKey (key : String)
  | copyToBase
  | ensureVmImage
  | startVm
  | runtimeImage
  | boot
  | stopVm
  | vmExits
  | other
deriving DecidableEq, Repr

namespace VmStore

open VmCommand

variable {Sources : Type*} (cacheKey : Sources → String)

/-! ## build_vm.sh -/

/-- The image in the cache has the key of the sources. -/
def cacheHit (s : VmStore Sources) : Bool :=
  s.cachedKey = some (cacheKey s.sources) && s.cachedImage.isSome

def buildVmCalls (s : VmStore Sources) : List VmCommand :=
  if s.cacheHit cacheKey then [copyToBase]
  else [createDisk, install, moveToCache, writeKey (cacheKey s.sources), copyToBase]

/-! ## vm.py -/

/-- `ensure_vm_image`. -/
def ensureVmImageCalls (s : VmStore Sources) : List VmCommand := if s.running then [] else [buildVmSh]

/-- `cleanup_abandoned_vm`: a VM without a living owner is killed. -/
def cleanupAbandonedVm (s : VmStore Sources) : VmStore Sources :=
  if s.running && !s.owned then { s with running := false } else s

/-- `start_vm` behind the clean-up. -/
def startVmCalls (s : VmStore Sources) : List VmCommand := if s.running then [] else [runtimeImage, boot]

/-- The commands by their names in the source: `removeWork` is `rm -rf "$DS_WORK"`, `createDisk` the
`qemu-img create` and `install` the installer in `build_vm.sh`, and `runtimeImage` is
`_runtime_image`. -/
def language : Language (VmStore Sources) VmCommand where
  run
    | removeWork, s => some ({ s with
        buildImage := none, base := none, runtime := none, running := false, owned := false }, [])
    | buildVmSh, s => some (s, s.buildVmCalls cacheKey)
    | createDisk, s => some ({ s with buildImage := none }, [])
    | install, s => some ({ s with
        buildImage := some ⟨s.sources, s.installs⟩, installs := s.installs + 1 }, [])
    | moveToCache, s => s.buildImage.map fun image =>
        ({ s with cachedImage := some image, buildImage := none }, [])
    | writeKey key, s => some ({ s with cachedKey := some key }, [])
    | copyToBase, s => s.cachedImage.map fun image => ({ s with base := some image }, [])
    | ensureVmImage, s => some (s, s.ensureVmImageCalls)
    | startVm, s => some (s.cleanupAbandonedVm, s.cleanupAbandonedVm.startVmCalls)
    | runtimeImage, s => s.base.map fun image =>
        ({ s with runtime := some (s.runtime.getD image) }, [])
    | boot, s => some ({ s with running := true, owned := true }, [])
    | stopVm, s => some ({ s with running := false, owned := false }, [])
    | vmExits, s => some ({ s with running := false }, [])
    | other, s => some (s, [])
  Fails _ _ _ := False

/-! ## Sessions -/

/-- What a session does once the image is there: every task in the VM calls `start_vm` first. -/
def IsTasks (tasks : List VmCommand) : Prop := ∀ cmd ∈ tasks, cmd ∈ [startVm, vmExits, other]

/-- A build cleans the work directory first; when it exits, it runs `stop_vm`. -/
def buildSession (tasks : List VmCommand) : List VmCommand :=
  [removeWork, other, buildVmSh] ++ tasks ++ [stopVm]

/-- `make vm-shell`, `make cross-shell` and `make target-shell`. -/
def shellSession (tasks : List VmCommand) : List VmCommand := ensureVmImage :: startVm :: tasks

/-- Runs of `build_vm.sh` alone; between them the cache is left alone. -/
def buildVmScenario (mayStop : List VmCommand → VmStore Sources → Prop) :
    Scenario (VmStore Sources) VmCommand where
  lang := language cacheKey
  Start script _ := script = [buildVmSh]
  Change s s' := s'.cachedImage = s.cachedImage ∧ s'.cachedKey = s.cachedKey
  MayRun _ _ := True
  MayStop := mayStop

/-- Builds, dry runs, shells and `make clean`; between them the sources are edited, the cache is
removed or replaced, the VM stops, or its owner ends. -/
def sessionScenario (mayRun : VmCommand → VmStore Sources → Prop) :
    Scenario (VmStore Sources) VmCommand where
  lang := language cacheKey
  Start script _ := (∃ tasks, IsTasks tasks ∧ (script = buildSession tasks ∨ script = shellSession tasks)) ∨
    script = [stopVm] ∨ script = [removeWork]
  Change s s' := s'.base = s.base ∧ s'.runtime = s.runtime
  MayRun := mayRun
  MayStop _ _ := True

end VmStore

end DistroSeed
