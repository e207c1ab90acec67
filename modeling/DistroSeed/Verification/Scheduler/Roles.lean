import DistroSeed.Model.Manifests
import DistroSeed.Verification.Scheduler.NearestBarrier
import Mathlib.Data.Fintype.Defs
import Mathlib.Data.Fintype.Basic

/-! The roles of the tasks in a build: one for each task that every configuration has,
and one for each type of task that waits for the default dependency of its type. -/

namespace DistroSeed

open Chains Relation

/-- The tasks with declared dependencies that every configuration has. -/
inductive CoreRole where
  | cleanWork
  | createWork
  | buildVm
  | vmReady
  | packagelistCrossPrep
  | crossReady
  | packagelistPrep
  | packagelistReady
  | rootfs
  | buildPackages
  | installPackages
  | chrootPrep
  | aptFinishInstall
  | setTemporaryResolv
  | chrootReady
  | chrootLate
  | installLatePackages
  | chrootClean
  | rootfsIdentification
  | rootfsReady
  | imagesGenerated
deriving DecidableEq, Repr

/-- All core roles. -/
def CoreRole.all : List CoreRole :=
  [cleanWork, createWork, buildVm, vmReady, packagelistCrossPrep, crossReady, packagelistPrep,
    packagelistReady, rootfs, buildPackages, installPackages, chrootPrep, aptFinishInstall,
    setTemporaryResolv, chrootReady, chrootLate, installLatePackages, chrootClean,
    rootfsIdentification, rootfsReady, imagesGenerated]

def CmdType.all : List CmdType := [host, vm, cross, target, dummy, packagelist, packagelistCross]

instance : Fintype CoreRole :=
  Fintype.ofList CoreRole.all (by intro role; cases role <;> decide)

instance : Fintype CmdType :=
  Fintype.ofList CmdType.all (by intro cmdType; cases cmdType <;> decide)

instance : Fintype Distro :=
  Fintype.ofList [.bullseye, .bookworm, .trixie, .jammy, .noble]
    (by intro distro; cases distro <;> decide)

/-- The task of the manifests that plays the role. -/
def CoreRole.task (distro : Distro) : CoreRole → Task
  | cleanWork => DistroSeed.cleanWork.task 0
  | createWork => DistroSeed.createWork.task 0
  | buildVm => DistroSeed.buildVm.task 0
  | vmReady => DistroSeed.vmReady.task 0
  | packagelistCrossPrep => DistroSeed.packagelistCrossPrep.task 0
  | crossReady => DistroSeed.crossReady.task 0
  | packagelistPrep => DistroSeed.packagelistPrep.task 0
  | packagelistReady => DistroSeed.packagelistReady.task 0
  | rootfs => distro.manifest.task 0 Nat.two_pos
  | buildPackages => localPackages.task 0
  | installPackages => localPackages.task 1
  | chrootPrep => DistroSeed.chrootPrep.task 0
  | aptFinishInstall => DistroSeed.aptFinishInstall.task 0
  | setTemporaryResolv => DistroSeed.setTemporaryResolv.task 0
  | chrootReady => DistroSeed.chrootReady.task 0
  | chrootLate => DistroSeed.chrootLate.task 0
  | installLatePackages => DistroSeed.installLatePackages.task 0
  | chrootClean => DistroSeed.chrootClean.task 0
  | rootfsIdentification => DistroSeed.rootfsIdentification.task 0
  | rootfsReady => DistroSeed.rootfsReady.task 0
  | imagesGenerated => DistroSeed.imagesGenerated.task 0

/-- A role that every configuration has, or a task with the default dependency of its type. -/
inductive Role where
  | core (role : CoreRole)
  | added (cmdType : CmdType)
deriving DecidableEq, Repr

instance : Fintype Role :=
  Fintype.ofList (CoreRole.all.map .core ++ CmdType.all.map .added) <| by
    intro role
    cases role with
    | core role => cases role <;> decide
    | added cmdType => cases cmdType <;> decide

/-- `task` waits for the default dependency of its type only, and holds up no stage. -/
structure Defaulted (task : Task) : Prop where
  notBarrier : task.autoCreateRdepends = false
  dependencies : (defaultDependency task.cmdType).map (fun dep => [dep]) = some task.dependencies

instance (task : Task) : Decidable (Defaulted task) :=
  decidable_of_iff (task.autoCreateRdepends = false ∧
      (defaultDependency task.cmdType).map (fun dep => [dep]) = some task.dependencies)
    ⟨fun h => ⟨h.1, h.2⟩, fun h => ⟨h.1, h.2⟩⟩

/-- The role of a task, whatever its number is. -/
def HasRole (distro : Distro) (task : Task) : Role → Prop
  | .core role => { task with id := 0 } = role.task distro
  | .added cmdType => task.cmdType = cmdType ∧ Defaulted task

/-- The roles that match a dependency of this role. -/
def Role.parents : Role → List CoreRole
  | .core .cleanWork => []
  | .core .createWork => [.cleanWork]
  | .core .buildVm => [.createWork]
  | .core .vmReady => [.buildVm]
  | .core .packagelistCrossPrep => [.createWork]
  | .core .crossReady => [.vmReady, .packagelistCrossPrep]
  | .core .packagelistPrep => [.createWork]
  | .core .packagelistReady => [.packagelistPrep]
  | .core .rootfs => [.packagelistReady]
  | .core .buildPackages => [.vmReady, .rootfs]
  | .core .installPackages => [.buildPackages]
  | .core .chrootPrep => [.installPackages]
  | .core .aptFinishInstall => [.chrootPrep]
  | .core .setTemporaryResolv => [.aptFinishInstall]
  | .core .chrootReady => [.aptFinishInstall]
  | .core .chrootLate => [.chrootReady]
  | .core .installLatePackages => [.chrootLate]
  | .core .chrootClean => [.chrootLate]
  | .core .rootfsIdentification => [.chrootClean]
  | .core .rootfsReady => [.rootfsIdentification]
  | .core .imagesGenerated => [.rootfsReady]
  | .added .host => [.createWork]
  | .added .vm => [.vmReady]
  | .added .cross => [.crossReady]
  | .added .target => [.chrootReady]
  | .added .packagelist => [.packagelistPrep]
  | .added .packagelistCross => [.packagelistCrossPrep]
  | .added .dummy => []

/-- The roles that hold up their stage until the leaves of the stage are done. -/
def CoreRole.isBarrier : CoreRole → Bool
  | packagelistCrossPrep | crossReady | packagelistPrep | rootfs | setTemporaryResolv
  | installLatePackages => false
  | _ => true

/-- The barrier that a leaf with this role gets an edge to. -/
def Role.barrier : Role → Option CoreRole
  | .core .crossReady => some .buildPackages
  | .core .setTemporaryResolv => some .chrootReady
  | .core .installLatePackages => some .chrootClean
  | .core _ => none
  | .added .host => some .buildVm
  | .added .vm => some .buildPackages
  | .added .cross => some .buildPackages
  | .added .target => some .chrootLate
  | .added .packagelist => some .packagelistReady
  | .added .packagelistCross => some .buildVm
  | .added .dummy => none

/-- A numbering of the roles that grows along every edge. -/
def Role.rank : Role → ℕ
  | .core .cleanWork => 0
  | .core .createWork => 1
  | .core .packagelistCrossPrep => 2
  | .core .packagelistPrep => 2
  | .core .packagelistReady => 4
  | .core .buildVm => 4
  | .core .vmReady => 5
  | .core .rootfs => 5
  | .core .crossReady => 6
  | .core .buildPackages => 8
  | .core .installPackages => 9
  | .core .chrootPrep => 10
  | .core .aptFinishInstall => 11
  | .core .setTemporaryResolv => 12
  | .core .chrootReady => 13
  | .core .chrootLate => 15
  | .core .installLatePackages => 16
  | .core .chrootClean => 17
  | .core .rootfsIdentification => 18
  | .core .rootfsReady => 19
  | .core .imagesGenerated => 20
  | .added .host => 3
  | .added .packagelist => 3
  | .added .packagelistCross => 3
  | .added .vm => 7
  | .added .cross => 7
  | .added .target => 14
  | .added .dummy => 0

/-- Some barrier below `parent` that the search from a leaf with role `role` accepts. -/
def Role.Accepts (role : Role) (parent barrier : CoreRole) : Prop :=
  parent ∈ (Role.core barrier).parents ∧ barrier ∉ role.parents ∧ barrier.isBarrier

instance (role : Role) (parent barrier : CoreRole) : Decidable (role.Accepts parent barrier) :=
  inferInstanceAs (Decidable (_ ∧ _ ∧ _))

/-! ## The roles against the manifests -/

/-- What the manifest of a core role declares, in terms of the roles. -/
@[mk_iff] structure CoreSpec (distro : Distro) (r : CoreRole) : Prop where
  id : (r.task distro).id = 0
  isBarrier : (r.task distro).autoCreateRdepends = r.isBarrier
  notDefaulted : ¬ Defaulted (r.task distro)
  dependencies_iff : ∀ p : CoreRole,
    (∃ dep ∈ (r.task distro).dependencies, (p.task distro).matches dep) ↔
      p ∈ (Role.core r).parents
  satisfied : ∀ dep ∈ (r.task distro).dependencies, ∃ p : CoreRole, (p.task distro).matches dep
  injective : ∀ p : CoreRole, p.task distro = r.task distro → p = r

instance (distro : Distro) (r : CoreRole) : Decidable (CoreSpec distro r) :=
  decidable_of_iff _ (coreSpec_iff distro r).symm

theorem core_spec : ∀ (distro : Distro) (r : CoreRole), CoreSpec distro r := by
  decide +kernel

/-- The core tasks that a default dependency names. -/
theorem default_spec : ∀ (distro : Distro) (cmdType : CmdType),
    ∀ dep ∈ defaultDependency cmdType,
      (∀ p : CoreRole, (p.task distro).matches dep ↔ p ∈ (Role.added cmdType).parents) ∧
        ∃ p : CoreRole, (p.task distro).matches dep := by
  decide +kernel

/-! ## The roles among themselves -/

/-- The edges of a role go up in rank, and the search finds the barrier of a role below
the parents of the leaf, or, when there is none, below their parents. -/
@[mk_iff] structure RoleSpec (role : Role) : Prop where
  rank_parents : ∀ p ∈ role.parents, (Role.core p).rank < role.rank
  rank_barrier : ∀ b ∈ role.barrier, role.rank < (Role.core b).rank
  barrier_nearest : ∀ b ∈ role.barrier,
    ((∃ p ∈ role.parents, role.Accepts p b) ∧
      ∀ p ∈ role.parents, ∀ q, role.Accepts p q → q = b) ∨
    ((∃ p ∈ role.parents, ∃ p' ∈ (Role.core p).parents, role.Accepts p' b) ∧
      ∀ p ∈ role.parents, ∀ q,
        (role.Accepts p q ∨ ∃ p' ∈ (Role.core p).parents, role.Accepts p' q) → q = b)

instance (role : Role) : Decidable (RoleSpec role) :=
  decidable_of_iff _ (roleSpec_iff role).symm

theorem role_spec : ∀ role : Role, RoleSpec role := by
  decide +kernel

/-- A core role that is no barrier has a core role below it or a barrier to find. -/
theorem core_leaf : ∀ p : CoreRole, p.isBarrier ∨ (∃ q, p ∈ (Role.core q).parents) ∨
    (Role.core p).barrier.isSome := by
  decide +kernel

end DistroSeed
