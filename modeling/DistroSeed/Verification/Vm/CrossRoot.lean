import DistroSeed.Model.CrossRoot

/-! When the cross root is deleted, and what is mounted below it by then. -/

namespace DistroSeed

namespace CrossRoot

open Scripts CrossCommand

variable {Content : Type*}
  {effect : String → (SharedDir → Directory Content) → SharedDir → Directory Content}
  {may : Invocation → CrossRoot Content → Prop} {s : CrossRoot Content} {rest : List CrossCommand}
  {env : CrossEnv}

/-- The stamp of every run that has mounted a shared directory is still there. -/
def Stamped (s : CrossRoot Content) : Prop :=
  ∀ dir env, s.mounts (.shared dir) = some env → env.stamp ∈ s.stamps

/-- Nothing is mounted when the cross root is deleted. -/
def DeletesUnmounted (cmd : CrossCommand) (s : CrossRoot Content) : Prop :=
  cmd = removeRoot → ∀ dir, s.mounts dir = none

/-- The invocation has the stamp of every run whose shared directories are still mounted. -/
def SameStamp (invocation : Invocation) (s : CrossRoot Content) : Prop :=
  ∀ dir env, s.mounts (.shared dir) = some env → env.stamp = invocation.env.stamp

theorem stamped_of_unmounted (h : ∀ dir, s.mounts dir = none) : Stamped s := by
  intro dir env henv
  rw [h] at henv
  cases henv

theorem Stamped.congr {s' : CrossRoot Content} (h : Stamped s)
    (hmounts : ∀ dir, s'.mounts (.shared dir) = s.mounts (.shared dir))
    (hstamps : s.stamps ⊆ s'.stamps) : Stamped s' := by
  intro dir env henv
  rw [hmounts] at henv
  exact hstamps (h dir env henv)

/-! ## Mounts -/

theorem mountDir_eq (dir : MountDir) (env : CrossEnv) (s : CrossRoot Content) (dir' : MountDir) :
    (s.mountDir dir env).mounts dir' = s.mounts dir' ∨
      dir' = dir ∧ (s.mountDir dir env).mounts dir' = some env := by
  unfold mountDir
  split
  · exact Or.inl rfl
  · by_cases h : dir' = dir
    · subst h
      exact Or.inr ⟨rfl, Function.update_self ..⟩
    · exact Or.inl (Function.update_of_ne h ..)

@[simp] theorem stamps_mountDir (dir : MountDir) (env : CrossEnv) (s : CrossRoot Content) :
    (s.mountDir dir env).stamps = s.stamps := by
  unfold mountDir
  split <;> rfl

theorem hasMount_iff : s.hasMount ↔ ∃ dir, (s.mounts dir).isSome := by
  have hall : ∀ dir : MountDir, dir ∈ MountDir.all := by
    intro dir
    cases dir with
    | shared dir => cases dir <;> decide
    | _ => decide
  simp [hasMount, hall]

/-! ## Scripts -/

/-- A command other than the `rm -rf` that leaves the invariant alone. -/
theorem keeps_cons {cmd : CrossCommand} {s' : CrossRoot Content} {calls : List CrossCommand}
    (hcmd : cmd ≠ removeRoot) (hs : Stamped s) (hrun : (language effect).run cmd s = some (s', calls))
    (hnext : Keeps (scenario effect may) Stamped DeletesUnmounted (calls ++ rest) s') :
    Keeps (scenario effect may) Stamped DeletesUnmounted (cmd :: rest) s := by
  refine .of_run hrun (fun h => absurd h hcmd) (fun _ => hs) ?_ fun _ => hnext
  intro s' hfails
  cases cmd with
  | removeRoot => exact absurd rfl hcmd
  | other name => exact hs.congr (fun dir => by rw [hfails.1]) hfails.2.ge
  | _ => exact hfails.elim

theorem keeps_other {name : String} (hs : Stamped s)
    (hnext : ∀ s' : CrossRoot Content, s'.mounts = s.mounts → s'.stamps = s.stamps →
      Keeps (scenario effect may) Stamped DeletesUnmounted rest s') :
    Keeps (scenario effect may) Stamped DeletesUnmounted (other name :: rest) s :=
  keeps_cons (by simp) hs rfl (hnext _ rfl rfl)

/-- Commands that have no effect on mounts and stamps. -/
theorem keeps_others (names : List String) (hs : Stamped s)
    (hnext : ∀ s' : CrossRoot Content, s'.mounts = s.mounts → s'.stamps = s.stamps →
      Keeps (scenario effect may) Stamped DeletesUnmounted rest s') :
    Keeps (scenario effect may) Stamped DeletesUnmounted (names.map other ++ rest) s := by
  induction names generalizing s with
  | nil => exact hnext s rfl rfl
  | cons name names ih =>
      apply keeps_other hs
      intro s' hmounts hstamps
      apply ih (hs.congr (fun dir => by rw [hmounts]) hstamps.ge)
      intro s'' hmounts' hstamps'
      exact hnext s'' (hmounts'.trans hmounts) (hstamps'.trans hstamps)

/-- Mounts that are no shared directories. -/
theorem keeps_mounts {dirs : List MountDir} (hdirs : ∀ dir, .shared dir ∉ dirs) (hs : Stamped s)
    (hnext : ∀ s' : CrossRoot Content,
      (∀ dir, s'.mounts (.shared dir) = s.mounts (.shared dir)) → s'.stamps = s.stamps →
        Keeps (scenario effect may) Stamped DeletesUnmounted rest s') :
    Keeps (scenario effect may) Stamped DeletesUnmounted
      ((dirs.map fun dir => mount dir env) ++ rest) s := by
  induction dirs generalizing s with
  | nil => exact hnext s (fun _ => rfl) rfl
  | cons dir dirs ih =>
      have hsame : ∀ d, (s.mountDir dir env).mounts (.shared d) = s.mounts (.shared d) := by
        intro d
        rcases mountDir_eq dir env s (.shared d) with heq | ⟨heq, _⟩
        · exact heq
        · exact absurd (List.mem_cons.mpr (Or.inl heq)) (hdirs d)
      refine keeps_cons (by simp) hs rfl (ih (fun d hd => hdirs d (List.mem_cons_of_mem _ hd)) ?_ ?_)
      · exact hs.congr hsame (stamps_mountDir dir env s).ge
      · intro s' hmounts hstamps
        exact hnext s' (fun d => (hmounts d).trans (hsame d))
          (hstamps.trans (stamps_mountDir dir env s))

theorem keeps_mountCrossRuntime (hs : Stamped s)
    (hnext : ∀ s' : CrossRoot Content,
      (∀ dir, s'.mounts (.shared dir) = s.mounts (.shared dir)) → s'.stamps = s.stamps →
        Keeps (scenario effect may) Stamped DeletesUnmounted rest s') :
    Keeps (scenario effect may) Stamped DeletesUnmounted (mountCrossRuntime env ++ rest) s := by
  apply keeps_other hs
  intro s' hmounts hstamps
  have hdirs : ∀ dir, MountDir.shared dir ∉ [MountDir.proc, .sys, .dev, .devPts] := by simp
  apply keeps_mounts hdirs (hs.congr (fun dir => by rw [hmounts]) hstamps.ge)
  intro s'' hmounts' hstamps'
  exact hnext s'' (fun dir => (hmounts' dir).trans (by rw [hmounts])) (hstamps'.trans hstamps)

/-- Without shared directories, nothing stays mounted. -/
theorem keeps_unmountCrossRuntime (hs : ∀ dir, s.mounts (.shared dir) = none)
    (hnext : ∀ s' : CrossRoot Content, (∀ dir, s'.mounts dir = none) →
      Keeps (scenario effect may) Stamped DeletesUnmounted rest s') :
    Keeps (scenario effect may) Stamped DeletesUnmounted (unmountCrossRuntime ++ rest) s := by
  have hstamped : ∀ s' : CrossRoot Content, (∀ dir, s'.mounts (.shared dir) = none) → Stamped s' := by
    intro s' hs' dir env henv
    rw [hs'] at henv
    cases henv
  refine keeps_cons (by simp) (hstamped _ hs) rfl ?_
  refine keeps_cons (by simp) (hstamped _ fun dir => by simp [umountDir, hs]) rfl ?_
  refine keeps_cons (by simp) (hstamped _ fun dir => by simp [umountDir, hs]) rfl ?_
  refine keeps_cons (by simp) (hstamped _ fun dir => by simp [umountDir, hs]) rfl ?_
  apply hnext
  intro dir
  cases dir with
  | shared dir => simp [umountDir, hs]
  | _ => simp [umountDir]

theorem keeps_removeRoot (hs : ∀ dir, s.mounts dir = none)
    (hnext : ∀ s' : CrossRoot Content, (∀ dir, s'.mounts dir = none) →
      Keeps (scenario effect may) Stamped DeletesUnmounted rest s') :
    Keeps (scenario effect may) Stamped DeletesUnmounted (removeRoot :: rest) s := by
  have hrun : (language effect).run removeRoot s = some ({ s with stamps := ∅ }, []) := by
    apply if_neg
    rw [hasMount_iff]
    simp [hs]
  refine .of_run hrun (fun _ => hs) (fun _ => stamped_of_unmounted hs) ?_ fun _ => hnext _ hs
  intro s' hfails
  exact stamped_of_unmounted fun dir => by rw [hfails.1, hs]

theorem keeps_createCrossRoot (hs : ∀ dir, s.mounts (.shared dir) = none)
    (hnext : ∀ s' : CrossRoot Content, Stamped s' → env.stamp ∈ s'.stamps →
      Keeps (scenario effect may) Stamped DeletesUnmounted rest s') :
    Keeps (scenario effect may) Stamped DeletesUnmounted (createCrossRoot env ++ rest) s := by
  have hunbound : ∀ s' : CrossRoot Content, (∀ dir, s'.mounts (.shared dir) = none) → Stamped s' := by
    intro s' hs' dir env henv
    rw [hs'] at henv
    cases henv
  simp only [createCrossRoot, List.append_assoc]
  apply keeps_others ["load_distro_cross_setup", "collect_packages", "setup_cross_tools", "declare"]
    (hunbound s hs)
  intro s₁ hs₁ _
  apply keeps_unmountCrossRuntime fun dir => by rw [hs₁, hs]
  intro s₂ hs₂
  apply keeps_removeRoot hs₂
  intro s₃ hs₃
  apply keeps_others ["mkdir", "mmdebstrap"] (stamped_of_unmounted hs₃)
  intro s₄ hs₄ _
  apply keeps_mountCrossRuntime (stamped_of_unmounted fun dir => by rw [hs₄, hs₃])
  intro s₅ hs₅ _
  have hnone : ∀ dir, s₅.mounts (.shared dir) = none := fun dir => by rw [hs₅, hs₄, hs₃]
  apply keeps_others ["dpkg", "install", "write_cross_sources", "apt-get", "ln", "cat"]
    (hunbound s₅ hnone)
  intro s₆ hs₆ _
  have hstamped : Stamped s₆ := hunbound s₆ fun dir => by rw [hs₆, hnone]
  refine keeps_cons (by simp) hstamped rfl (hnext _ ?_ ?_)
  · exact hstamped.congr (fun _ => rfl) (Finset.subset_insert _ _)
  · exact Finset.mem_insert_self _ _

/-- With the stamp of the mounted runs, `setup-cross.sh` ends with a cross root of that stamp. -/
theorem keeps_setupCross (hs : Stamped s)
    (hsame : ∀ dir e, s.mounts (.shared dir) = some e → e.stamp = env.stamp)
    (hnext : ∀ s' : CrossRoot Content, Stamped s' → env.stamp ∈ s'.stamps →
      Keeps (scenario effect may) Stamped DeletesUnmounted rest s') :
    Keeps (scenario effect may) Stamped DeletesUnmounted (setupCross env :: rest) s := by
  refine keeps_cons (by simp) hs rfl ?_
  unfold setupCrossCalls
  split_ifs with hstamp
  · apply keeps_mountCrossRuntime hs
    intro s' hmounts hstamps
    exact hnext s' (hs.congr hmounts hstamps.ge) (hstamps ▸ hstamp)
  · apply keeps_createCrossRoot ?_ hnext
    intro dir
    cases hmount : s.mounts (.shared dir) with
    | none => rfl
    | some e => exact absurd (hsame dir e hmount ▸ hs dir e hmount) hstamp

theorem keeps_mountShared {dirs : List SharedDir} (hs : Stamped s) (hstamp : env.stamp ∈ s.stamps)
    (hnext : ∀ s' : CrossRoot Content, Stamped s' →
      Keeps (scenario effect may) Stamped DeletesUnmounted rest s') :
    Keeps (scenario effect may) Stamped DeletesUnmounted
      (dirs.flatMap (mountShared env) ++ rest) s := by
  induction dirs generalizing s with
  | nil => exact hnext s hs
  | cons dir dirs ih =>
      apply keeps_other hs
      intro s' hmounts hstamps
      have hs' : Stamped s' := hs.congr (fun d => by rw [hmounts]) hstamps.ge
      have hstamp' : env.stamp ∈ s'.stamps := hstamps ▸ hstamp
      refine keeps_cons (by simp) hs' rfl (ih ?_ (by simpa using hstamp'))
      intro d e he
      rw [stamps_mountDir]
      rcases mountDir_eq (.shared dir) env s' (.shared d) with heq | ⟨_, heq⟩
      · exact hs' d e (heq ▸ he)
      · obtain rfl := Option.some.inj (heq.symm.trans he)
        exact hstamp'

theorem keeps_invocation {invocation : Invocation} (hs : Stamped s) (hsame : SameStamp invocation s) :
    Keeps (scenario effect may) Stamped DeletesUnmounted invocation.script s := by
  cases invocation with
  | setup env => exact keeps_setupCross hs hsame fun s' hs' _ => .nil hs'
  | task env =>
      have hscript : (Invocation.task env).script = setupCross env ::
          (["sync-staging.sh", "mkdir"].map other ++ (SharedDir.all.flatMap (mountShared env) ++
            (["rm", "mkdir", "export", "chroot", "stage-package-input.sh", "rm"].map other ++ []))) :=
        rfl
      rw [hscript]
      apply keeps_setupCross hs hsame
      intro s₁ hs₁ hstamp₁
      apply keeps_others _ hs₁
      intro s₂ hmounts hstamps
      apply keeps_mountShared (hs₁.congr (fun dir => by rw [hmounts]) hstamps.ge) (hstamps ▸ hstamp₁)
      intro s₃ hs₃
      apply keeps_others _ hs₃
      intro s₄ hmounts' hstamps'
      exact .nil (hs₃.congr (fun dir => by rw [hmounts']) hstamps'.ge)

/-! ## The deletion -/

theorem shared_of_removeRoot (hs : ∀ dir, s.mounts dir = none) {c : Config (CrossRoot Content) CrossCommand}
    (hstep : Step (scenario effect may) ⟨s, removeRoot :: rest⟩ c) : c.state.shared = s.shared := by
  cases hstep with
  | stop => rfl
  | fail hfails => exact funext fun dir => hfails.2.2 dir (hs _)
  | next _ hrun =>
      have hrun' : (if s.hasMount then none else some ({ s with stamps := ∅ }, [])) = some _ := hrun
      split_ifs at hrun'
      obtain ⟨rfl, rfl⟩ := Prod.mk.inj (Option.some.inj hrun')
      rfl

/-- In every boot in which the invocations have the same stamp as the cross tasks whose
directories are still mounted, the cross root is deleted without anything mounted below it, and
the shared directories stay as they are. -/
theorem removeRoot_unmounted {c : Config (CrossRoot Content) CrossCommand} {boot : CrossRoot Content}
    (hboot : ∀ dir, boot.mounts dir = none) (h : Reaches (scenario effect SameStamp) boot c)
    (hscript : c.script = removeRoot :: rest) :
    (∀ dir, c.state.mounts dir = none) ∧
      ∀ c', Step (scenario effect SameStamp) c c' → c'.state.shared = c.state.shared := by
  have hmounts : ∀ dir, c.state.mounts dir = none := by
    refine h.meets_guard Stamped DeletesUnmounted ?_ ?_ (stamped_of_unmounted hboot) hscript rfl
    · intro script s hs hstart
      obtain ⟨invocation, rfl, hsame⟩ := hstart
      exact keeps_invocation hs hsame
    · intro s s' hs hchange
      exact hs.congr (fun dir => by rw [hchange.1]) hchange.2.ge
  refine ⟨hmounts, ?_⟩
  intro c' hstep
  obtain ⟨s, script⟩ := c
  obtain rfl : script = removeRoot :: rest := hscript
  exact shared_of_removeRoot hmounts hstep

/-! ## Two target architectures in one boot -/

/-- A VM that was just booted, with the base image in the cache. -/
def freshBoot : CrossRoot String where
  mounts := fun _ => none
  stamps := ∅
  shared
    | .cache => ⟨Finmap.singleton ["vm-base.qcow2"] "image", ∅⟩
    | _ => ∅

def armhfEnv : CrossEnv := { distro := "debian", release := "bookworm", targetArch := "armhf" }

def arm64Env : CrossEnv := { distro := "debian", release := "bookworm", targetArch := "arm64" }

/-- Other commands that leave the shared directories alone. -/
def noEffect (_ : String) (shared : SharedDir → Directory String) : SharedDir → Directory String :=
  shared

/-- The script `invocation` in the state `s`, stopped behind `n` commands. -/
def after (invocation : Invocation) (s : CrossRoot String) (n : ℕ) :
    Config (CrossRoot String) CrossCommand :=
  runFor (language noEffect) n ⟨s, invocation.script⟩

/-- The first `setup-cross.sh` fails in the cross root that it has just mounted, and the next one is
for another architecture. -/
theorem removeRoot_unmounted_failedSetup :
    let failed := (after (.setup armhfEnv) freshBoot 17).state
    let c := after (.setup arm64Env) failed 9
    (∀ dir ∈ [.proc, .sys, .dev, .devPts], failed.mounts dir = some armhfEnv) ∧
      (∀ dir, c.state.mounts dir = none) ∧
      ∀ c', Step (scenario noEffect SameStamp) c c' → c'.state.shared = c.state.shared := by
  intro failed c
  have hfirst : (scenario noEffect SameStamp).Start (Invocation.setup armhfEnv).script freshBoot :=
    ⟨.setup armhfEnv, rfl, fun _ _ h => by cases h⟩
  have hsecond : (scenario noEffect SameStamp).Start (Invocation.setup arm64Env).script failed :=
    ⟨.setup arm64Env, rfl, fun dir _ h => by cases dir <;> cases h⟩
  have hmounted : Reaches (scenario noEffect SameStamp) freshBoot
      (after (.setup armhfEnv) freshBoot 17) :=
    Reaches.startFor .refl hfirst 17 fun _ _ _ _ _ => trivial
  have hfails : (language noEffect).Fails (other "dpkg") failed failed := ⟨rfl, rfl⟩
  have hfailed : Reaches (scenario noEffect SameStamp) freshBoot ⟨failed, []⟩ :=
    hmounted.tail (.fail hfails)
  refine ⟨by decide, ?_⟩
  exact removeRoot_unmounted (fun _ => rfl)
    (hfailed.startFor hsecond 9 fun _ _ _ _ _ => trivial) rfl

/-- A cross task leaves its directories mounted, so the next `setup-cross.sh` for another
architecture deletes the cache of the host. -/
theorem removeRoot_deletes_cache : ∃ c c', Reaches (scenario noEffect fun _ _ => True) freshBoot c ∧
    c.script.head? = some removeRoot ∧ c.state.mounts (.shared .cache) = some armhfEnv ∧
    c.state.shared .cache ≠ ∅ ∧ Step (scenario noEffect fun _ _ => True) c c' ∧
    c'.state.shared .cache = ∅ := by
  have hstart : ∀ invocation s, (scenario noEffect fun _ _ => True).Start
      (Invocation.script invocation) s := fun invocation _ => ⟨invocation, rfl, trivial⟩
  let mounted := (after (.task armhfEnv) freshBoot 50).state
  have htask : Reaches (scenario noEffect fun _ _ => True) freshBoot ⟨mounted, []⟩ :=
    Reaches.startFor .refl (hstart (.task armhfEnv) _) 50 (fun _ _ _ _ _ => trivial)
  have hsetup : Reaches (scenario noEffect fun _ _ => True) freshBoot
      (after (.setup arm64Env) mounted 9) :=
    htask.startFor (hstart (.setup arm64Env) _) 9 (fun _ _ _ _ _ => trivial)
  let s := (after (.setup arm64Env) mounted 9).state
  have hfails : (language noEffect).Fails removeRoot s { s with shared := fun _ => ∅ } := by
    refine ⟨rfl, fun _ h => h, ?_⟩
    intro dir hdir
    cases dir <;> cases hdir
  exact ⟨_, ⟨{ s with shared := fun _ => ∅ }, []⟩, hsetup, rfl, rfl, by decide, .fail hfails, rfl⟩

end CrossRoot

end DistroSeed
