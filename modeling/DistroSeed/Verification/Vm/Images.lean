import DistroSeed.Model.VmImages
import Mathlib.Tactic.IntervalCases

/-! What `build_vm.sh` takes from its cache, and what the VM boots from. -/

namespace DistroSeed

namespace VmStore

open Scripts VmCommand

variable {Sources : Type*} {cacheKey : Sources → String} {s : VmStore Sources}
  {rest : List VmCommand}

/-! ## The cache -/

/-- The key in the cache is that of the image. -/
def KeyMatches (cacheKey : Sources → String) (s : VmStore Sources) : Prop :=
  ∀ key image, s.cachedKey = some key → s.cachedImage = some image →
    cacheKey image.installedFrom = key

/-- An image that is published comes from sources with the current key. -/
def PublishesCurrent (cacheKey : Sources → String) (cmd : VmCommand) (s : VmStore Sources) : Prop :=
  cmd = copyToBase → ∀ image, s.cachedImage = some image →
    cacheKey image.installedFrom = cacheKey s.sources

/-- Between moving a new image to the cache and writing its key, the script goes on, unless the
cache has no key or that key already. -/
def KeyFollows (script : List VmCommand) (s : VmStore Sources) : Prop :=
  ∀ key rest, script = writeKey key :: rest → s.cachedKey = none ∨ s.cachedKey = some key

section Cache

variable {mayStop : List VmCommand → VmStore Sources → Prop}

theorem keyMatches_of_none (h : s.cachedKey = none) : KeyMatches cacheKey s := by
  intro key image hkey
  rw [h] at hkey
  cases hkey

theorem keeps_copyToBase (hs : KeyMatches cacheKey s)
    (himage : ∀ image, s.cachedImage = some image → cacheKey image.installedFrom = cacheKey s.sources) :
    Keeps (buildVmScenario cacheKey mayStop) (KeyMatches cacheKey) (PublishesCurrent cacheKey)
      [copyToBase] s := by
  cases hcached : s.cachedImage with
  | none =>
      have hrun : (language cacheKey).run copyToBase s = none := by simp [language, hcached]
      exact .of_stuck hrun (fun _ => himage) (fun _ => hs) fun _ h => h.elim
  | some image =>
      have hrun : (language cacheKey).run copyToBase s = some ({ s with base := some image }, []) := by
        simp [language, hcached]
      exact .of_run hrun (fun _ => himage) (fun _ => hs) (fun _ h => h.elim) fun _ => .nil hs

theorem keeps_buildVm (hs : KeyMatches cacheKey s) :
    Keeps (buildVmScenario cacheKey KeyFollows) (KeyMatches cacheKey) (PublishesCurrent cacheKey)
      [buildVmSh] s := by
  refine .of_run rfl (by simp [PublishesCurrent]) (fun _ => hs) (fun _ h => h.elim) fun _ => ?_
  unfold buildVmCalls
  split
  · rename_i hhit
    apply keeps_copyToBase hs
    intro image himage
    have hkey : s.cachedKey = some (cacheKey s.sources) := by
      simp only [cacheHit, Bool.and_eq_true, decide_eq_true_eq] at hhit
      exact hhit.1
    exact hs _ image hkey himage
  · refine .of_run rfl (by simp [PublishesCurrent]) (fun _ => hs) (fun _ h => h.elim) fun _ => ?_
    refine .of_run rfl (by simp [PublishesCurrent]) (fun _ => hs) (fun _ h => h.elim) fun _ => ?_
    refine .of_run rfl (by simp [PublishesCurrent]) (fun _ => hs) (fun _ h => h.elim) fun _ => ?_
    -- the new image is in the cache, next to the old key
    refine .of_run rfl (by simp [PublishesCurrent]) (fun hstop => ?_) (fun _ h => h.elim) fun _ => ?_
    · intro key image hkey himage
      obtain rfl := Option.some.inj himage
      rcases hstop _ _ rfl with hnone | hsame
      · rw [hnone] at hkey
        cases hkey
      · rw [hsame] at hkey
        exact Option.some.inj hkey
    · apply keeps_copyToBase
      · intro key image hkey himage
        obtain rfl := Option.some.inj himage
        exact Option.some.inj hkey
      · intro image himage
        obtain rfl := Option.some.inj himage
        rfl

/-- In every sequence of runs that are not killed between moving a new image to the cache and
replacing the key of another one, what is published was installed from sources with the current
key. -/
theorem copyToBase_publishes_current {start : VmStore Sources}
    {c : Config (VmStore Sources) VmCommand} (hstart : start.cachedKey = none)
    (h : Reaches (buildVmScenario cacheKey KeyFollows) start c) (hscript : c.script = copyToBase :: rest)
    {image : VmImage Sources} (himage : c.state.cachedImage = some image) :
    cacheKey image.installedFrom = cacheKey c.state.sources := by
  refine h.meets_guard (KeyMatches cacheKey) (PublishesCurrent cacheKey) ?_ ?_
    (keyMatches_of_none hstart) hscript rfl image himage
  · intro script s hs hscript
    obtain rfl : script = [buildVmSh] := hscript
    exact keeps_buildVm hs
  · intro s s' hs hchange key image hkey himage
    exact hs key image (hchange.2 ▸ hkey) (hchange.1 ▸ himage)

/-! ### A killed run -/

/-- A checkout with an empty cache. -/
def emptyStore (sources : String) : VmStore String where
  sources := sources
  installs := 0
  cachedImage := none
  cachedKey := none
  buildImage := none
  base := none
  runtime := none
  running := false
  owned := false

/-- The run, stopped before command `n`. -/
def buildVmRun (n : ℕ) (s : VmStore String) : Config (VmStore String) VmCommand :=
  runFor (language id) n ⟨s, [buildVmSh]⟩

def edited (sources : String) (s : VmStore String) : VmStore String := { s with sources := sources }

/-- A first run is killed before it writes its key, and a second one ends. The sources are changed,
a run is killed in the installer, and the sources are changed back. -/
def cachedStore : VmStore String :=
  edited "packages 1" (buildVmRun 2 (edited "packages 2"
    (buildVmRun 6 (buildVmRun 4 (emptyStore "packages 1")).state).state)).state

section Runs

variable {s₀ t : VmStore String} {mayStop : List VmCommand → VmStore String → Prop}

theorem reaches_buildVmRun (h : Reaches (buildVmScenario id mayStop) s₀ ⟨t, []⟩) (n : ℕ) :
    Reaches (buildVmScenario id mayStop) s₀ (buildVmRun n t) := by
  have hstart : (buildVmScenario id mayStop).Start [buildVmSh] t := rfl
  exact h.startFor hstart n fun _ _ _ _ _ => trivial

/-- A run that is killed where it may be. -/
theorem reaches_killed (h : Reaches (buildVmScenario id mayStop) s₀ ⟨t, []⟩) (n : ℕ)
    {cmd : VmCommand} {rest : List VmCommand} (hscript : (buildVmRun n t).script = cmd :: rest)
    (hstop : mayStop (cmd :: rest) (buildVmRun n t).state) :
    Reaches (buildVmScenario id mayStop) s₀ ⟨(buildVmRun n t).state, []⟩ := by
  have hrun := reaches_buildVmRun h n
  have hconfig : buildVmRun n t = ⟨(buildVmRun n t).state, cmd :: rest⟩ := by rw [← hscript]
  rw [hconfig] at hrun
  exact hrun.tail (.stop hstop)

theorem reaches_edited (h : Reaches (buildVmScenario id mayStop) s₀ ⟨t, []⟩) (sources : String) :
    Reaches (buildVmScenario id mayStop) s₀ ⟨edited sources t, []⟩ := h.tail (.change ⟨rfl, rfl⟩)

end Runs

theorem reaches_cachedStore :
    Reaches (buildVmScenario id KeyFollows) (emptyStore "packages 1") ⟨cachedStore, []⟩ := by
  have hempty : Reaches (buildVmScenario id KeyFollows) (emptyStore "packages 1")
      ⟨emptyStore "packages 1", []⟩ := .refl
  have hfirst := reaches_killed hempty 4 rfl fun _ _ _ => Or.inl rfl
  have hsecond := reaches_buildVmRun hfirst 6
  refine reaches_edited (reaches_killed (reaches_edited hsecond "packages 2") 2 rfl ?_) "packages 1"
  intro key rest hscript
  cases hscript

/-- The next run takes the cached path, to the image of the second one. -/
theorem copyToBase_publishes_current_cachedStore :
    let c := buildVmRun 1 cachedStore
    cachedStore.cacheHit id ∧ c.script = [copyToBase] ∧ c.state.cachedImage = some ⟨"packages 1", 1⟩ ∧
      id "packages 1" = id c.state.sources :=
  ⟨rfl, rfl, rfl, copyToBase_publishes_current rfl (reaches_buildVmRun reaches_cachedStore 1) rfl rfl⟩

/-- A run is killed before it writes the key of its new image; when the sources are changed back,
the next run takes that image for one of the old sources. -/
theorem copyToBase_publishes_other : ∃ c, Reaches (buildVmScenario id fun _ _ => True)
      (emptyStore "packages 1") c ∧ c.script = [copyToBase] ∧ c.state.cacheHit id ∧
    ∃ image, c.state.cachedImage = some image ∧ id image.installedFrom ≠ id c.state.sources := by
  have hempty : Reaches (buildVmScenario id fun _ _ => True) (emptyStore "packages 1")
      ⟨emptyStore "packages 1", []⟩ := .refl
  have hfirst := reaches_buildVmRun hempty 6
  have hkilled := reaches_killed (reaches_edited hfirst "packages 2") 4 rfl trivial
  exact ⟨_, reaches_buildVmRun (reaches_edited hkilled "packages 1") 1, rfl, rfl, _, rfl, by decide⟩

end Cache

/-! ## The backing image -/

/-- The image that `runtime.qcow2` was created on is still in `base.qcow2`. -/
def Backed (s : VmStore Sources) : Prop :=
  ∀ image image', s.runtime = some image → s.base = some image' → image = image'

/-- The VM boots on the image that it was created on. -/
def BootsBacked (cmd : VmCommand) (s : VmStore Sources) : Prop :=
  cmd = boot → ∃ image, s.base = some image ∧ s.runtime = some image

/-- `build_vm.sh` finds no `runtime.qcow2`, or finds the image that it was created on in the cache. -/
def KeepsImage (cacheKey : Sources → String) (cmd : VmCommand) (s : VmStore Sources) : Prop :=
  cmd = buildVmSh → s.runtime = none ∨ (s.cacheHit cacheKey ∧ s.cachedImage = s.runtime)

section Sessions

variable {mayRun : VmCommand → VmStore Sources → Prop}

theorem Backed.congr {s' : VmStore Sources} (hs : Backed s) (hbase : s'.base = s.base)
    (hruntime : s'.runtime = s.runtime) : Backed s' := by
  intro image image' himage himage'
  exact hs image image' (hruntime ▸ himage) (hbase ▸ himage')

theorem backed_of_none (h : s.runtime = none) : Backed s := by
  intro image image' himage
  rw [h] at himage
  cases himage

/-- Any command but the boot itself. -/
theorem keeps_session_cons {cmd : VmCommand} {s' : VmStore Sources} {calls : List VmCommand}
    (hcmd : cmd ≠ boot) (hs : Backed s) (hrun : (language cacheKey).run cmd s = some (s', calls))
    (hnext : mayRun cmd s →
      Keeps (sessionScenario cacheKey mayRun) Backed BootsBacked (calls ++ rest) s') :
    Keeps (sessionScenario cacheKey mayRun) Backed BootsBacked (cmd :: rest) s :=
  .of_run hrun (fun h => absurd h hcmd) (fun _ => hs) (fun _ h => h.elim) hnext

theorem keeps_cleanWork (hs : Backed s)
    (hnext : ∀ s', Backed s' → Keeps (sessionScenario cacheKey mayRun) Backed BootsBacked rest s') :
    Keeps (sessionScenario cacheKey mayRun) Backed BootsBacked (removeWork :: rest) s :=
  keeps_session_cons (by simp) hs rfl fun _ => hnext _ (backed_of_none rfl)

/-- The image is copied over `base.qcow2` without a `runtime.qcow2`, or it is the same one. -/
theorem keeps_session_copyToBase (hs : Backed s) (hcopy : s.runtime = none ∨ s.cachedImage = s.runtime)
    (hnext : ∀ s', Backed s' → Keeps (sessionScenario cacheKey mayRun) Backed BootsBacked rest s') :
    Keeps (sessionScenario cacheKey mayRun) Backed BootsBacked (copyToBase :: rest) s := by
  cases hcached : s.cachedImage with
  | none =>
      have hrun : (language cacheKey).run copyToBase s = none := by simp [language, hcached]
      exact .of_stuck hrun (by simp [BootsBacked]) (fun _ => hs) fun _ h => h.elim
  | some image =>
      have hrun : (language cacheKey).run copyToBase s = some ({ s with base := some image }, []) := by
        simp [language, hcached]
      refine keeps_session_cons (by simp) hs hrun fun _ => hnext _ ?_
      rcases hcopy with hnone | hsame
      · exact backed_of_none hnone
      · intro r b hr hb
        rw [← hsame, hcached] at hr
        exact Option.some.inj (hr.symm.trans hb)

theorem keeps_session_buildVm (hs : Backed s)
    (hnext : ∀ s', Backed s' →
      Keeps (sessionScenario cacheKey (KeepsImage cacheKey)) Backed BootsBacked rest s') :
    Keeps (sessionScenario cacheKey (KeepsImage cacheKey)) Backed BootsBacked (buildVmSh :: rest) s := by
  refine keeps_session_cons (by simp) hs rfl fun hmay => ?_
  have himage := hmay rfl
  unfold buildVmCalls
  split
  · rename_i hhit
    exact keeps_session_copyToBase hs (himage.imp_right And.right) hnext
  · rename_i hmiss
    have hnone : s.runtime = none := by
      rcases himage with hnone | ⟨hhit, _⟩
      · exact hnone
      · exact absurd hhit hmiss
    have hbacked : ∀ s' : VmStore Sources, s'.runtime = s.runtime → Backed s' :=
      fun s' h => backed_of_none (h.trans hnone)
    refine keeps_session_cons (by simp) hs rfl fun _ => ?_
    refine keeps_session_cons (by simp) (hbacked _ rfl) rfl fun _ => ?_
    refine keeps_session_cons (by simp) (hbacked _ rfl) rfl fun _ => ?_
    refine keeps_session_cons (by simp) (hbacked _ rfl) rfl fun _ => ?_
    exact keeps_session_copyToBase (hbacked _ rfl) (Or.inl hnone) hnext

theorem keeps_startVm (hs : Backed s)
    (hnext : ∀ s', Backed s' → Keeps (sessionScenario cacheKey mayRun) Backed BootsBacked rest s') :
    Keeps (sessionScenario cacheKey mayRun) Backed BootsBacked (startVm :: rest) s := by
  have hclean : Backed s.cleanupAbandonedVm := by
    unfold cleanupAbandonedVm
    split
    · exact hs.congr rfl rfl
    · exact hs
  refine keeps_session_cons (by simp) hs rfl fun _ => ?_
  generalize s.cleanupAbandonedVm = s at hclean
  unfold startVmCalls
  split
  · exact hnext s hclean
  · cases hbase : s.base with
    | none =>
        have hrun : (language cacheKey).run runtimeImage s = none := by simp [language, hbase]
        exact .of_stuck hrun (by simp [BootsBacked]) (fun _ => hclean) fun _ h => h.elim
    | some image =>
        have himage : s.runtime.getD image = image := by
          cases hruntime : s.runtime with
          | none => rfl
          | some image' => exact hclean image' image hruntime hbase
        have hrun : (language cacheKey).run runtimeImage s =
            some ({ s with runtime := some image }, []) := by
          simp [language, hbase, himage]
        have hsame : Backed { s with runtime := some image } := by
          intro r b hr hb
          exact Option.some.inj (hr.symm.trans (hbase.symm.trans hb))
        refine keeps_session_cons (by simp) hclean hrun fun _ => ?_
        refine .of_run rfl (fun _ => ⟨image, hbase, rfl⟩) (fun _ => hsame) (fun _ h => h.elim) fun _ => ?_
        exact hnext _ (hsame.congr rfl rfl)

theorem keeps_tasks {tasks : List VmCommand} (htasks : IsTasks tasks) (hs : Backed s)
    (hnext : ∀ s', Backed s' → Keeps (sessionScenario cacheKey mayRun) Backed BootsBacked rest s') :
    Keeps (sessionScenario cacheKey mayRun) Backed BootsBacked (tasks ++ rest) s := by
  induction tasks generalizing s with
  | nil => exact hnext s hs
  | cons cmd tasks ih =>
      have htail : IsTasks tasks := fun c hc => htasks c (List.mem_cons_of_mem _ hc)
      have hcmd : cmd = startVm ∨ cmd = vmExits ∨ cmd = other := by
        simpa using htasks cmd List.mem_cons_self
      rcases hcmd with rfl | rfl | rfl
      · exact keeps_startVm hs fun s' hs' => ih htail hs'
      · exact keeps_session_cons (by simp) hs rfl fun _ => ih htail (hs.congr rfl rfl)
      · exact keeps_session_cons (by simp) hs rfl fun _ => ih htail hs

theorem keeps_stopVm (hs : Backed s) :
    Keeps (sessionScenario cacheKey mayRun) Backed BootsBacked [stopVm] s :=
  keeps_session_cons (by simp) hs rfl fun _ => .nil (hs.congr rfl rfl)

theorem keeps_buildSession {tasks : List VmCommand} (htasks : IsTasks tasks) (hs : Backed s) :
    Keeps (sessionScenario cacheKey (KeepsImage cacheKey)) Backed BootsBacked (buildSession tasks) s := by
  apply keeps_cleanWork hs
  intro s₁ hs₁
  refine keeps_session_cons (by simp) hs₁ rfl fun _ => ?_
  apply keeps_session_buildVm hs₁
  intro s₂ hs₂
  exact keeps_tasks htasks hs₂ fun s₃ hs₃ => keeps_stopVm hs₃

theorem keeps_shellSession {tasks : List VmCommand} (htasks : IsTasks tasks) (hs : Backed s) :
    Keeps (sessionScenario cacheKey (KeepsImage cacheKey)) Backed BootsBacked (shellSession tasks) s := by
  have hrest : ∀ s', Backed s' → Keeps (sessionScenario cacheKey (KeepsImage cacheKey)) Backed
      BootsBacked (startVm :: tasks) s' := by
    intro s' hs'
    apply keeps_startVm hs'
    intro s'' hs''
    rw [← List.append_nil tasks]
    exact keeps_tasks htasks hs'' fun _ => .nil
  refine keeps_session_cons (by simp) hs rfl fun _ => ?_
  unfold ensureVmImageCalls
  split
  · exact hrest s hs
  · exact keeps_session_buildVm hs hrest

/-- In every sequence of sessions in which `build_vm.sh` finds no `runtime.qcow2`, or the image that
it was created on in the cache, the VM boots on the image that its disk was created on. -/
theorem boot_backed {start : VmStore Sources} {c : Config (VmStore Sources) VmCommand}
    (hstart : start.runtime = none)
    (h : Reaches (sessionScenario cacheKey (KeepsImage cacheKey)) start c)
    (hscript : c.script = boot :: rest) :
    ∃ image, c.state.base = some image ∧ c.state.runtime = some image := by
  refine h.meets_guard Backed BootsBacked ?_ ?_ (backed_of_none hstart) hscript rfl
  · intro script s hs hsession
    rcases hsession with ⟨tasks, htasks, rfl | rfl⟩ | rfl | rfl
    · exact keeps_buildSession htasks hs
    · exact keeps_shellSession htasks hs
    · exact keeps_stopVm hs
    · exact keeps_cleanWork hs fun _ => .nil
  · intro s s' hs hchange
    exact hs.congr hchange.1 hchange.2

end Sessions

/-! ### An edit between two shells -/

/-- The first `make vm-shell` on a checkout. -/
def firstShell : List VmCommand := shellSession [other]

/-- The checkout behind the first shell, with the VM stopped. -/
def stoppedStore (sources : String) : VmStore String :=
  { (runFor (language id) 11 ⟨emptyStore sources, firstShell⟩).state with
    running := false, owned := false }

theorem isTasks_other : IsTasks [other] := by simp [IsTasks]

/-- The second shell takes the image from the cache and boots the disk of the first one. -/
theorem boot_backed_secondShell :
    let c := runFor (language id) 5 ⟨stoppedStore "packages 1", firstShell⟩
    (stoppedStore "packages 1").cacheHit id ∧ c.script = [boot, other] ∧
      ∃ image, c.state.base = some image ∧ c.state.runtime = some image := by
  have hstart : ∀ s, (sessionScenario id (KeepsImage id)).Start firstShell s :=
    fun _ => Or.inl ⟨[other], isTasks_other, Or.inr rfl⟩
  have hfirst : Reaches (sessionScenario id (KeepsImage id)) (emptyStore "packages 1")
      (runFor (language id) 11 ⟨emptyStore "packages 1", firstShell⟩) := by
    refine Reaches.startFor .refl (hstart _) 11 ?_
    intro k hk cmd rest hscript hbuild
    subst hbuild
    have hk' : k = 1 := by
      interval_cases k <;> first | rfl | cases hscript
    subst hk'
    exact Or.inl rfl
  have hstopped : Reaches (sessionScenario id (KeepsImage id)) (emptyStore "packages 1")
      ⟨stoppedStore "packages 1", []⟩ := hfirst.tail (.change ⟨rfl, rfl⟩)
  have hsecond : Reaches (sessionScenario id (KeepsImage id)) (emptyStore "packages 1")
      (runFor (language id) 5 ⟨stoppedStore "packages 1", firstShell⟩) := by
    refine hstopped.startFor (hstart _) 5 ?_
    intro k hk cmd rest hscript hbuild
    subst hbuild
    have hk' : k = 1 := by
      interval_cases k <;> first | rfl | cases hscript
    subst hk'
    exact Or.inr ⟨rfl, rfl⟩
  exact ⟨rfl, rfl, boot_backed rfl hsecond rfl⟩

/-- The VM is stopped and the package list is edited before the second `make vm-shell`: it boots
the disk of the first one on a new base image. -/
theorem boot_on_other_image : ∃ c, Reaches (sessionScenario id fun _ _ => True)
      (emptyStore "packages 1") c ∧ c.script = [boot, other] ∧
    ∃ image image', c.state.base = some image ∧ c.state.runtime = some image' ∧ image ≠ image' := by
  have hstart : ∀ s : VmStore String, (sessionScenario id fun _ _ => True).Start firstShell s :=
    fun _ => Or.inl ⟨[other], isTasks_other, Or.inr rfl⟩
  have hfirst : Reaches (sessionScenario id fun _ _ => True) (emptyStore "packages 1")
      (runFor (language id) 11 ⟨emptyStore "packages 1", firstShell⟩) :=
    Reaches.startFor .refl (hstart _) 11 (fun _ _ _ _ _ => trivial)
  have hedited : Reaches (sessionScenario id fun _ _ => True) (emptyStore "packages 1")
      ⟨edited "packages 2" (stoppedStore "packages 1"), []⟩ := hfirst.tail (.change ⟨rfl, rfl⟩)
  exact ⟨_, hedited.startFor (hstart _) 9 (fun _ _ _ _ _ => trivial), rfl, _, _, rfl, rfl, by decide⟩

end VmStore

end DistroSeed
