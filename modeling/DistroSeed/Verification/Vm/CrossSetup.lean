import DistroSeed.Model.CrossSetup
import DistroSeed.Verification.Vm.CrossRoot

/-! What a cross task finds in the cross root, in runs of the scripts that are cut short anywhere. -/

namespace DistroSeed

namespace CrossSetup

open Scripts CrossCommand

variable {Content : Type*} {distros : CrossEnv → Option DistroCrossSetup}
  {effect : String → (SharedDir → Directory Content) → SharedDir → Directory Content}
  {envs : Set CrossEnv} {s s' : CrossSetup Content} {rest calls : List CrossCommand}
  {env : CrossEnv} {packagelist : List String} {files : CrossFiles}

/-! ## Stamps -/

/-- The parts of the stamp can be told apart. -/
structure DashFree (env : CrossEnv) : Prop where
  distro : '-' ∉ env.distro.toList
  release : '-' ∉ env.release.toList

theorem append_dash_inj {x x' y y' : List Char} (hx : '-' ∉ x) (hx' : '-' ∉ x')
    (h : x ++ '-' :: y = x' ++ '-' :: y') : x = x' ∧ y = y' := by
  induction x generalizing x' with
  | nil =>
      cases x' with
      | nil => exact ⟨rfl, (List.cons.inj h).2⟩
      | cons c x' =>
          obtain rfl := (List.cons.inj h).1
          simp at hx'
  | cons c x ih =>
      cases x' with
      | nil =>
          obtain rfl := (List.cons.inj h).1
          simp at hx
      | cons c' x' =>
          rw [List.cons_append, List.cons_append, List.cons.injEq] at h
          rcases h with ⟨rfl, h⟩
          rcases ih (fun hmem => hx (List.mem_cons_of_mem c hmem))
            (fun hmem => hx' (List.mem_cons_of_mem c hmem)) h with ⟨rfl, rfl⟩
          exact ⟨rfl, rfl⟩

theorem toList_stamp (env : CrossEnv) : env.stamp.toList = ".distro-seed-cross-".toList ++
    (env.distro.toList ++ '-' :: (env.release.toList ++ '-' :: env.targetArch.toList)) := by
  have hdash : "-".toList = ['-'] := rfl
  unfold CrossEnv.stamp
  simp only [String.toList_append, List.append_assoc, hdash, List.cons_append, List.nil_append]

theorem stamp_injOn (h : ∀ env ∈ envs, DashFree env) : Set.InjOn CrossEnv.stamp envs := by
  intro env henv env' henv' heq
  have hlist := congrArg String.toList heq
  rw [toList_stamp, toList_stamp] at hlist
  have hlist' := List.append_cancel_left hlist
  rcases append_dash_inj (h env henv).distro (h env' henv').distro hlist' with ⟨hdistro, hrest⟩
  rcases append_dash_inj (h env henv).release (h env' henv').release hrest with ⟨hrelease, harch⟩
  obtain ⟨distro, release, targetArch⟩ := env
  obtain ⟨distro', release', targetArch'⟩ := env'
  obtain rfl := String.toList_injective hdistro
  obtain rfl := String.toList_injective hrelease
  obtain rfl := String.toList_injective harch
  rfl

/-! ## The invariant -/

/-- Every stamp is that of a root that was set up for it, unless the removal of a root with a stamp
was cut short, which takes two different sets of variables. -/
structure Sound (distros : CrossEnv → Option DistroCrossSetup) (envs : Set CrossEnv)
    (s : CrossSetup Content) : Prop where
  known : ∀ stamp ∈ s.stamps, ∃ env ∈ envs, env.stamp = stamp
  setUp : s.partlyRemoved = false →
    ∀ stamp ∈ s.stamps, ∃ env ∈ envs, env.stamp = stamp ∧ SetUpFor distros env s.files
  removed : s.partlyRemoved = true → ∃ env ∈ envs, ∃ env' ∈ envs, env ≠ env'

/-- A cross task may start its command. -/
def Ready (distros : CrossEnv → Option DistroCrossSetup) (envs : Set CrossEnv)
    (s : CrossSetup Content) : Prop :=
  SetUpFor distros s.env s.files ∨
    s.partlyRemoved = true ∧ ∃ env ∈ envs, ∃ env' ∈ envs, env ≠ env'

def Guard (distros : CrossEnv → Option DistroCrossSetup) (envs : Set CrossEnv) (cmd : CrossCommand)
    (s : CrossSetup Content) : Prop := cmd = other "chroot" → Ready distros envs s

theorem Sound.congr (h : Sound distros envs s) (hstamps : s'.stamps = s.stamps)
    (hfiles : s'.files = s.files) (hremoved : s'.partlyRemoved = s.partlyRemoved) :
    Sound distros envs s' := by
  refine ⟨?_, ?_, ?_⟩
  · rw [hstamps]
    exact h.known
  · rw [hstamps, hfiles, hremoved]
    exact h.setUp
  · rw [hremoved]
    exact h.removed

theorem sound_of_unstamped (hstamps : s.stamps = ∅) (hremoved : s.partlyRemoved = false) :
    Sound distros envs s := by
  refine ⟨?_, ?_, ?_⟩
  · simp [hstamps]
  · simp [hstamps]
  · simp [hremoved]

theorem Sound.ready (h : Sound distros envs s) (hinj : Set.InjOn CrossEnv.stamp envs)
    (henv : s.env ∈ envs) (hstamp : s.env.stamp ∈ s.stamps) : Ready distros envs s := by
  cases hremoved : s.partlyRemoved with
  | true => exact Or.inr ⟨hremoved, h.removed hremoved⟩
  | false =>
      rcases h.setUp hremoved _ hstamp with ⟨env, henv', heq, hsetUp⟩
      obtain rfl := hinj henv' henv heq
      exact Or.inl hsetUp

/-! ## Commands -/

/-- Commands that neither write to the cross root nor remove or stamp it. -/
def IsPlain : CrossCommand → Prop
  | mount _ _ | umount _ => True
  | other name => name ∉ writers
  | setupCross _ | removeRoot | touchStamp _ => False

/-- What a command leaves alone that is no removal, stamp or call of a script. -/
structure Frame (s s' : CrossSetup Content) : Prop where
  stamps : s'.stamps = s.stamps
  env : s'.env = s.env
  packagelist : s'.packagelist = s.packagelist
  partlyRemoved : s'.partlyRemoved = s.partlyRemoved

theorem Frame.trans {s'' : CrossSetup Content} (h : Frame s s') (h' : Frame s' s'') : Frame s s'' where
  stamps := h'.stamps.trans h.stamps
  env := h'.env.trans h.env
  packagelist := h'.packagelist.trans h.packagelist
  partlyRemoved := h'.partlyRemoved.trans h.partlyRemoved

/-- The two halves of a command. -/
theorem run_eq_some {cmd : CrossCommand}
    (h : (language distros effect).run cmd s = some (s', calls)) :
    ∃ root after, (CrossRoot.language effect).run cmd s.toCrossRoot = some (root, calls) ∧
      s.effectOf distros cmd = some after ∧ s' = { after with toCrossRoot := root } := by
  rcases Option.bind_eq_some_iff.mp h with ⟨⟨root, calls'⟩, hroot, h⟩
  rcases Option.bind_eq_some_iff.mp h with ⟨after, hafter, h⟩
  obtain ⟨rfl, rfl⟩ := Prod.mk.inj (Option.some.inj h)
  exact ⟨root, after, hroot, hafter, rfl⟩

theorem effectOf_other {name : String} {after : CrossSetup Content}
    (h : s.effectOf distros (other name) = some after) : Frame s after ∧
      (name ∉ writers → after.files = s.files) ∧
      (name ∈ writers → ∃ distro tools, distros s.env = some distro ∧
        setupCrossTools s.env.targetArch = some tools ∧
        after.files = written distro tools s.env s.packagelist name s.files) := by
  have hsame : ∀ after, some s = some after → name ∉ writers → Frame s after ∧
      (name ∉ writers → after.files = s.files) ∧
      (name ∈ writers → ∃ distro tools, distros s.env = some distro ∧
        setupCrossTools s.env.targetArch = some tools ∧
        after.files = written distro tools s.env s.packagelist name s.files) := by
    intro after heq hname
    obtain rfl := Option.some.inj heq
    exact ⟨⟨rfl, rfl, rfl, rfl⟩, fun _ => rfl, fun hmem => absurd hmem hname⟩
  simp only [effectOf] at h
  split_ifs at h with hload hloaded htools hset hdeclare hdeclared hwriter
  · exact hsame after h (by rw [hload]; decide)
  · exact hsame after h (by rw [htools]; decide)
  · exact hsame after h (by rw [hdeclare]; decide)
  · cases hdistro : distros s.env with
    | none => simp [hdistro] at h
    | some distro =>
        cases htools : setupCrossTools s.env.targetArch with
        | none => simp [hdistro, htools] at h
        | some tools =>
            rw [hdistro, htools] at h
            obtain rfl := Option.some.inj h
            exact ⟨⟨rfl, rfl, rfl, rfl⟩, fun hmem => absurd hwriter hmem,
              fun _ => ⟨distro, tools, rfl, rfl, rfl⟩⟩
  · exact hsame after h hwriter

theorem stamps_run_plain {cmd : CrossCommand} (hplain : IsPlain cmd ∨ ∃ name, cmd = other name)
    {r r' : CrossRoot Content} (h : (CrossRoot.language effect).run cmd r = some (r', calls)) :
    calls = [] ∧ r'.stamps = r.stamps := by
  cases cmd with
  | mount dir env =>
      obtain ⟨rfl, rfl⟩ := Prod.mk.inj (Option.some.inj h)
      exact ⟨rfl, CrossRoot.stamps_mountDir dir env r⟩
  | umount dir | other name =>
      obtain ⟨rfl, rfl⟩ := Prod.mk.inj (Option.some.inj h)
      exact ⟨rfl, rfl⟩
  | setupCross env | removeRoot | touchStamp env => simp [IsPlain] at hplain

/-- A plain command. -/
theorem run_plain {cmd : CrossCommand} (hplain : IsPlain cmd)
    (h : (language distros effect).run cmd s = some (s', calls)) :
    calls = [] ∧ Frame s s' ∧ s'.files = s.files := by
  rcases run_eq_some h with ⟨root, after, hroot, hafter, rfl⟩
  rcases stamps_run_plain (Or.inl hplain) hroot with ⟨rfl, hstamps⟩
  cases cmd with
  | mount dir env | umount dir =>
      obtain rfl := Option.some.inj hafter
      exact ⟨rfl, ⟨hstamps, rfl, rfl, rfl⟩, rfl⟩
  | other name =>
      rcases effectOf_other hafter with ⟨hframe, hfiles, _⟩
      exact ⟨rfl, ⟨hstamps, hframe.env, hframe.packagelist, hframe.partlyRemoved⟩, hfiles hplain⟩
  | setupCross env | removeRoot | touchStamp env => exact absurd hplain (by simp [IsPlain])

/-- A command that writes to the cross root. -/
theorem run_writer {name : String} (hname : name ∈ writers)
    (h : (language distros effect).run (other name) s = some (s', calls)) :
    calls = [] ∧ Frame s s' ∧ ∃ distro tools, distros s.env = some distro ∧
      setupCrossTools s.env.targetArch = some tools ∧
      s'.files = written distro tools s.env s.packagelist name s.files := by
  rcases run_eq_some h with ⟨root, after, hroot, hafter, rfl⟩
  rcases stamps_run_plain (Or.inr ⟨name, rfl⟩) hroot with ⟨rfl, hstamps⟩
  rcases effectOf_other hafter with ⟨hframe, _, hfiles⟩
  exact ⟨rfl, ⟨hstamps, hframe.env, hframe.packagelist, hframe.partlyRemoved⟩, hfiles hname⟩

theorem fails_plain {cmd : CrossCommand} (hplain : IsPlain cmd)
    (h : (language distros effect).Fails cmd s s') :
    s'.stamps = s.stamps ∧ s'.files = s.files ∧ s'.partlyRemoved = s.partlyRemoved := by
  cases cmd with
  | other name => exact ⟨h.1.2, h.2.2 hplain, h.2.1⟩
  | removeRoot => exact absurd hplain (by simp [IsPlain])
  | setupCross env | touchStamp env | mount dir env | umount dir => exact h.1.elim

theorem fails_other {name : String} (h : (language distros effect).Fails (other name) s s') :
    s'.stamps = s.stamps ∧ s'.partlyRemoved = s.partlyRemoved := ⟨h.1.2, h.2.1⟩

/-! ## Stretches of scripts -/

/-- Plain commands keep the cross root as it is. -/
theorem keeps_plain {cmds : List CrossCommand} (hplain : ∀ cmd ∈ cmds, IsPlain cmd)
    (hs : Sound distros envs s) (hready : other "chroot" ∈ cmds → Ready distros envs s)
    (hnext : ∀ s' : CrossSetup Content, Frame s s' → s'.files = s.files →
      Keeps (scenario distros effect envs) (Sound distros envs) (Guard distros envs) rest s') :
    Keeps (scenario distros effect envs) (Sound distros envs) (Guard distros envs) (cmds ++ rest) s := by
  induction cmds generalizing s with
  | nil => exact hnext s ⟨rfl, rfl, rfl, rfl⟩ rfl
  | cons cmd cmds ih =>
      have hcmd : IsPlain cmd := hplain cmd List.mem_cons_self
      refine .cons ?_ (fun _ => hs) ?_ ?_
      · rintro rfl
        exact hready List.mem_cons_self
      · intro s' hfails
        rcases fails_plain hcmd hfails with ⟨hstamps, hfiles, hremoved⟩
        exact hs.congr hstamps hfiles hremoved
      · intro s' calls _ hrun
        rcases run_plain hcmd hrun with ⟨rfl, hframe, hfiles⟩
        refine ih (fun cmd' hcmd' => hplain cmd' (List.mem_cons_of_mem cmd hcmd'))
          (hs.congr hframe.stamps hfiles hframe.partlyRemoved) ?_ ?_
        · intro hmem
          rcases hready (List.mem_cons_of_mem cmd hmem) with hsetUp | hremoved
          · rw [Ready, hframe.env, hfiles]
            exact Or.inl hsetUp
          · rw [Ready, hframe.partlyRemoved]
            exact Or.inr hremoved
        · intro s'' hframe' hfiles'
          exact hnext s'' (hframe.trans hframe') (hfiles'.trans hfiles)

/-- A root without a stamp, while the script for `env` fills it. -/
structure Building (env : CrossEnv) (packagelist : List String) (files : CrossFiles)
    (s : CrossSetup Content) : Prop where
  stamps : s.stamps = ∅
  removed : s.partlyRemoved = false
  env : s.env = env
  packagelist : s.packagelist = packagelist
  files : s.files = files

theorem Building.sound (h : Building env packagelist files s) : Sound distros envs s :=
  sound_of_unstamped h.stamps h.removed

theorem Building.frame (h : Building env packagelist files s) {files' : CrossFiles}
    (hframe : Frame s s') (hfiles : s'.files = files') : Building env packagelist files' s' where
  stamps := hframe.stamps.trans h.stamps
  removed := hframe.partlyRemoved.trans h.removed
  env := hframe.env.trans h.env
  packagelist := hframe.packagelist.trans h.packagelist
  files := hfiles

theorem keeps_building {cmds : List CrossCommand} (hs : Building env packagelist files s)
    (hplain : ∀ cmd ∈ cmds, IsPlain cmd ∧ cmd ≠ other "chroot")
    (hnext : ∀ s' : CrossSetup Content, Building env packagelist files s' →
      Keeps (scenario distros effect envs) (Sound distros envs) (Guard distros envs) rest s') :
    Keeps (scenario distros effect envs) (Sound distros envs) (Guard distros envs) (cmds ++ rest) s := by
  refine keeps_plain (fun cmd hcmd => (hplain cmd hcmd).1) hs.sound ?_ ?_
  · intro hmem
    exact absurd rfl (hplain _ hmem).2
  · intro s' hframe hfiles
    exact hnext s' (hs.frame hframe (hfiles.trans hs.files))

/-- A command that writes to the root. -/
theorem keeps_writer {name : String} (hs : Building env packagelist files s) (hname : name ∈ writers)
    (hnext : ∀ (s' : CrossSetup Content) distro tools, distros env = some distro →
      setupCrossTools env.targetArch = some tools →
      Building env packagelist (written distro tools env packagelist name files) s' →
        Keeps (scenario distros effect envs) (Sound distros envs) (Guard distros envs) rest s') :
    Keeps (scenario distros effect envs) (Sound distros envs) (Guard distros envs)
      (other name :: rest) s := by
  refine .cons ?_ (fun _ => hs.sound) ?_ ?_
  · intro hcmd
    obtain rfl := CrossCommand.other.inj hcmd
    exact absurd hname (by decide)
  · intro s' hfails
    rcases fails_other hfails with ⟨hstamps, hremoved⟩
    exact sound_of_unstamped (hstamps.trans hs.stamps) (hremoved.trans hs.removed)
  · intro s' calls _ hrun
    rcases run_writer hname hrun with ⟨rfl, hframe, distro, tools, hdistro, htools, hfiles⟩
    rw [hs.env] at hdistro htools
    rw [hs.env, hs.packagelist, hs.files] at hfiles
    exact hnext s' distro tools hdistro htools (hs.frame hframe hfiles)

theorem keeps_removeRoot (hs : Sound distros envs s) (henv : s.env ∈ envs)
    (hstamp : s.env.stamp ∉ s.stamps)
    (hnext : ∀ s' : CrossSetup Content, s'.stamps = ∅ → s'.partlyRemoved = false → s'.files = {} →
      s'.env = s.env → s'.packagelist = s.packagelist →
        Keeps (scenario distros effect envs) (Sound distros envs) (Guard distros envs) rest s') :
    Keeps (scenario distros effect envs) (Sound distros envs) (Guard distros envs)
      (removeRoot :: rest) s := by
  refine .cons (fun hcmd => by cases hcmd) (fun _ => hs) ?_ ?_
  · intro s' hfails
    have hremoved : s'.partlyRemoved = (s.partlyRemoved || s.stamps ≠ ∅) := hfails.2
    have hsubset : s'.stamps ⊆ s.stamps := hfails.1.2.1
    refine ⟨fun stamp hmem => hs.known stamp (hsubset hmem), ?_, ?_⟩
    · intro hfalse stamp hmem
      rw [hremoved, Bool.or_eq_false_iff] at hfalse
      have hnone : s.stamps = ∅ := by simpa using hfalse.2
      rw [hnone] at hsubset
      exact absurd (hsubset hmem) (Finset.notMem_empty stamp)
    · intro htrue
      rw [hremoved, Bool.or_eq_true] at htrue
      rcases htrue with htrue | hnonempty
      · exact hs.removed htrue
      · -- the root has the stamp of other variables
        have hne : s.stamps ≠ ∅ := by simpa using hnonempty
        rcases Finset.nonempty_iff_ne_empty.mpr hne with ⟨stamp, hmem⟩
        rcases hs.known stamp hmem with ⟨env', henv', rfl⟩
        exact ⟨s.env, henv, env', henv', fun heq => hstamp (heq ▸ hmem)⟩
  · intro s' calls _ hrun
    rcases run_eq_some hrun with ⟨root, after, hroot, hafter, rfl⟩
    obtain rfl := Option.some.inj hafter
    have hroot' : (if s.toCrossRoot.hasMount then none
        else some ({ s.toCrossRoot with stamps := ∅ }, [])) = some (root, calls) := hroot
    split_ifs at hroot'
    obtain ⟨rfl, rfl⟩ := Prod.mk.inj (Option.some.inj hroot')
    exact hnext _ rfl rfl rfl rfl rfl

theorem isPlain_mountCrossRuntime :
    ∀ cmd ∈ CrossRoot.mountCrossRuntime env, IsPlain cmd ∧ cmd ≠ other "chroot" := by
  intro cmd hcmd
  simp only [CrossRoot.mountCrossRuntime, List.mem_cons, List.not_mem_nil, or_false] at hcmd
  rcases hcmd with rfl | rfl | rfl | rfl | rfl
  · simp [IsPlain, writers]
  · simp [IsPlain]
  · simp [IsPlain]
  · simp [IsPlain]
  · simp [IsPlain]

theorem keeps_touchStamp (hs : Building env packagelist files s) (henv : env ∈ envs)
    (hsetUp : SetUpFor distros env files)
    (hnext : ∀ s' : CrossSetup Content, Sound distros envs s' → s'.env = env →
      env.stamp ∈ s'.stamps →
        Keeps (scenario distros effect envs) (Sound distros envs) (Guard distros envs) rest s') :
    Keeps (scenario distros effect envs) (Sound distros envs) (Guard distros envs)
      (touchStamp env :: rest) s := by
  have honly : ∀ stamp ∈ insert env.stamp s.stamps, env.stamp = stamp := by
    intro stamp hmem
    rw [hs.stamps, insert_empty_eq, Finset.mem_singleton] at hmem
    exact hmem.symm
  have hrun : (language distros effect).run (touchStamp env) s =
      some ({ s with stamps := insert env.stamp s.stamps }, []) := rfl
  refine .of_run hrun (fun hcmd => by cases hcmd) (fun _ => hs.sound)
    (fun s' hfails => hfails.1.elim) fun _ => ?_
  refine hnext _ ⟨?_, ?_, ?_⟩ hs.env (Finset.mem_insert_self _ _)
  · intro stamp hmem
    exact ⟨env, henv, honly stamp hmem⟩
  · intro _ stamp hmem
    exact ⟨env, henv, honly stamp hmem, hs.files.symm ▸ hsetUp⟩
  · intro htrue
    exact absurd (hs.removed.symm.trans htrue) (by decide)

/-- From the removal to the stamp. -/
theorem keeps_fill (hs : Building env packagelist {} s) (henv : env ∈ envs)
    (hnext : ∀ s' : CrossSetup Content, Sound distros envs s' → s'.env = env →
      env.stamp ∈ s'.stamps →
        Keeps (scenario distros effect envs) (Sound distros envs) (Guard distros envs) rest s') :
    Keeps (scenario distros effect envs) (Sound distros envs) (Guard distros envs)
      ([other "mkdir"] ++ (other "mmdebstrap" :: (CrossRoot.mountCrossRuntime env ++
        (other "dpkg" :: ([other "install"] ++ (other "write_cross_sources" :: other "apt-get" ::
          other "ln" :: other "cat" :: touchStamp env :: rest)))))) s := by
  apply keeps_building hs (by simp [IsPlain, writers])
  intro s₁ hs₁
  apply keeps_writer hs₁ (by decide)
  intro s₂ distro tools hdistro htools hs₂
  -- the distro and the tools are those of every later command
  have hwriter : ∀ {name files rest} {s : CrossSetup Content}, name ∈ writers →
      Building env packagelist files s →
      (∀ s', Building env packagelist (written distro tools env packagelist name files) s' →
        Keeps (scenario distros effect envs) (Sound distros envs) (Guard distros envs) rest s') →
      Keeps (scenario distros effect envs) (Sound distros envs) (Guard distros envs)
        (other name :: rest) s := by
    intro name files rest s hname hs hnext
    refine keeps_writer hs hname fun s' distro' tools' hdistro' htools' hs' => hnext s' ?_
    obtain rfl := Option.some.inj (hdistro.symm.trans hdistro')
    obtain rfl := Option.some.inj (htools.symm.trans htools')
    exact hs'
  apply keeps_building hs₂ isPlain_mountCrossRuntime
  intro s₃ hs₃
  apply hwriter (by decide) hs₃
  intro s₄ hs₄
  apply keeps_building hs₄ (by simp [IsPlain, writers])
  intro s₅ hs₅
  apply hwriter (by decide) hs₅
  intro s₆ hs₆
  apply hwriter (by decide) hs₆
  intro s₇ hs₇
  apply hwriter (by decide) hs₇
  intro s₈ hs₈
  apply hwriter (by decide) hs₈
  intro s₉ hs₉
  exact keeps_touchStamp hs₉ henv ⟨distro, tools, packagelist, hdistro, htools, rfl⟩ hnext

/-- `setup-cross.sh` without its stamp. -/
theorem keeps_createCrossRoot (hs : Sound distros envs s) (henv : env ∈ envs) (hsame : s.env = env)
    (hstamp : env.stamp ∉ s.stamps)
    (hnext : ∀ s' : CrossSetup Content, Sound distros envs s' → s'.env = env →
      env.stamp ∈ s'.stamps →
        Keeps (scenario distros effect envs) (Sound distros envs) (Guard distros envs) rest s') :
    Keeps (scenario distros effect envs) (Sound distros envs) (Guard distros envs)
      (CrossRoot.createCrossRoot env ++ rest) s := by
  have hscript : CrossRoot.createCrossRoot env ++ rest =
      (["load_distro_cross_setup", "collect_packages", "setup_cross_tools", "declare"].map other ++
        CrossRoot.unmountCrossRuntime) ++ (removeRoot ::
      ([other "mkdir"] ++ (other "mmdebstrap" :: (CrossRoot.mountCrossRuntime env ++
        (other "dpkg" :: ([other "install"] ++ (other "write_cross_sources" :: other "apt-get" ::
          other "ln" :: other "cat" :: touchStamp env :: rest))))))) := rfl
  rw [hscript]
  apply keeps_plain (by simp [IsPlain, writers, CrossRoot.unmountCrossRuntime]) hs
    (by simp [CrossRoot.unmountCrossRuntime])
  intro s₁ hframe hfiles
  have henv₁ : s₁.env = env := hframe.env.trans hsame
  apply keeps_removeRoot (hs.congr hframe.stamps hfiles hframe.partlyRemoved) (henv₁ ▸ henv)
    (by rw [henv₁, hframe.stamps]; exact hstamp)
  intro s₂ hstamps₂ hremoved₂ hfiles₂ henv₂ hpackagelist₂
  exact keeps_fill ⟨hstamps₂, hremoved₂, henv₂.trans henv₁, rfl, hfiles₂⟩ henv hnext

theorem keeps_setupCross (hs : Sound distros envs s) (henv : env ∈ envs)
    (hnext : ∀ s' : CrossSetup Content, Sound distros envs s' → s'.env = env →
      env.stamp ∈ s'.stamps →
        Keeps (scenario distros effect envs) (Sound distros envs) (Guard distros envs) rest s') :
    Keeps (scenario distros effect envs) (Sound distros envs) (Guard distros envs)
      (setupCross env :: rest) s := by
  have hs' : Sound distros envs { s with env := env } := hs.congr rfl rfl rfl
  have hrun : (language distros effect).run (setupCross env) s =
      some ({ s with env := env }, s.setupCrossCalls env) := rfl
  refine .of_run hrun (fun hcmd => by cases hcmd) (fun _ => hs)
    (fun s' hfails => hfails.1.elim) fun _ => ?_
  unfold CrossRoot.setupCrossCalls
  split_ifs with hstamp
  · refine keeps_plain (fun cmd hcmd => (isPlain_mountCrossRuntime cmd hcmd).1) hs'
      (fun hmem => absurd rfl (isPlain_mountCrossRuntime _ hmem).2) ?_
    intro s₁ hframe hfiles
    exact hnext s₁ (hs'.congr hframe.stamps hfiles hframe.partlyRemoved) hframe.env
      (hframe.stamps ▸ hstamp)
  · exact keeps_createCrossRoot hs' henv rfl hstamp hnext

theorem keeps_invocation {invocation : CrossRoot.Invocation} (hs : Sound distros envs s)
    (henv : invocation.env ∈ envs) (hinj : Set.InjOn CrossEnv.stamp envs) :
    Keeps (scenario distros effect envs) (Sound distros envs) (Guard distros envs)
      invocation.script s := by
  cases invocation with
  | setup env => exact keeps_setupCross hs henv fun s' hs' _ _ => .nil hs'
  | task env =>
      have hplain : ∀ cmd ∈ (CrossRoot.runCrossTask env).tail, IsPlain cmd := by
        simp [CrossRoot.runCrossTask, CrossRoot.mountShared, SharedDir.all, IsPlain, writers]
      have hscript : (CrossRoot.Invocation.task env).script =
          setupCross env :: ((CrossRoot.runCrossTask env).tail ++ []) := rfl
      rw [hscript]
      apply keeps_setupCross hs henv
      intro s₁ hs₁ hsame hstamp
      apply keeps_plain hplain hs₁ fun _ => hs₁.ready hinj (hsame ▸ henv) (hsame ▸ hstamp)
      intro s₂ hframe hfiles
      exact .nil (hs₁.congr hframe.stamps hfiles hframe.partlyRemoved)

/-! ## Cross tasks -/

/-- However often the scripts were cut short since the VM was booted, a cross task starts its command
in a cross root that one run of `setup-cross.sh` for its variables has filled, unless the removal of
a cross root for other variables was cut short behind its stamp. -/
theorem setUpFor_of_chroot {boot : CrossSetup Content}
    {c : Config (CrossSetup Content) CrossCommand} (hstamps : boot.stamps = ∅)
    (hremoved : boot.partlyRemoved = false) (henvs : ∀ env ∈ envs, DashFree env)
    (h : Reaches (scenario distros effect envs) boot c) (hscript : c.script = other "chroot" :: rest) :
    SetUpFor distros c.state.env c.state.files ∨
      c.state.partlyRemoved = true ∧ ∃ env ∈ envs, ∃ env' ∈ envs, env ≠ env' := by
  refine h.meets_guard (Sound distros envs) (Guard distros envs) ?_ ?_
    (sound_of_unstamped hstamps hremoved) hscript rfl
  · intro script s hs hstart
    rcases hstart with ⟨invocation, rfl, henv⟩
    exact keeps_invocation hs henv (stamp_injOn henvs)
  · intro s s' hs hchange
    exact hs.congr hchange.2.1 hchange.2.2.1 hchange.2.2.2

/-! ## Two target architectures in one boot -/

/-- The `cross-setup.sh` of a Debian release. -/
def debianCrossSetup (env : CrossEnv) : Option DistroCrossSetup :=
  if env.distro = "debian" then
    some { mirror := "http://deb.debian.org/debian"
           components := "main contrib non-free non-free-firmware"
           keyring := "/usr/share/keyrings/debian-archive-keyring.gpg"
           sources := [("/etc/apt/sources.list",
             "deb [arch=amd64] http://deb.debian.org/debian " ++ env.release ++
               " main contrib non-free non-free-firmware\n" ++
             "deb [arch=" ++ env.targetArch ++ "] http://deb.debian.org/debian " ++ env.release ++
               " main\n")] }
  else none

def freshSetup : CrossSetup String where
  toCrossRoot := CrossRoot.freshBoot
  env := CrossRoot.armhfEnv
  packagelist := ["libdrm-dev:armhf"]
  files := {}
  partlyRemoved := false

/-- The script `invocation` in the state `s`, stopped behind `n` commands. -/
def after (invocation : CrossRoot.Invocation) (s : CrossSetup String) (n : ℕ) :
    Config (CrossSetup String) CrossCommand :=
  runFor (language debianCrossSetup CrossRoot.noEffect) n ⟨s, invocation.script⟩

theorem reaches_after (invocation : CrossRoot.Invocation) {boot s : CrossSetup String}
    (h : Reaches (scenario debianCrossSetup CrossRoot.noEffect envs) boot ⟨s, []⟩)
    (henv : invocation.env ∈ envs) (n : ℕ) :
    Reaches (scenario debianCrossSetup CrossRoot.noEffect envs) boot (after invocation s n) := by
  have hstart : (scenario debianCrossSetup CrossRoot.noEffect envs).Start invocation.script s :=
    ⟨invocation, rfl, henv⟩
  exact h.startFor hstart n fun _ _ _ _ _ => trivial

theorem setUpFor_of_chroot_freshSetup :
    let c := after (.task CrossRoot.armhfEnv) freshSetup 39
    c.script.head? = some (other "chroot") ∧
      (SetUpFor debianCrossSetup c.state.env c.state.files ∨
        c.state.partlyRemoved = true ∧
          ∃ env ∈ ({CrossRoot.armhfEnv} : Set CrossEnv), ∃ env' ∈ ({CrossRoot.armhfEnv} : Set CrossEnv),
            env ≠ env') := by
  have hfree : ∀ env ∈ ({CrossRoot.armhfEnv} : Set CrossEnv), DashFree env := by
    intro env henv
    obtain rfl := Set.mem_singleton_iff.mp henv
    exact ⟨by decide, by decide⟩
  have hreaches : Reaches (scenario debianCrossSetup CrossRoot.noEffect {CrossRoot.armhfEnv})
      freshSetup (after (.task CrossRoot.armhfEnv) freshSetup 39) :=
    reaches_after (.task CrossRoot.armhfEnv) .refl (Set.mem_singleton _) 39
  exact ⟨rfl, setUpFor_of_chroot rfl rfl hfree hreaches rfl⟩

theorem not_setUpFor_empty : ¬ SetUpFor distros env {} := by
  rintro ⟨distro, tools, packagelist, _, _, hfiles⟩
  cases congrArg CrossFiles.base hfiles

/-- The removal for another architecture is cut short with the stamp still there, so the next cross
task for the first one starts in an empty cross root. -/
theorem chroot_of_partlyRemoved : ∃ c, Reaches (scenario debianCrossSetup CrossRoot.noEffect Set.univ)
    freshSetup c ∧ c.script.head? = some (other "chroot") ∧ c.state.env = CrossRoot.armhfEnv ∧
      ¬ SetUpFor debianCrossSetup c.state.env c.state.files := by
  let filled := (after (.setup CrossRoot.armhfEnv) freshSetup 50).state
  have hfilled : Reaches (scenario debianCrossSetup CrossRoot.noEffect Set.univ) freshSetup
      ⟨filled, []⟩ := reaches_after (.setup CrossRoot.armhfEnv) .refl (Set.mem_univ _) 50
  let s := (after (.setup CrossRoot.arm64Env) filled 9).state
  have hsetup : Reaches (scenario debianCrossSetup CrossRoot.noEffect Set.univ) freshSetup
      (after (.setup CrossRoot.arm64Env) filled 9) :=
    reaches_after (.setup CrossRoot.arm64Env) hfilled (Set.mem_univ _) 9
  let cut : CrossSetup String := { s with files := {}, partlyRemoved := true }
  have hfails : (language debianCrossSetup CrossRoot.noEffect).Fails removeRoot s cut :=
    ⟨⟨rfl, subset_rfl, fun _ _ => rfl⟩, by decide⟩
  have hcut : Reaches (scenario debianCrossSetup CrossRoot.noEffect Set.univ) freshSetup ⟨cut, []⟩ :=
    hsetup.tail (.fail hfails)
  exact ⟨_, reaches_after (.task CrossRoot.armhfEnv) hcut (Set.mem_univ _) 21, rfl, rfl,
    not_setUpFor_empty⟩

end CrossSetup

end DistroSeed
