import DistroSeed.Verification.Vm.Sessions
import Mathlib.Tactic.IntervalCases

/-! Whether a session ends the VM of another one. -/

namespace DistroSeed

namespace VmHost

open VmPoint

variable {s s' : VmHost}

/-- The VM is recorded, and in `distro-seed.pid` is another session that lives. -/
structure OthersVm (sessionPid vm : ℕ) (s : VmHost) : Prop where
  live : vm ∈ s.vms
  recorded : s.qemuPid = some vm
  owner : ∃ owner, s.dsPid = some owner ∧ owner ≠ sessionPid ∧ (s.sessions owner).isSome

/-- A session ends the VM of another one. -/
def EndsOthersVm (event : VmEvent) (s s' : VmHost) : Prop :=
  ∃ pid answered session vm, event = .run pid answered ∧ s.sessions pid = some session ∧
    OthersVm session.sessionPid vm s ∧ vm ∉ s'.vms

/-! ## What a session relies on -/

/-- The pids in use. -/
structure PidsUsed (s : VmHost) : Prop where
  dsPid : ∀ owner, s.dsPid = some owner → owner < s.nextPid
  sessions : ∀ pid session, s.sessions pid = some session →
    pid < s.nextPid ∧ session.sessionPid < s.nextPid

/-- A step that starts no VM, gives it no new owner and brings no session back. -/
structure OwnerQuiet (s s' : VmHost) : Prop extends Quiet s s' where
  dsPid : s'.dsPid = none ∨ s'.dsPid = s.dsPid
  nextPid : s.nextPid ≤ s'.nextPid
  sessions : ∀ pid < s.nextPid, (s'.sessions pid).isSome → (s.sessions pid).isSome

theorem OthersVm.of_quiet {sessionPid vm : ℕ} (h : OthersVm sessionPid vm s')
    (hpids : PidsUsed s) (hquiet : OwnerQuiet s s') : OthersVm sessionPid vm s := by
  obtain ⟨owner, howner, hne, halive⟩ := h.owner
  have hsame : s'.dsPid = s.dsPid := by
    rcases hquiet.dsPid with hnone | hsame
    · simp [hnone] at howner
    · exact hsame
  have hrecorded : s'.qemuPid = s.qemuPid := by
    rcases hquiet.qemuPid with hnone | hsame
    · have := h.recorded
      simp [hnone] at this
    · exact hsame
  rw [hsame] at howner
  exact ⟨hquiet.vms h.live, hrecorded ▸ h.recorded, owner, howner, hne,
    hquiet.sessions owner (hpids.dsPid owner howner) halive⟩

/-- What a session in `cleanup_abandoned_vm` knows of the owner, and what one that is about to end
a VM knows of that VM. -/
def OwnerOk (sessionPid : ℕ) : VmPoint → VmHost → Prop
  | cleanupQemuPid dsPid, s | cleanupCheck dsPid _, s => s.dsPid = none ∨ s.dsPid = dsPid
  | cleanupKill qemuPid, s => ¬ OthersVm sessionPid qemuPid s
  | stopCheck _, s | stopPowerOff, s | stopQemuPid, s | stopWait _, s =>
      ∀ vm, ¬ OthersVm sessionPid vm s
  | _, _ => True

theorem OwnerOk.quiet {sessionPid : ℕ} {point : VmPoint} (h : OwnerOk sessionPid point s)
    (hpids : PidsUsed s) (hquiet : OwnerQuiet s s') : OwnerOk sessionPid point s' := by
  have hread : ∀ dsPid, (s.dsPid = none ∨ s.dsPid = dsPid) → s'.dsPid = none ∨ s'.dsPid = dsPid := by
    intro dsPid hold
    rcases hquiet.dsPid with hnone | hsame
    · exact Or.inl hnone
    · rwa [hsame]
  have hvms : (∀ vm, ¬ OthersVm sessionPid vm s) → ∀ vm, ¬ OthersVm sessionPid vm s' :=
    fun hnot vm hvm => hnot vm (hvm.of_quiet hpids hquiet)
  cases point with
  | cleanupQemuPid dsPid => exact hread dsPid h
  | cleanupCheck dsPid qemuPid => exact hread dsPid h
  | cleanupKill qemuPid => exact fun hvm => h (hvm.of_quiet hpids hquiet)
  | stopCheck qemuPid => exact hvms h
  | stopPowerOff => exact hvms h
  | stopQemuPid => exact hvms h
  | stopWait qemuPid => exact hvms h
  | _ => trivial

/-! ## One step in start_vm or stop_vm -/

/-- The points that change the VM or its owner. -/
def isWrite : VmPoint → Bool
  | startDsPid _ | launch _ => true
  | _ => false

theorem ownerQuiet_advance (self sessionPid : ℕ) (answered : Bool) {point : VmPoint}
    (h : isWrite point = false) : OwnerQuiet s (s.advance self sessionPid answered point).1 := by
  have hquiet : Quiet s (s.advance self sessionPid answered point).1 := by
    apply quiet_advance
    rintro qemuPid rfl
    cases h
  have hunlink : ∀ file, (s.unlink file).dsPid = none ∨ (s.unlink file).dsPid = s.dsPid := by
    intro file
    cases file
    · exact Or.inr rfl
    · exact Or.inl rfl
    · exact Or.inr rfl
  refine ⟨hquiet, ?_, (nextPid_advance self sessionPid answered point), ?_⟩
  · cases point with
    | startDsPid qemuPid => cases h
    | launch qemuPid => cases h
    | cleanupUnlink qemuPid file => exact hunlink file
    | startUnlink qemuPid => exact hunlink .controlSock
    | stopUnlink qemuPid file => exact hunlink file
    | _ =>
        dsimp only [advance]
        (repeat' split) <;> exact Or.inr rfl
  · intro pid _ hsome
    rwa [sessions_advance] at hsome

/-- A VM with a living owner is not killed by `cleanup_abandoned_vm`. -/
theorem ownerOk_cleanupKill {self sessionPid : ℕ} {answered : Bool} {dsPid : Option ℕ}
    {qemuPid : ℕ} (h : OwnerOk sessionPid (cleanupCheck dsPid qemuPid) s)
    (hnext : (s.advance self sessionPid answered (cleanupCheck dsPid qemuPid)).2 =
      some (cleanupKill qemuPid)) : OwnerOk sessionPid (cleanupKill qemuPid) s := by
  intro hvm
  obtain ⟨owner, howner, _, halive⟩ := hvm.owner
  have hread : dsPid = some owner := by
    rcases h with hnone | hsame
    · simp [hnone] at howner
    · rw [← hsame, howner]
  have hvmAlive : s.pidAlive qemuPid := by simp [pidAlive, hvm.live]
  have hownerAlive : s.pidAlive owner := by simp [pidAlive, halive]
  simp [advance, hread, hvmAlive, hownerAlive] at hnext

theorem ownerOk_advance (self : ℕ) {sessionPid : ℕ} (answered : Bool) {point next : VmPoint}
    (h : OwnerOk sessionPid point s) (hpids : PidsUsed s)
    (hnext : (s.advance self sessionPid answered point).2 = some next) :
    OwnerOk sessionPid next (s.advance self sessionPid answered point).1 := by
  cases point with
  | cleanupDsPid =>
      obtain rfl := Option.some.inj hnext
      exact Or.inr rfl
  | cleanupQemuPid dsPid =>
      cases hread : s.qemuPid with
      | none =>
          simp only [advance, hread] at hnext ⊢
          obtain rfl := Option.some.inj hnext
          trivial
      | some qemuPid =>
          simp only [advance, hread] at hnext ⊢
          obtain rfl := Option.some.inj hnext
          exact h
  | cleanupCheck dsPid qemuPid =>
      have hstate : (s.advance self sessionPid answered (cleanupCheck dsPid qemuPid)).1 = s := by
        simp only [advance]
        (repeat' split) <;> rfl
      have hwhere : next = startQemuPid ∨ next = cleanupKill qemuPid := by
        simp only [advance] at hnext
        (repeat' split at hnext) <;> obtain rfl := Option.some.inj hnext <;> simp
      rw [hstate]
      rcases hwhere with rfl | rfl
      · trivial
      · exact ownerOk_cleanupKill h hnext
  | cleanupUnlink qemuPid file => cases file <;> cases hnext <;> trivial
  | stopCheck qemuPid =>
      obtain rfl := Option.some.inj hnext
      split
      · exact h
      · exact h
  | stopPowerOff =>
      have hquiet := ownerQuiet_advance (s := s) self sessionPid answered
        (show isWrite stopPowerOff = false from rfl)
      obtain rfl := Option.some.inj hnext
      exact fun vm hvm => h vm (hvm.of_quiet hpids hquiet)
  | stopQemuPid =>
      obtain rfl := Option.some.inj hnext
      exact h
  | stopUnlink qemuPid file => cases file <;> cases hnext <;> trivial
  | _ =>
      simp only [advance] at hnext
      (repeat' split at hnext) <;> cases hnext <;> trivial

/-! ## Runs -/

/-- No session is about to end the VM of another one when it enters `stop_vm`, and the owner is
written and qemu started only while no other session is in `start_vm` or `stop_vm`. -/
def RespectsOwner (event : VmEvent) (s : VmHost) : Prop :=
  ∀ pid answered session, event = .run pid answered → s.sessions pid = some session →
    (∀ rest, session.point = none → session.script = .stopVm :: rest →
      ∀ vm, ¬ OthersVm session.sessionPid vm s) ∧
    ∀ point, session.point = some point → isWrite point → s.Alone pid

structure OwnerInv (s : VmHost) : Prop where
  pids : PidsUsed s
  points : AtPoints (fun session => OwnerOk session.sessionPid) s

theorem OwnerQuiet.trans {t : VmHost} (h : OwnerQuiet s s') (h' : OwnerQuiet s' t) :
    OwnerQuiet s t := by
  refine ⟨⟨?_, fun _ hvm => h.vms (h'.vms hvm)⟩, ?_, h.nextPid.trans h'.nextPid, ?_⟩
  · rcases h'.qemuPid with hnone | hsame
    · exact Or.inl hnone
    · rw [hsame]
      exact h.qemuPid
  · rcases h'.dsPid with hnone | hsame
    · exact Or.inl hnone
    · rw [hsame]
      exact h.dsPid
  · intro pid hpid hsome
    exact h.sessions pid hpid (h'.sessions pid (Nat.lt_of_lt_of_le hpid h.nextPid) hsome)

theorem ownerQuiet_setSession {pid : ℕ} {session : Option Session}
    (h : session.isSome → pid < s.nextPid → (s.sessions pid).isSome) :
    OwnerQuiet s (s.setSession pid session) := by
  refine ⟨⟨Or.inr rfl, fun _ h => h⟩, Or.inr rfl, Nat.le_refl _, fun other hlt hsome => ?_⟩
  by_cases hpid : other = pid
  · subst hpid
    rw [sessions_setSession_self] at hsome
    exact h hsome hlt
  · rwa [sessions_setSession_of_ne hpid] at hsome

theorem PidsUsed.of_quiet (h : PidsUsed s) (hquiet : OwnerQuiet s s')
    (hsessions : s'.sessions = s.sessions) : PidsUsed s' := by
  constructor
  · intro owner howner
    apply Nat.lt_of_lt_of_le ?_ hquiet.nextPid
    rcases hquiet.dsPid with hnone | hsame
    · simp [hnone] at howner
    · exact h.dsPid owner (hsame ▸ howner)
  · intro pid session hsession
    rw [hsessions] at hsession
    exact (h.sessions pid session hsession).imp (Nat.lt_of_lt_of_le · hquiet.nextPid)
      (Nat.lt_of_lt_of_le · hquiet.nextPid)

theorem PidsUsed.setSession (h : PidsUsed s) {pid : ℕ} {session : Option Session}
    (hnew : ∀ new, session = some new → pid < s.nextPid ∧ new.sessionPid < s.nextPid) :
    PidsUsed (s.setSession pid session) := by
  refine ⟨h.dsPid, fun other found hfound => ?_⟩
  by_cases hother : other = pid
  · subst hother
    rw [sessions_setSession_self] at hfound
    exact hnew found hfound
  · rw [sessions_setSession_of_ne hother] at hfound
    exact h.sessions other found hfound

theorem pidsUsed_advance (pid : ℕ) {sessionPid : ℕ} (answered : Bool) (point : VmPoint)
    (h : PidsUsed s) (hsessionPid : sessionPid < s.nextPid) :
    PidsUsed (s.advance pid sessionPid answered point).1 := by
  cases hwrite : isWrite point with
  | false => exact h.of_quiet (ownerQuiet_advance pid sessionPid answered hwrite) (sessions_advance ..)
  | true =>
      cases point with
      | startDsPid qemuPid =>
          refine ⟨fun owner howner => ?_, h.sessions⟩
          obtain rfl := Option.some.inj howner
          exact hsessionPid
      | launch qemuPid =>
          refine ⟨fun owner howner => Nat.lt_succ_of_lt (h.dsPid owner howner), ?_⟩
          intro other session hsession
          exact (h.sessions other session hsession).imp Nat.lt_succ_of_lt Nat.lt_succ_of_lt
      | _ => cases hwrite

/-- A step that gives the VM no new owner and concerns no session. -/
theorem OwnerInv.of_quiet (h : OwnerInv s) (hquiet : OwnerQuiet s s')
    (hsessions : s'.sessions = s.sessions) : OwnerInv s' := by
  refine ⟨h.pids.of_quiet hquiet hsessions, fun pid session point hsession hpoint => ?_⟩
  rw [hsessions] at hsession
  exact (h.points pid session point hsession hpoint).quiet h.pids hquiet

/-- One session is new, goes on or ends. -/
theorem OwnerInv.setSession (h : OwnerInv s) {pid : ℕ} {session : Option Session}
    (hnew : ∀ new, session = some new → pid < s.nextPid ∧ new.sessionPid < s.nextPid)
    (hquiet : OwnerQuiet s (s.setSession pid session))
    (hown : ∀ new point, session = some new → new.point = some point →
      OwnerOk new.sessionPid point s) : OwnerInv (s.setSession pid session) := by
  refine ⟨h.pids.setSession hnew, h.points.of_step pid ?_ (Or.inr ?_) ?_⟩
  · exact fun other hother => sessions_setSession_of_ne hother session
  · exact fun _ _ hok => hok.quiet h.pids hquiet
  · intro new point hsession hpoint
    rw [sessions_setSession_self] at hsession
    exact (hown new point hsession hpoint).quiet h.pids hquiet

/-- A session that is there goes on. -/
theorem OwnerInv.goOn (h : OwnerInv s) {pid : ℕ} {old new : Session}
    (hold : s.sessions pid = some old) (hpid : new.sessionPid = old.sessionPid)
    (hown : ∀ point, new.point = some point → OwnerOk old.sessionPid point s) :
    OwnerInv (s.setSession pid (some new)) := by
  refine h.setSession ?_ (ownerQuiet_setSession fun _ _ => by simp [hold]) ?_
  · rintro other hother
    obtain rfl := Option.some.inj hother
    rw [hpid]
    exact h.pids.sessions pid old hold
  · rintro other point hother hpoint
    obtain rfl := Option.some.inj hother
    rw [hpid]
    exact hown point hpoint

theorem ownerInv_advance {pid : ℕ} {session : Session} {point : VmPoint} (answered : Bool)
    (h : OwnerInv s) (hsession : s.sessions pid = some session) (hpoint : session.point = some point)
    (halone : isWrite point → s.Alone pid) :
    OwnerInv ((s.advance pid session.sessionPid answered point).1.setSession pid
      (some { session with point := (s.advance pid session.sessionPid answered point).2 })) := by
  have hok : OwnerOk session.sessionPid point s := h.points pid session point hsession hpoint
  obtain ⟨hpid, hsessionPid⟩ := h.pids.sessions pid session hsession
  have hpids := pidsUsed_advance pid answered point h.pids hsessionPid
  have hnextPid := nextPid_advance (s := s) pid session.sessionPid answered point
  have hset : OwnerQuiet (s.advance pid session.sessionPid answered point).1
      ((s.advance pid session.sessionPid answered point).1.setSession pid
        (some { session with point := (s.advance pid session.sessionPid answered point).2 })) := by
    apply ownerQuiet_setSession
    intro _ _
    simp [sessions_advance, hsession]
  refine ⟨hpids.setSession ?_, h.points.of_step pid ?_ ?_ ?_⟩
  · rintro new hnew
    obtain rfl := Option.some.inj hnew
    exact ⟨Nat.lt_of_lt_of_le hpid hnextPid, Nat.lt_of_lt_of_le hsessionPid hnextPid⟩
  · intro other hne
    rw [sessions_setSession_of_ne hne, sessions_advance]
  · cases hwrite : isWrite point with
    | true => exact Or.inl (halone hwrite)
    | false =>
        have hquiet := (ownerQuiet_advance pid session.sessionPid answered hwrite).trans hset
        exact Or.inr fun _ _ hold => hold.quiet h.pids hquiet
  · intro new next hnew hnext
    rw [sessions_setSession_self] at hnew
    obtain rfl := Option.some.inj hnew
    exact (ownerOk_advance pid answered hok h.pids hnext).quiet hpids hset

theorem ownerInv_step {event : VmEvent} (h : OwnerInv s) (hmay : RespectsOwner event s)
    (hstep : Stepped s event s') : OwnerInv s' := by
  cases hstep with
  | @start kind hcan =>
      have hsucc : PidsUsed { s with nextPid := s.nextPid + 1 } :=
        ⟨fun owner howner => Nat.lt_succ_of_lt (h.pids.dsPid owner howner), fun pid session hsession =>
          (h.pids.sessions pid session hsession).imp Nat.lt_succ_of_lt Nat.lt_succ_of_lt⟩
      have hquiet : OwnerQuiet s ({ s with nextPid := s.nextPid + 1 }.setSession s.nextPid
          (newSession s.nextPid kind)) := by
        refine ⟨⟨Or.inr rfl, fun _ h => h⟩, Or.inr rfl, Nat.le_succ _, fun pid hlt hsome => ?_⟩
        rwa [sessions_setSession_of_ne (Nat.ne_of_lt hlt)] at hsome
      refine ⟨hsucc.setSession ?_, h.points.of_step s.nextPid ?_ (Or.inr ?_) ?_⟩
      · rintro new hnew
        obtain rfl := Option.some.inj hnew
        refine ⟨Nat.lt_succ_self _, ?_⟩
        cases kind with
        | readyTask session =>
            obtain ⟨parent, hparent⟩ := Option.isSome_iff_exists.mp hcan
            exact Nat.lt_succ_of_lt (h.pids.sessions session parent hparent).1
        | _ => exact Nat.lt_succ_self _
      · exact fun other hother => sessions_setSession_of_ne hother _
      · exact fun _ _ hok => hok.quiet h.pids hquiet
      · intro new point hnew hpoint
        rw [sessions_setSession_self] at hnew
        obtain rfl := Option.some.inj hnew
        cases kind <;> cases hpoint
  | @advance pid answered session point hsession hpoint =>
      exact ownerInv_advance answered h hsession hpoint
        ((hmay pid answered session rfl hsession).2 point hpoint)
  | @remove pid answered session file rest hsession hpoint hscript =>
      have hquiet : OwnerQuiet s (s.unlink file) :=
        ⟨quiet_unlink s file, by cases file <;> simp [unlink], by cases file <;> exact Nat.le_refl _,
          fun _ _ hsome => by rwa [sessions_unlink] at hsome⟩
      have hsame : (s.unlink file).sessions pid = some session := by
        rw [sessions_unlink]
        exact hsession
      refine (h.of_quiet hquiet (sessions_unlink file)).goOn hsame rfl fun point hat => ?_
      rw [hpoint] at hat
      cases hat
  | @startVm pid answered session rest hsession hpoint hscript =>
      refine h.goOn hsession rfl fun point hat => ?_
      obtain rfl := Option.some.inj hat
      trivial
  | @stopVm pid answered session rest hsession hpoint hscript =>
      refine h.goOn hsession rfl fun point hat => ?_
      obtain rfl := Option.some.inj hat
      exact (hmay pid answered session rfl hsession).1 rest hpoint hscript
  | @exit pid session hsession =>
      unfold atExit
      split
      · exact h.goOn hsession rfl fun point hat => by cases hat
      · exact h.setSession (by simp) (ownerQuiet_setSession (by simp)) (by simp)
  | kill => exact h.setSession (by simp) (ownerQuiet_setSession (by simp)) (by simp)
  | @vmExits vm removesFile =>
      refine h.of_quiet ⟨⟨?_, Finset.erase_subset _ _⟩, Or.inr rfl, Nat.le_refl _, fun _ _ h => h⟩ rfl
      dsimp only
      split
      · exact Or.inl rfl
      · exact Or.inr rfl

/-- Where a session ends a VM, it is not that of another one. -/
theorem mem_vms_advance (self sessionPid : ℕ) (answered : Bool) {point : VmPoint} {vm : ℕ}
    (hok : OwnerOk sessionPid point s) (hvm : OthersVm sessionPid vm s) :
    vm ∈ (s.advance self sessionPid answered point).1.vms := by
  have hunlink : ∀ file, vm ∈ (s.unlink file).vms := by
    intro file
    cases file <;> exact hvm.live
  cases point with
  | cleanupKill qemuPid =>
      have hne : qemuPid ≠ vm := by
        rintro rfl
        exact hok hvm
      simp [advance, killQemu, hvm.live, hne]
  | cleanupUnlink qemuPid file => exact hunlink file
  | launch qemuPid => exact Finset.mem_insert_of_mem hvm.live
  | stopPowerOff => exact absurd hvm (hok vm)
  | stopWait qemuPid => exact absurd hvm (hok vm)
  | stopUnlink qemuPid file => exact hunlink file
  | _ =>
      dsimp only [advance]
      (repeat' split) <;> exact hvm.live

/-- In every run in which `stop_vm` is entered only without a VM of another session, and the VM is
started only while no other session is in `start_vm` or `stop_vm`, no session ends the VM of
another one that lives. -/
theorem not_endsOthersVm (h : Reaches RespectsOwner checkout s) {event : VmEvent}
    (hstep : s.step event = some s') : ¬ EndsOthersVm event s s' := by
  have hstart : OwnerInv checkout := ⟨⟨nofun, nofun⟩, nofun⟩
  have hinv : OwnerInv s := h.invariant hstart fun _ _ _ hs hmay => ownerInv_step hs hmay
  rintro ⟨pid, answered, session, vm, rfl, hsession, hvm, hended⟩
  apply hended
  cases stepped_of_step hstep with
  | @advance _ _ other point hother hpoint =>
      obtain rfl := Option.some.inj (hsession.symm.trans hother)
      exact mem_vms_advance pid session.sessionPid answered (hinv.points pid session point hother hpoint) hvm
  | @remove _ _ _ file => cases file <;> exact hvm.live
  | startVm => exact hvm.live
  | stopVm => exact hvm.live

/-! ### Two shells and a dry run -/

/-- Whether the session leaves the VM of another one alone, told by the pids in use. -/
def checkOwner (event : VmEvent) (s : VmHost) : Bool :=
  match event with
  | .run pid _ => (s.sessions pid).all fun session =>
      (session.point.isSome || session.script.head? ≠ some .stopVm ||
        s.qemuPid.all fun vm => vm ∉ s.vms || s.dsPid.all fun owner =>
          owner = session.sessionPid || (s.sessions owner).isNone) &&
      session.point.all fun point => !isWrite point || s.isAlone pid
  | _ => true

theorem respectsOwner_of_checkOwner {event : VmEvent} (hused : UsedBelow s)
    (hcheck : checkOwner event s) : RespectsOwner event s := by
  rintro pid answered session rfl hsession
  simp only [checkOwner, hsession, Option.all_some, Bool.and_eq_true] at hcheck
  obtain ⟨hstop, hwrites⟩ := hcheck
  constructor
  · intro rest hpoint hscript vm hvm
    obtain ⟨owner, howner, hne, halive⟩ := hvm.owner
    simp [hpoint, hscript, hvm.recorded, hvm.live, howner, hne] at hstop
    simp [hstop] at halive
  · intro point hpoint hwrite
    rw [hpoint, Option.all_some, hwrite] at hwrites
    exact hused.alone (by simpa using hwrites)

/-- A second `make vm-shell` beside the first one, up to step `n`. -/
def secondShell (n : ℕ) : List VmEvent :=
  shellEvents 8 ++ .start .shell :: List.replicate n (.run 2 true)

/-- The second shell passes `cleanup_abandoned_vm` and `start_vm` while the first one has its VM. -/
theorem not_endsOthersVm_secondShell :
    passes checkOwner (secondShell 6) checkout ∧
      ∀ n < 6, OthersVm 2 1 (after (secondShell n)) ∧
        ¬ EndsOthersVm (.run 2 true) (after (secondShell n)) (after (secondShell (n + 1))) := by
  refine ⟨by decide, fun n hn => ?_⟩
  have hpasses : ∀ n < 6, passes checkOwner (secondShell n) checkout := by decide
  have hstep : ∀ n < 6, (after (secondShell n)).step (.run 2 true) =
      some (after (secondShell (n + 1))) := by
    intro n hn
    interval_cases n <;> rfl
  refine ⟨?_, not_endsOthersVm (reaches_after (fun _ _ => respectsOwner_of_checkOwner)
    (hpasses n hn)) (hstep n hn)⟩
  interval_cases n <;> exact ⟨by decide, rfl, 0, rfl, by decide, rfl⟩

/-- A dry run powers the VM off in which somebody works at a shell. -/
theorem endsOthersVm_of_dryRun : ∃ s s', Reaches (fun _ _ => True) checkout s ∧
    s.step (.run 2 true) = some s' ∧ EndsOthersVm (.run 2 true) s s' := by
  let events := shellEvents 8 ++ [.start .dryRun, .exit 2, .run 2 true, .run 2 true]
  have hpasses : passes (fun _ _ => true) events checkout := by decide
  refine ⟨_, _, reaches_after (fun _ _ _ _ => trivial) hpasses, rfl, 2, true, _, 1, rfl, rfl,
    ⟨by decide, rfl, 0, rfl, ?_, rfl⟩, ?_⟩
  · decide
  · decide

end VmHost

end DistroSeed
