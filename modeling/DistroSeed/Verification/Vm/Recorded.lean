import DistroSeed.Verification.Vm.Sessions

/-! Whether every VM that runs is in `qemu.pid`. -/

namespace DistroSeed

namespace VmHost

open VmPoint

variable {s s' : VmHost}

/-! ## What a session has read -/

/-- Every VM is in the pid file. -/
def Recorded (s : VmHost) : Prop := ∀ vm ∈ s.vms, s.qemuPid = some vm

/-- The content of `qemu.pid` that a session goes by. -/
def qemuRead : VmPoint → Option (Option ℕ)
  | cleanupCheck _ qemuPid | cleanupKill qemuPid | cleanupUnlink qemuPid .qemuPid =>
      some (some qemuPid)
  | startCheck qemuPid | startUnlink qemuPid | startDsPid qemuPid | launch qemuPid
  | stopWait qemuPid | stopUnlink qemuPid .qemuPid => some qemuPid
  | _ => none

/-- The points where the VM that the session has read about has ended. -/
def behindEnd : VmPoint → Bool
  | cleanupUnlink _ .qemuPid | startUnlink _ | startDsPid _ | launch _ | stopUnlink _ .qemuPid => true
  | _ => false

/-- What the session has read is still in `qemu.pid`, or nothing is; where it goes on without a
VM, there is none of that pid. -/
structure GoesBy (point : VmPoint) (s : VmHost) : Prop where
  current : ∀ qemuPid, qemuRead point = some qemuPid → ∀ vm, s.qemuPid = some vm → qemuPid = some vm
  ended : behindEnd point → ∀ vm, qemuRead point = some (some vm) → vm ∉ s.vms

theorem GoesBy.quiet {point : VmPoint} (h : GoesBy point s) (hquiet : Quiet s s') :
    GoesBy point s' := by
  constructor
  · intro qemuPid hread vm hvm
    rcases hquiet.qemuPid with hnone | hsame
    · rw [hnone] at hvm
      cases hvm
    · exact h.current qemuPid hread vm (hsame ▸ hvm)
  · intro hend vm hread hmem
    exact h.ended hend vm hread (hquiet.vms hmem)

theorem Recorded.killQemu (hs : Recorded s) (qemuPid : Option ℕ) : Recorded (s.killQemu qemuPid) :=
  fun vm hvm => hs vm ((quiet_killQemu s qemuPid).vms hvm)

/-- The pid file can be deleted once the VM has ended that the session has read about. -/
theorem Recorded.unlink_of_goesBy (hs : Recorded s) {point : VmPoint} {qemuPid : Option ℕ}
    (hpoint : GoesBy point s) (hread : qemuRead point = some qemuPid) (hend : behindEnd point)
    {vm : ℕ} : vm ∉ s.vms := by
  intro hvm
  have hsome : qemuPid = some vm := hpoint.current qemuPid hread vm (hs vm hvm)
  exact hpoint.ended hend vm (hsome ▸ hread) hvm

theorem recorded_advance (self sessionPid : ℕ) (answered : Bool) {point : VmPoint}
    (hs : Recorded s) (hpoint : GoesBy point s) :
    Recorded (s.advance self sessionPid answered point).1 := by
  cases point with
  | cleanupKill qemuPid => exact hs.killQemu _
  | cleanupUnlink qemuPid file =>
      cases file with
      | qemuPid => exact fun vm hvm => absurd hvm (hs.unlink_of_goesBy hpoint rfl rfl)
      | dsPid => exact hs
      | controlSock => exact hs
  | startUnlink qemuPid => exact hs
  | startDsPid qemuPid => exact hs
  | launch qemuPid =>
      intro vm hvm
      rcases Finset.mem_insert.mp hvm with rfl | hvm
      · rfl
      · exact absurd hvm (hs.unlink_of_goesBy hpoint rfl rfl)
  | stopPowerOff =>
      simp only [advance]
      split
      · exact hs.killQemu _
      · exact hs
  | stopWait qemuPid => exact hs.killQemu _
  | stopUnlink qemuPid file =>
      cases file with
      | qemuPid => exact fun vm hvm => absurd hvm (hs.unlink_of_goesBy hpoint rfl rfl)
      | dsPid => exact hs
      | controlSock => exact hs
  | _ =>
      simp only [advance]
      (repeat' split) <;> exact hs

/-- Where a session goes by nothing. -/
theorem goesBy_of_none {point : VmPoint} (hread : qemuRead point = none) : GoesBy point s :=
  ⟨fun _ h => by simp [hread] at h, fun _ _ h => by simp [hread] at h⟩

/-- Where it has just read the file. -/
theorem goesBy_of_read {point : VmPoint} (hread : qemuRead point = some s.qemuPid)
    (hend : behindEnd point = false) : GoesBy point s := by
  constructor
  · intro qemuPid h vm hvm
    obtain rfl := Option.some.inj (hread.symm.trans h)
    exact hvm
  · intro h
    rw [hend] at h
    cases h

/-- Where it goes on with what it has read. -/
theorem GoesBy.next {point next : VmPoint} (h : GoesBy point s)
    (hread : qemuRead next = qemuRead point)
    (hend : behindEnd next → ∀ vm, qemuRead point = some (some vm) → vm ∉ s.vms) : GoesBy next s :=
  ⟨hread ▸ h.current, fun hnext vm hvm => hend hnext vm (hread ▸ hvm)⟩

theorem not_mem_killQemu (vm : ℕ) : vm ∉ (s.killQemu (some vm)).vms := by
  simp [killQemu]

theorem goesBy_advance (self sessionPid : ℕ) (answered : Bool) {point next : VmPoint}
    (hpoint : GoesBy point s)
    (hnext : (s.advance self sessionPid answered point).2 = some next) :
    GoesBy next (s.advance self sessionPid answered point).1 := by
  cases point with
  | cleanupDsPid =>
      obtain rfl := Option.some.inj hnext
      exact goesBy_of_none rfl
  | cleanupQemuPid dsPid =>
      cases hread : s.qemuPid with
      | none =>
          simp only [advance, hread] at hnext ⊢
          obtain rfl := Option.some.inj hnext
          exact goesBy_of_none rfl
      | some qemuPid =>
          simp only [advance, hread] at hnext ⊢
          obtain rfl := Option.some.inj hnext
          exact goesBy_of_read (by rw [hread]; rfl) rfl
  | cleanupCheck dsPid qemuPid =>
      have hstate : (s.advance self sessionPid answered (cleanupCheck dsPid qemuPid)).1 = s := by
        simp only [advance]
        (repeat' split) <;> rfl
      have hwhere : next = startQemuPid ∨ next = cleanupKill qemuPid := by
        simp only [advance] at hnext
        (repeat' split at hnext) <;> obtain rfl := Option.some.inj hnext <;> simp
      rw [hstate]
      rcases hwhere with rfl | rfl
      · exact goesBy_of_none rfl
      · exact hpoint.next rfl fun h => by cases h
  | cleanupKill qemuPid =>
      obtain rfl := Option.some.inj hnext
      refine (hpoint.quiet (quiet_killQemu s _)).next rfl fun _ vm hvm => ?_
      obtain rfl := Option.some.inj (Option.some.inj hvm)
      exact not_mem_killQemu qemuPid
  | cleanupUnlink qemuPid file =>
      obtain rfl := Option.some.inj hnext
      cases file <;> exact goesBy_of_none rfl
  | startQemuPid =>
      obtain rfl := Option.some.inj hnext
      exact goesBy_of_read rfl rfl
  | startCheck qemuPid =>
      simp only [advance] at hnext ⊢
      split at hnext
      · cases hnext
      · rename_i hdead
        obtain rfl := Option.some.inj hnext
        rw [if_neg hdead]
        refine hpoint.next rfl fun _ vm hvm hmem => hdead ?_
        obtain rfl : qemuPid = some vm := Option.some.inj hvm
        simp [pidAlive, hmem]
  | startUnlink qemuPid =>
      obtain rfl := Option.some.inj hnext
      exact (hpoint.quiet (quiet_unlink s .controlSock)).next rfl fun _ => hpoint.ended rfl
  | startDsPid qemuPid =>
      obtain rfl := Option.some.inj hnext
      have hquiet : Quiet s { s with dsPid := some sessionPid } := ⟨Or.inr rfl, fun _ h => h⟩
      exact (hpoint.quiet hquiet).next rfl fun _ => hpoint.ended rfl
  | launch qemuPid => cases hnext
  | stopCheck qemuPid =>
      obtain rfl := Option.some.inj hnext
      apply goesBy_of_none
      split <;> rfl
  | stopPowerOff =>
      obtain rfl := Option.some.inj hnext
      exact goesBy_of_none rfl
  | stopQemuPid =>
      obtain rfl := Option.some.inj hnext
      exact goesBy_of_read rfl rfl
  | stopWait qemuPid =>
      obtain rfl := Option.some.inj hnext
      refine (hpoint.quiet (quiet_killQemu s _)).next rfl fun _ vm hvm => ?_
      obtain rfl : qemuPid = some vm := Option.some.inj hvm
      exact not_mem_killQemu vm
  | stopUnlink qemuPid file =>
      cases file with
      | qemuPid =>
          obtain rfl := Option.some.inj hnext
          exact goesBy_of_none rfl
      | dsPid =>
          obtain rfl := Option.some.inj hnext
          exact goesBy_of_none rfl
      | controlSock => cases hnext

/-- The work directory is removed only while no VM runs, and qemu is started only while no other
session is in `start_vm` or `stop_vm`. -/
def KeepsRecord (event : VmEvent) (s : VmHost) : Prop :=
  ∀ pid answered session, event = .run pid answered → s.sessions pid = some session →
    (∀ rest, session.point = none → session.script = .remove .qemuPid :: rest →
      s.isRunning = false) ∧
    ∀ qemuPid, session.point = some (launch qemuPid) → s.Alone pid

/-- What a step keeps: every VM is recorded, and the sessions can rely on what they have read. -/
structure RecordInv (s : VmHost) : Prop where
  recorded : Recorded s
  points : AtPoints (fun _ => GoesBy) s

/-- A session that is not in `start_vm` or `stop_vm`, or goes by nothing there. -/
theorem RecordInv.setSession {t : VmHost} (h : RecordInv s) (hrecorded : Recorded t)
    (hquiet : Quiet s t) (hsessions : t.sessions = s.sessions) (pid : ℕ) {session : Option Session}
    (hpoint : ∀ other point, session = some other → other.point = some point →
      qemuRead point = none) : RecordInv (t.setSession pid session) := by
  refine ⟨hrecorded, h.points.of_step pid ?_ (Or.inr ?_) ?_⟩
  · intro other hne
    rw [sessions_setSession_of_ne hne, hsessions]
  · exact fun _ point hok => hok.quiet (hquiet.setSession pid session)
  · intro other point hother hat
    rw [sessions_setSession_self] at hother
    exact goesBy_of_none (hpoint other point hother hat)

theorem recordInv_step {event : VmEvent} (h : RecordInv s) (hmay : KeepsRecord event s)
    (hstep : Stepped s event s') : RecordInv s' := by
  cases hstep with
  | @start kind hcan =>
      have hquiet : Quiet s { s with nextPid := s.nextPid + 1 } := ⟨Or.inr rfl, fun _ h => h⟩
      refine h.setSession (t := { s with nextPid := s.nextPid + 1 }) h.recorded hquiet rfl _ ?_
      rintro other point hother hat
      obtain rfl := Option.some.inj hother
      cases kind <;> cases hat
  | @advance pid answered session point hsession hpoint =>
      have hgoesBy : GoesBy point s := h.points pid session point hsession hpoint
      have hrecorded := recorded_advance pid session.sessionPid answered h.recorded hgoesBy
      refine ⟨hrecorded, h.points.of_step pid ?_ ?_ ?_⟩
      · intro other hne
        rw [sessions_setSession_of_ne hne, sessions_advance]
      · by_cases hlaunch : ∃ qemuPid, point = launch qemuPid
        · obtain ⟨qemuPid, rfl⟩ := hlaunch
          exact Or.inl ((hmay pid answered session rfl hsession).2 qemuPid hpoint)
        · apply Or.inr
          have hquiet := quiet_advance (s := s) pid session.sessionPid answered
            fun qemuPid heq => hlaunch ⟨qemuPid, heq⟩
          exact fun _ other hok => hok.quiet (hquiet.setSession pid _)
      · intro next at' hnext hat
        rw [sessions_setSession_self] at hnext
        obtain rfl := Option.some.inj hnext
        exact (goesBy_advance pid session.sessionPid answered hgoesBy hat).quiet
          ((quiet_refl _).setSession pid _)
  | @remove pid answered session file rest hsession hpoint hscript =>
      refine h.setSession ?_ (quiet_unlink s file) (sessions_unlink file) pid ?_
      · cases file with
        | qemuPid =>
            -- no VM is recorded, so there is none
            intro vm hvm
            have hrunning := (hmay pid answered session rfl hsession).1 rest hpoint hscript
            have halive : s.pidAlive vm := by simp [pidAlive, show vm ∈ s.vms from hvm]
            simp [isRunning, h.recorded vm hvm, halive] at hrunning
        | dsPid => exact h.recorded
        | controlSock => exact h.recorded
      · rintro other point hother hat
        obtain rfl := Option.some.inj hother
        rw [hpoint] at hat
        cases hat
  | startVm hsession hpoint hscript =>
      refine h.setSession h.recorded (quiet_refl s) rfl _ ?_
      rintro other point hother hat
      obtain rfl := Option.some.inj hother
      obtain rfl := Option.some.inj hat
      rfl
  | stopVm hsession hpoint hscript =>
      refine h.setSession h.recorded (quiet_refl s) rfl _ ?_
      rintro other point hother hat
      obtain rfl := Option.some.inj hother
      obtain rfl := Option.some.inj hat
      rfl
  | @exit pid session hsession =>
      refine h.setSession h.recorded (quiet_refl s) rfl _ ?_
      rintro other point hother hat
      unfold atExit at hother
      split at hother
      · obtain rfl := Option.some.inj hother
        cases hat
      · cases hother
  | kill =>
      refine h.setSession h.recorded (quiet_refl s) rfl _ ?_
      rintro other point hother
      cases hother
  | @vmExits vm removesFile =>
      refine ⟨fun other hother => ?_, fun pid session point hsession hpoint => ?_⟩
      · obtain ⟨hne, hmem⟩ := Finset.mem_erase.mp hother
        simp [h.recorded other hmem, hne]
      · apply (h.points pid session point hsession hpoint).quiet
        refine ⟨?_, Finset.erase_subset _ _⟩
        dsimp only
        split
        · exact Or.inl rfl
        · exact Or.inr rfl

/-- In every run of sessions that remove the work directory only without a VM, and start a VM only
while they are alone, every VM that has been started and lives is in `qemu.pid`. -/
theorem vms_recorded (h : Reaches KeepsRecord checkout s) {vm : ℕ} (hvm : vm ∈ s.vms) :
    s.qemuPid = some vm := by
  have hstart : RecordInv checkout :=
    ⟨fun vm hvm => absurd hvm (Finset.notMem_empty vm), fun _ _ _ hsession => by cases hsession⟩
  exact (h.invariant hstart fun _ _ _ hs hmay => recordInv_step hs hmay).recorded vm hvm

/-! ### Shells and `make clean` -/

/-- Whether the pid file is removed without a VM, and qemu started by a session that is alone, told
by the pids in use. -/
def checkRecord (event : VmEvent) (s : VmHost) : Bool :=
  match event with
  | .run pid _ => (s.sessions pid).all fun session =>
      (session.point.isSome || session.script.head? ≠ some (.remove .qemuPid) || !s.isRunning) &&
      session.point.all fun point => match point with
        | launch _ => s.isAlone pid
        | _ => true
  | _ => true

theorem keepsRecord_of_checkRecord {event : VmEvent} (hused : UsedBelow s)
    (hcheck : checkRecord event s) : KeepsRecord event s := by
  rintro pid answered session rfl hsession
  simp only [checkRecord, hsession, Option.all_some, Bool.and_eq_true] at hcheck
  obtain ⟨hremove, hlaunch⟩ := hcheck
  constructor
  · intro rest hpoint hscript
    simpa [hpoint, hscript] using hremove
  · intro qemuPid hpoint
    rw [hpoint, Option.all_some] at hlaunch
    exact hused.alone hlaunch

/-- A shell starts VM 1 and ends. The second one ends that VM and starts VM 3, beside which a third
one works. When all have ended and the VM has stopped, `make clean` removes the files, and a last
shell starts VM 7. -/
def shellsAndClean : List VmEvent :=
  shellEvents 8 ++ [.exit 0, .start .shell] ++ List.replicate 13 (.run 2 true) ++ [.start .shell] ++
    List.replicate 6 (.run 4 true) ++ [.exit 4, .exit 2, .vmExits 3 false,
      .start (.clean [.qemuPid, .dsPid, .controlSock]), .run 5 true, .run 5 true, .run 5 true,
      .exit 5, .start .shell] ++ List.replicate 8 (.run 6 true)

theorem vms_recorded_shellsAndClean :
    7 ∈ (after shellsAndClean).vms ∧ (after shellsAndClean).qemuPid = some 7 := by
  have hpasses : passes checkRecord shellsAndClean checkout := by decide
  have hvm : 7 ∈ (after shellsAndClean).vms := by decide
  exact ⟨hvm, vms_recorded (reaches_after (fun _ _ => keepsRecord_of_checkRecord) hpasses) hvm⟩

/-- `make clean` deletes the pid file of the VM that the shell has left running. -/
theorem vms_not_recorded_after_clean : ∃ s, Reaches (fun _ _ => True) checkout s ∧
    1 ∈ s.vms ∧ s.qemuPid = none := by
  let events := shellEvents 8 ++ [.exit 0, .start (.clean [.qemuPid, .dsPid, .controlSock]), .run 2 true]
  have hpasses : passes (fun _ _ => true) events checkout := by decide
  exact ⟨_, reaches_after (fun _ _ _ _ => trivial) hpasses, by decide, rfl⟩

end VmHost

end DistroSeed
