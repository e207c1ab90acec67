import DistroSeed.Model.VmSessions

/-! Runs of the sessions on one checkout: what a step does, and how the sessions' assertions are
kept when they take turns. -/

namespace DistroSeed

namespace VmHost

open VmPoint

variable {s s' : VmHost}

/-! ## Steps -/

/-- What a step does, by the place where the session is. -/
inductive Stepped (s : VmHost) : VmEvent → VmHost → Prop where
  | start {kind} : s.canStart kind → Stepped s (.start kind)
      ({ s with nextPid := s.nextPid + 1 }.setSession s.nextPid (newSession s.nextPid kind))
  | advance {pid answered session point} : s.sessions pid = some session →
      session.point = some point → Stepped s (.run pid answered)
        ((s.advance pid session.sessionPid answered point).1.setSession pid
          (some { session with point := (s.advance pid session.sessionPid answered point).2 }))
  | remove {pid answered session file rest} : s.sessions pid = some session →
      session.point = none → session.script = .remove file :: rest →
      Stepped s (.run pid answered)
        ((s.unlink file).setSession pid (some { session with script := rest }))
  | startVm {pid answered session rest} : s.sessions pid = some session →
      session.point = none → session.script = .startVm :: rest →
      Stepped s (.run pid answered)
        (s.setSession pid (some { session with point := some cleanupDsPid, script := rest }))
  | stopVm {pid answered session rest} : s.sessions pid = some session →
      session.point = none → session.script = .stopVm :: rest →
      Stepped s (.run pid answered)
        (s.setSession pid (some { session with point := some (stopCheck s.qemuPid), script := rest }))
  | exit {pid session} : s.sessions pid = some session →
      Stepped s (.exit pid) (s.setSession pid (atExit session))
  | kill {pid} : Stepped s (.kill pid) (s.setSession pid none)
  | vmExits {vm removesFile} : Stepped s (.vmExits vm removesFile) { s with
      vms := s.vms.erase vm
      qemuPid := if removesFile && s.qemuPid = some vm then none else s.qemuPid }

theorem stepped_of_step {event : VmEvent} (h : s.step event = some s') : Stepped s event s' := by
  cases event with
  | start kind =>
      rw [step] at h
      split at h
      · obtain rfl := Option.some.inj h
        exact .start ‹_›
      · cases h
  | run pid answered =>
      obtain ⟨session, hsession, h⟩ := Option.bind_eq_some_iff.mp h
      obtain ⟨next, hnext, h⟩ := Option.bind_eq_some_iff.mp h
      obtain rfl := Option.some.inj h
      rw [runSession] at hnext
      split at hnext
      · obtain rfl := Option.some.inj hnext
        exact .advance hsession ‹_›
      · cases hnext
      · obtain rfl := Option.some.inj hnext
        exact .remove hsession ‹_› ‹_›
      · obtain rfl := Option.some.inj hnext
        exact .startVm hsession ‹_› ‹_›
      · obtain rfl := Option.some.inj hnext
        exact .stopVm hsession ‹_› ‹_›
  | exit pid =>
      obtain ⟨session, hsession, h⟩ := Option.bind_eq_some_iff.mp h
      obtain rfl := Option.some.inj h
      exact .exit hsession
  | kill pid =>
      obtain rfl := Option.some.inj h
      exact .kill
  | vmExits vm removesFile =>
      obtain rfl := Option.some.inj h
      exact .vmExits

/-- What every step keeps holds after every run. -/
theorem Reaches.invariant {may : VmEvent → VmHost → Prop} {s₀ : VmHost} (h : Reaches may s₀ s)
    {inv : VmHost → Prop} (hstart : inv s₀)
    (hstep : ∀ event s s', inv s → may event s → Stepped s event s' → inv s') : inv s := by
  induction h with
  | refl => exact hstart
  | tail _ hnext ih =>
      obtain ⟨event, hmay, hevent⟩ := hnext
      exact hstep event _ _ ih hmay (stepped_of_step hevent)

/-! ## Assertions at the points -/

/-- Every session that is in `start_vm` or `stop_vm` has what it relies on there. -/
def AtPoints (ok : Session → VmPoint → VmHost → Prop) (s : VmHost) : Prop :=
  ∀ pid session point, s.sessions pid = some session → session.point = some point →
    ok session point s

/-- No other session is in `start_vm` or `stop_vm`. -/
def Alone (s : VmHost) (pid : ℕ) : Prop :=
  ∀ other, other ≠ pid → ∀ session, s.sessions other = some session → session.point = none

/-- Other sessions keep their assertions if a step preserves them, or if there are none. -/
theorem AtPoints.of_step {ok : Session → VmPoint → VmHost → Prop} (h : AtPoints ok s) (pid : ℕ)
    (hsessions : ∀ other, other ≠ pid → s'.sessions other = s.sessions other)
    (hothers : s.Alone pid ∨ ∀ session point, ok session point s → ok session point s')
    (hown : ∀ session point, s'.sessions pid = some session → session.point = some point →
      ok session point s') : AtPoints ok s' := by
  intro other session point hsession hpoint
  by_cases hpid : other = pid
  · subst hpid
    exact hown session point hsession hpoint
  · rw [hsessions other hpid] at hsession
    rcases hothers with halone | hok
    · rw [halone other hpid session hsession] at hpoint
      cases hpoint
    · exact hok session point (h other session point hsession hpoint)

@[simp] theorem sessions_setSession_self (pid : ℕ) (session : Option Session) :
    (s.setSession pid session).sessions pid = session := Function.update_self ..

theorem sessions_setSession_of_ne {pid other : ℕ} (h : other ≠ pid) (session : Option Session) :
    (s.setSession pid session).sessions other = s.sessions other := Function.update_of_ne h ..

@[simp] theorem sessions_unlink (file : VmFile) : (s.unlink file).sessions = s.sessions := by
  cases file <;> rfl

@[simp] theorem sessions_killQemu (qemuPid : Option ℕ) :
    (s.killQemu qemuPid).sessions = s.sessions := rfl

theorem sessions_advance (self sessionPid : ℕ) (answered : Bool) (point : VmPoint) :
    (s.advance self sessionPid answered point).1.sessions = s.sessions := by
  cases point <;> simp only [advance] <;> (repeat' split) <;> simp

/-! ## Steps that start no VM -/

/-- A step that starts no VM. -/
structure Quiet (s s' : VmHost) : Prop where
  qemuPid : s'.qemuPid = none ∨ s'.qemuPid = s.qemuPid
  vms : s'.vms ⊆ s.vms

theorem quiet_refl (s : VmHost) : Quiet s s := ⟨Or.inr rfl, fun _ h => h⟩

theorem Quiet.setSession (h : Quiet s s') (pid : ℕ) (session : Option Session) :
    Quiet s (s'.setSession pid session) := ⟨h.qemuPid, h.vms⟩

theorem quiet_unlink (s : VmHost) (file : VmFile) : Quiet s (s.unlink file) := by
  cases file
  · exact ⟨Or.inl rfl, fun _ h => h⟩
  · exact ⟨Or.inr rfl, fun _ h => h⟩
  · exact ⟨Or.inr rfl, fun _ h => h⟩

theorem quiet_killQemu (s : VmHost) (qemuPid : Option ℕ) : Quiet s (s.killQemu qemuPid) :=
  ⟨Or.inr rfl, Finset.filter_subset _ _⟩

theorem quiet_advance (self sessionPid : ℕ) (answered : Bool) {point : VmPoint}
    (h : ∀ qemuPid, point ≠ launch qemuPid) : Quiet s (s.advance self sessionPid answered point).1 := by
  cases point with
  | launch qemuPid => exact absurd rfl (h qemuPid)
  | cleanupKill qemuPid => exact quiet_killQemu s _
  | cleanupUnlink qemuPid file => exact quiet_unlink s file
  | startUnlink qemuPid => exact quiet_unlink s .controlSock
  | stopPowerOff =>
      simp only [advance]
      split
      · exact quiet_killQemu s _
      · exact quiet_refl s
  | stopWait qemuPid => exact quiet_killQemu s _
  | stopUnlink qemuPid file => exact quiet_unlink s file
  | startDsPid qemuPid => exact ⟨Or.inr rfl, fun _ h => h⟩
  | _ =>
      simp only [advance]
      (repeat' split) <;> exact quiet_refl s

/-! ## Runs of given events -/

/-- Only pids below the next one are in use. -/
def UsedBelow (s : VmHost) : Prop := ∀ pid, s.nextPid ≤ pid → s.sessions pid = none

theorem UsedBelow.setSession (h : UsedBelow s) {t : VmHost} (hsessions : t.sessions = s.sessions)
    (hnextPid : s.nextPid ≤ t.nextPid) {pid : ℕ} {session : Option Session}
    (hpid : session.isSome → pid < t.nextPid) : UsedBelow (t.setSession pid session) := by
  intro other hother
  by_cases hne : other = pid
  · subst hne
    rw [sessions_setSession_self, Option.eq_none_iff_forall_ne_some]
    rintro found rfl
    exact absurd (hpid rfl) (Nat.not_lt.mpr hother)
  · rw [sessions_setSession_of_ne hne, hsessions]
    exact h other (hnextPid.trans hother)

theorem UsedBelow.lt (h : UsedBelow s) {pid : ℕ} {session : Session}
    (hsession : s.sessions pid = some session) : pid < s.nextPid := by
  by_contra hlt
  rw [h pid (Nat.not_lt.mp hlt)] at hsession
  cases hsession

theorem nextPid_unlink (file : VmFile) : (s.unlink file).nextPid = s.nextPid := by
  cases file <;> rfl

theorem nextPid_advance (self sessionPid : ℕ) (answered : Bool) (point : VmPoint) :
    s.nextPid ≤ (s.advance self sessionPid answered point).1.nextPid := by
  cases point with
  | cleanupUnlink qemuPid file => exact (nextPid_unlink file).ge
  | stopUnlink qemuPid file => exact (nextPid_unlink file).ge
  | launch qemuPid => exact Nat.le_succ _
  | _ =>
      dsimp only [advance]
      (repeat' split) <;> exact Nat.le_refl _

theorem usedBelow_step {event : VmEvent} (h : UsedBelow s) (hstep : Stepped s event s') :
    UsedBelow s' := by
  cases hstep with
  | start =>
      have hnextPid := Nat.lt_succ_self s.nextPid
      exact h.setSession (t := { s with nextPid := s.nextPid + 1 }) rfl hnextPid.le fun _ => hnextPid
  | @advance pid answered session point hsession hpoint =>
      have hnextPid := nextPid_advance (s := s) pid session.sessionPid answered point
      exact h.setSession (sessions_advance ..) hnextPid fun _ =>
        Nat.lt_of_lt_of_le (h.lt hsession) hnextPid
  | @remove _ _ _ file _ hsession =>
      have hnextPid := nextPid_unlink (s := s) file
      exact h.setSession (sessions_unlink file) hnextPid.ge fun _ => hnextPid ▸ h.lt hsession
  | startVm hsession => exact h.setSession rfl (Nat.le_refl _) fun _ => h.lt hsession
  | stopVm hsession => exact h.setSession rfl (Nat.le_refl _) fun _ => h.lt hsession
  | exit hsession => exact h.setSession rfl (Nat.le_refl _) fun _ => h.lt hsession
  | kill => exact h.setSession rfl (Nat.le_refl _) fun hsome => absurd hsome (by simp)
  | vmExits => exact h

/-- Whether no other session is in `start_vm` or `stop_vm`, told by the pids in use. -/
def isAlone (s : VmHost) (pid : ℕ) : Bool :=
  decide (∀ other < s.nextPid, other ≠ pid → (s.sessions other).bind Session.point = none)

theorem UsedBelow.alone (h : UsedBelow s) {pid : ℕ} (halone : s.isAlone pid) : s.Alone pid := by
  intro other hne session hsession
  have hnone := of_decide_eq_true halone other (h.lt hsession) hne
  rwa [hsession, Option.bind_some] at hnone

/-- The state behind the events. -/
def after (events : List VmEvent) : VmHost := (events.foldlM step checkout).getD checkout

/-- Every event is possible and passes the check in the state where it happens. -/
def passes (check : VmEvent → VmHost → Bool) : List VmEvent → VmHost → Bool
  | [], _ => true
  | event :: events, s => check event s && (s.step event).any (passes check events)

/-- A run of events that pass a check for what is allowed. -/
theorem reaches_after {may : VmEvent → VmHost → Prop} {check : VmEvent → VmHost → Bool}
    (hmay : ∀ event s, UsedBelow s → check event s → may event s) {events : List VmEvent}
    (h : passes check events checkout) : Reaches may checkout (after events) := by
  suffices hrun : ∀ events s, UsedBelow s → passes check events s → Reaches may checkout s →
      ∃ s', events.foldlM step s = some s' ∧ Reaches may checkout s' by
    obtain ⟨s', hs', hreaches⟩ := hrun events checkout (fun _ _ => rfl) h .refl
    rwa [after, hs']
  intro events
  induction events with
  | nil => exact fun s _ _ hreaches => ⟨s, rfl, hreaches⟩
  | cons event events ih =>
      intro s hused hpasses hreaches
      obtain ⟨hcheck, hany⟩ := Bool.and_eq_true_iff.mp hpasses
      obtain ⟨t, ht, hrest⟩ := (Option.any_eq_true ..).mp hany
      obtain ⟨s', hs', hreaches'⟩ := ih t (usedBelow_step hused (stepped_of_step ht)) hrest
        (hreaches.tail ⟨event, hmay event s hused hcheck, ht⟩)
      exact ⟨s', by rw [List.foldlM_cons, ht]; exact hs', hreaches'⟩

/-- The first `n` steps of `make vm-shell` on a checkout: the eighth starts qemu. -/
def shellEvents (n : ℕ) : List VmEvent := .start .shell :: List.replicate n (.run 0 true)

end VmHost

end DistroSeed
