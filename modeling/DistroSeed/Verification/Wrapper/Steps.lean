import DistroSeed.Library.Runs
import DistroSeed.Model.IdleTimeout

/-! What a step of the command or of the wrapper's `main` does. -/

namespace DistroSeed

/-- `main` still looks at the pipe and the socket. -/
def WrapperPoint.reads : WrapperPoint → Bool
  | head | select | events _ | leftover => true
  | _ => false

namespace Wrapper

open PyText WrapperPoint

variable {setup : WrapperSetup} {w w' : Wrapper}

/-! ## A turn of the loop -/

/-- The socket that a probe gets to register. -/
def socket? : QmpProbe → Option ℕ
  | .absent | .failed => none
  | .sendFailed fd | .connected fd => some fd

/-- The socket that a probe leaves open. -/
def opened? : QmpProbe → Option ℕ
  | .connected fd => some fd
  | _ => none

/-- What the loop has after it has looked for the socket, if that raised nothing. -/
def probed (setup : WrapperSetup) (probe : QmpProbe) (w : Wrapper) : Wrapper :=
  if w.probes setup then
    { w with selector := w.selector ++ (socket? probe).toList, qmp := opened? probe }
  else w

theorem qmp_of_probes (h : w.probes setup) : w.qmp = none := by
  simp only [probes, Bool.and_eq_true, Option.isNone_iff_eq_none] at h
  exact h.2

theorem connect_eq (probe : QmpProbe) (hqmp : w.qmp = none)
    (hnew : ∀ fd ∈ socket? probe, fd ∉ w.selector) : w.connect probe =
      { w with selector := w.selector ++ (socket? probe).toList, qmp := opened? probe } := by
  cases probe with
  | absent | failed =>
      cases w
      simpa [connect, socket?, opened?] using hqmp
  | sendFailed fd =>
      have hfd : fd ∉ w.selector := hnew fd rfl
      cases w
      simpa [connect, register, hfd, socket?, opened?] using hqmp
  | connected fd =>
      have hfd : fd ∉ w.selector := hnew fd rfl
      simp [connect, register, hfd, socket?, opened?]

theorem connect_point_of_mem {probe : QmpProbe} {fd : ℕ} (hsocket : socket? probe = some fd)
    (hmem : fd ∈ w.selector) : (w.connect probe).point = raised (.keyError fd) := by
  cases probe with
  | absent | failed => cases hsocket
  | sendFailed fd' | connected fd' =>
      obtain rfl := Option.some.inj hsocket
      simp [connect, register, hmem]

theorem await_point (setup : WrapperSetup) (now : ℚ) (probe : QmpProbe) (w : Wrapper) :
    ((w.probed setup probe).await setup now).point =
      if w.timedOut setup now then terminate 124 else select := by
  rw [await, probed]
  split <;> rfl

theorem reads_next (ready : List WrapperSource) (w : Wrapper) : (w.next ready).point.reads := by
  rw [next]
  split <;> rfl

/-! ## Steps -/

/-- The lines that a chunk completes. -/
def newLines (chunk : Bytes) (w : Wrapper) : List Bytes :=
  ((w.qmpBuffer ++ chunk).splitOn 10).dropLast

/-- What a step does, by the place where `main` is. -/
inductive Stepped (setup : WrapperSetup) (w : Wrapper) : WrapperEvent → Wrapper → Prop where
  | write {data} : w.returncode = none → Stepped setup w (.write data)
      { w with pipe := w.pipe ++ data, written := w.written ++ data }
  | exit {code} : w.returncode = none →
      Stepped setup w (.exit code) { w with returncode := some code }
  | ended {now probe code} : w.point = head → w.returncode = some code →
      Stepped setup w (.turn now probe) { w with point := leftover }
  | registeredTwice {now probe fd} : w.point = head → w.probes setup → socket? probe = some fd →
      fd ≠ setup.stdout → fd ∈ w.selector → Stepped setup w (.turn now probe) (w.connect probe)
  | turn {now probe} : w.point = head → w.returncode = none →
      (∀ fd ∈ socket? probe, fd ≠ setup.stdout) →
      (w.probes setup → ∀ fd ∈ socket? probe, fd ∉ w.selector) →
      Stepped setup w (.turn now probe) ((w.probed setup probe).await setup now)
  | selected {ready} : w.point = select → ready.Nodup → (.qmp ∈ ready → w.qmp.isSome) →
      Stepped setup w (.selected ready) (w.next ready)
  | recvFailed {ready fd} : w.point = events (.qmp :: ready) → w.qmp = some fd →
      Stepped setup w (.recv none) { w with point := raised .osError }
  | closed {ready fd} : w.point = events (.qmp :: ready) → w.qmp = some fd → fd ∈ w.selector →
      Stepped setup w (.recv (some []))
        (next ready { w with selector := w.selector.erase fd, qmp := none })
  | closedTwice {ready fd} : w.point = events (.qmp :: ready) → w.qmp = some fd → fd ∉ w.selector →
      Stepped setup w (.recv (some [])) { w with point := raised (.keyError fd) }
  | ignored {ready fd chunk} : w.point = events (.qmp :: ready) → w.qmp = some fd → chunk ≠ [] →
      qmpLines setup.loads (w.newLines chunk) = .ignored → Stepped setup w (.recv (some chunk))
        (next ready { w with qmpBuffer := ((w.qmpBuffer ++ chunk).splitOn 10).getLast?.getD [] })
  | shutdown {ready fd chunk} : w.point = events (.qmp :: ready) → w.qmp = some fd → chunk ≠ [] →
      qmpLines setup.loads (w.newLines chunk) = .shutdown →
      Stepped setup w (.recv (some chunk)) { w with point := quit }
  | lineRaised {ready fd chunk e} : w.point = events (.qmp :: ready) → w.qmp = some fd →
      chunk ≠ [] → qmpLines setup.loads (w.newLines chunk) = .raised e →
      Stepped setup w (.recv (some chunk)) { w with point := raised e }
  | atEnd {ready now} : w.point = events (.stdout :: ready) → w.pipe = [] →
      Stepped setup w (.read 0 now) (w.next ready)
  | read {ready size now} : w.point = events (.stdout :: ready) → 0 < size →
      Stepped setup w (.read size now) (next ready { w.append setup size with lastOutput := now })
  | sendQuit {sent} : w.point = quit →
      Stepped setup w (.sendQuit sent) { w with point := if sent then wait 0 else terminate 0 }
  | terminated {code} : w.point = terminate code →
      Stepped setup w (.signal true) { w with point := wait code }
  | killed {code} : w.point = kill code →
      Stepped setup w (.signal true) { w with point := reap code }
  | denied {code} : w.point = terminate code ∨ w.point = kill code → w.returncode = none →
      Stepped setup w (.signal false) { w with point := raised .osError }
  | waited {code} : w.point = wait code ∨ w.point = reap code → w.returncode.isSome →
      Stepped setup w (.waited true) { w with point := returned code }
  | gaveUp {code} : w.point = wait code →
      Stepped setup w (.waited false) { w with point := kill code }
  | drain {code} : w.point = leftover → w.returncode = some code →
      Stepped setup w .drain { w.append setup w.pipe.length with point := returned (exitCode code) }

theorem stepped_turn {now : ℚ} {probe : QmpProbe} (hpoint : w.point = head)
    (hfresh : fresh setup probe) : Stepped setup w (.turn now probe) (w.turn setup now probe) := by
  have hstdout : ∀ fd ∈ socket? probe, fd ≠ setup.stdout := by
    cases probe with
    | absent | failed => simp [socket?]
    | sendFailed fd | connected fd => simpa [socket?, fresh] using hfresh
  rw [turn]
  cases hcode : w.returncode with
  | some code =>
      rw [if_pos (by simp), ← hcode]
      exact .ended hpoint hcode
  | none =>
      rw [if_neg (by simp)]
      by_cases hprobes : w.probes setup
      · have hqmp := qmp_of_probes hprobes
        rw [if_pos hprobes]
        dsimp only
        by_cases hnew : ∀ fd ∈ socket? probe, fd ∉ w.selector
        · have hprobed : w.connect probe = w.probed setup probe := by
            rw [connect_eq probe hqmp hnew, probed, if_pos hprobes]
          rw [if_pos (by rw [connect_eq probe hqmp hnew, hpoint]), hprobed]
          exact .turn hpoint hcode hstdout fun _ => hnew
        · simp only [not_forall, not_not] at hnew
          obtain ⟨fd, hfd, hmem⟩ := hnew
          rw [if_neg (by simp [connect_point_of_mem hfd hmem])]
          exact .registeredTwice hpoint hprobes hfd (hstdout fd hfd) hmem
      · have hprobed : w.probed setup probe = w := by rw [probed, if_neg hprobes]
        have hturn : Stepped setup w (.turn now probe) ((w.probed setup probe).await setup now) :=
          .turn hpoint hcode hstdout fun h => absurd h hprobes
        rw [if_neg hprobes]
        rwa [hprobed] at hturn

theorem stepped_receive {fd : ℕ} {ready : List WrapperSource} {chunk : Bytes}
    (hpoint : w.point = events (.qmp :: ready)) (hqmp : w.qmp = some fd) :
    Stepped setup w (.recv (some chunk)) (w.receive setup fd ready chunk) := by
  rw [receive]
  by_cases hchunk : chunk = []
  · subst hchunk
    rw [if_pos rfl]
    by_cases hfd : fd ∈ w.selector
    · rw [if_pos hfd]
      exact .closed hpoint hqmp hfd
    · rw [if_neg hfd]
      exact .closedTwice hpoint hqmp hfd
  · rw [if_neg hchunk]
    dsimp only
    split
    next hlines => exact .ignored hpoint hqmp hchunk hlines
    next hlines => exact .shutdown hpoint hqmp hchunk hlines
    next hlines => exact .lineRaised hpoint hqmp hchunk hlines

theorem stepped_readPipe {ready : List WrapperSource} {size : ℕ} {now : ℚ}
    (hpoint : w.point = events (.stdout :: ready))
    (h : w.readPipe setup ready size now = some w') : Stepped setup w (.read size now) w' := by
  rw [readPipe] at h
  by_cases hsize : size = 0
  · subst hsize
    rw [if_pos rfl] at h
    obtain ⟨hpipe, hw'⟩ := Option.ite_none_right_eq_some.mp h
    obtain rfl := Option.some.inj hw'
    exact .atEnd hpoint hpipe
  · rw [if_neg hsize] at h
    obtain ⟨_, hw'⟩ := Option.ite_none_right_eq_some.mp h
    obtain rfl := Option.some.inj hw'
    exact .read hpoint (Nat.pos_of_ne_zero hsize)

theorem signal_cases {permitted : Bool} {point : WrapperPoint}
    (h : w.signal permitted point = some w') :
    (permitted ∧ w' = { w with point := point }) ∨
      (permitted = false ∧ w.returncode = none ∧ w' = { w with point := raised .osError }) := by
  rw [signal] at h
  cases permitted with
  | true =>
      rw [if_pos rfl] at h
      exact Or.inl ⟨rfl, (Option.some.inj h).symm⟩
  | false =>
      rw [if_neg (by simp)] at h
      obtain ⟨hcode, hw'⟩ := Option.ite_none_right_eq_some.mp h
      exact Or.inr ⟨rfl, Option.isNone_iff_eq_none.mp hcode, (Option.some.inj hw').symm⟩

theorem stepped_signal {permitted : Bool} (h : w.step setup (.signal permitted) = some w') :
    Stepped setup w (.signal permitted) w' := by
  rw [step] at h
  split at h
  next code hpoint =>
    rcases signal_cases h with ⟨rfl, rfl⟩ | ⟨rfl, hcode, rfl⟩
    · exact .terminated hpoint
    · exact .denied (Or.inl hpoint) hcode
  next code hpoint =>
    rcases signal_cases h with ⟨rfl, rfl⟩ | ⟨rfl, hcode, rfl⟩
    · exact .killed hpoint
    · exact .denied (Or.inr hpoint) hcode
  next => cases h

theorem stepped_waited {ended : Bool} (h : w.step setup (.waited ended) = some w') :
    Stepped setup w (.waited ended) w' := by
  rw [step] at h
  obtain ⟨hcode, h⟩ := Option.ite_none_left_eq_some.mp h
  have hended : ended → w.returncode.isSome := by
    intro hended
    rw [hended, Bool.true_and, Bool.not_eq_true, Option.isNone_eq_false_iff] at hcode
    exact hcode
  split at h
  next code hpoint =>
    obtain rfl := Option.some.inj h
    cases ended with
    | true => exact .waited (Or.inl hpoint) (hended rfl)
    | false => exact .gaveUp hpoint
  next code hpoint =>
    obtain ⟨rfl, hw'⟩ := Option.ite_none_right_eq_some.mp h
    obtain rfl := Option.some.inj hw'
    exact .waited (Or.inr hpoint) (hended rfl)
  next => cases h

theorem stepped_of_step {event : WrapperEvent} (h : w.step setup event = some w') :
    Stepped setup w event w' := by
  cases event with
  | write data =>
      obtain ⟨hcode, hw'⟩ := Option.ite_none_right_eq_some.mp h
      obtain rfl := Option.some.inj hw'
      exact .write (Option.isNone_iff_eq_none.mp hcode)
  | exit code =>
      obtain ⟨hcode, hw'⟩ := Option.ite_none_right_eq_some.mp h
      obtain rfl := Option.some.inj hw'
      exact .exit (Option.isNone_iff_eq_none.mp hcode)
  | turn now probe =>
      obtain ⟨hcond, hw'⟩ := Option.ite_none_right_eq_some.mp h
      obtain ⟨hpoint, hfresh⟩ : w.point = head ∧ fresh setup probe := by simpa using hcond
      obtain rfl := Option.some.inj hw'
      exact stepped_turn hpoint hfresh
  | selected ready =>
      obtain ⟨hcond, hw'⟩ := Option.ite_none_right_eq_some.mp h
      obtain ⟨⟨hpoint, hnodup⟩, hopen⟩ :
          (w.point = select ∧ ready.Nodup) ∧ (.qmp ∉ ready ∨ w.qmp.isSome) := by
        simpa using hcond
      obtain rfl := Option.some.inj hw'
      exact .selected hpoint hnodup fun hqmp => hopen.resolve_left (not_not.mpr hqmp)
  | recv received =>
      rw [step] at h
      split at h
      next ready fd hpoint hqmp =>
        split at h
        next =>
          obtain rfl := Option.some.inj h
          exact .recvFailed hpoint hqmp
        next chunk =>
          obtain rfl := Option.some.inj h
          exact stepped_receive hpoint hqmp
      next => cases h
  | read size now =>
      rw [step] at h
      split at h
      next ready hpoint => exact stepped_readPipe hpoint h
      next => cases h
  | sendQuit sent =>
      obtain ⟨hpoint, hw'⟩ := Option.ite_none_right_eq_some.mp h
      obtain rfl := Option.some.inj hw'
      exact .sendQuit hpoint
  | signal permitted => exact stepped_signal h
  | waited ended => exact stepped_waited h
  | drain =>
      rw [step] at h
      split at h
      next code hpoint hcode =>
        obtain rfl := Option.some.inj h
        exact .drain hpoint hcode
      next => cases h

end Wrapper

end DistroSeed
