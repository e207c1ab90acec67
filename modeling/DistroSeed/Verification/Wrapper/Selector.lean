import DistroSeed.Verification.Wrapper.Steps
import Mathlib.Data.List.Perm.Subperm

/-! What the wrapper has registered at the head of its loop, and the exceptions that it does not
catch. -/

namespace DistroSeed

open PyText

/-! ## The lines of QMP -/

section Lines

variable {loads : String → Except LoadsError Json}

/-- A line that the loop can deal with: a blank one, one that is no JSON, or an object. -/
def IsMessage (loads : String → Except LoadsError Json) (line : Bytes) : Prop :=
  rstrip asciiBlanks (line.dropWhile (· ∈ asciiBlanks)) = [] ∨
    ∃ text, decodeUtf8 (rstrip asciiBlanks (line.dropWhile (· ∈ asciiBlanks))) = some text ∧
      (loads text = .error .jsonDecodeError ∨ ∃ entries, loads text = .ok (.dict entries))

/-- All lines are messages, up to the one that reports the end of the machine. -/
def Messages (loads : String → Except LoadsError Json) : List Bytes → Prop
  | [] => True
  | line :: rest =>
      IsMessage loads line ∧ (qmpLine loads line ≠ .shutdown → Messages loads rest)

theorem qmpLine_raised_iff {line : Bytes} :
    (∃ e, qmpLine loads line = .raised e) ↔ ¬ IsMessage loads line := by
  rw [qmpLine, IsMessage]
  by_cases hblank : rstrip asciiBlanks (line.dropWhile (· ∈ asciiBlanks)) = []
  · simp [hblank]
  rw [if_neg hblank]
  cases htext : decodeUtf8 (rstrip asciiBlanks (line.dropWhile (· ∈ asciiBlanks))) with
  | none => simp [hblank]
  | some text =>
      cases hloads : loads text with
      | error e => cases e <;> simp [hblank, hloads]
      | ok message =>
          cases message with
          | dict entries =>
              cases hshutdown : isShutdown entries <;> simp [hblank, hloads, hshutdown]
          | null | bool _ | number _ | str _ | list _ => simp [hblank, hloads]

theorem isMessage_of_qmpLine {line : Bytes} (h : ∀ e, qmpLine loads line ≠ .raised e) :
    IsMessage loads line := by
  by_contra hmessage
  obtain ⟨e, he⟩ := qmpLine_raised_iff.mpr hmessage
  exact h e he

theorem qmpLines_raised_iff {lines : List Bytes} :
    (∃ e, qmpLines loads lines = .raised e) ↔ ¬ Messages loads lines := by
  induction lines with
  | nil => simp [qmpLines, Messages]
  | cons line rest ih =>
      rw [qmpLines, Messages]
      cases hresult : qmpLine loads line with
      | ignored =>
          have hmessage : IsMessage loads line := isMessage_of_qmpLine (by simp [hresult])
          simpa [hmessage] using ih
      | shutdown =>
          have hmessage : IsMessage loads line := isMessage_of_qmpLine (by simp [hresult])
          simp [hmessage]
      | raised e =>
          have hmessage := qmpLine_raised_iff.mp ⟨e, hresult⟩
          simp [hmessage]

theorem messages_of_qmpLines {lines : List Bytes} (h : ∀ e, qmpLines loads lines ≠ .raised e) :
    Messages loads lines := by
  by_contra hmessages
  obtain ⟨e, he⟩ := qmpLines_raised_iff.mpr hmessages
  exact h e he

end Lines

namespace Wrapper

open WrapperPoint Runs

variable {setup : WrapperSetup} {w w' : Wrapper} {event : WrapperEvent}

/-! ## What `main` has registered -/

/-- No exception has left `main`, and at the head of the loop the pipe is registered, and the socket
if there is one. -/
def Sound (setup : WrapperSetup) (w : Wrapper) : Prop :=
  (∀ e, w.point ≠ raised e) ∧ (w.point = head → w.selector = setup.stdout :: w.qmp.toList)

/-- The same in the whole loop. -/
structure Registered (setup : WrapperSetup) (w : Wrapper) : Prop where
  selector : w.point.reads → w.selector = setup.stdout :: w.qmp.toList
  fresh : ∀ fd ∈ w.qmp, fd ≠ setup.stdout
  noError : ∀ e, w.point ≠ raised e

theorem Registered.sound (h : Registered setup w) : Sound setup w :=
  ⟨h.noError, fun hpoint => h.selector (by rw [hpoint]; rfl)⟩

/-- A step of which `main` can deal with what it meets: nothing fails on a socket that is already
registered, unless the command is ended in the same turn, the lines are messages, and signals are
permitted. -/
def Harmless (setup : WrapperSetup) (w : Wrapper) : WrapperEvent → Prop
  | .turn now (.sendFailed _) => w.probes setup → w.timedOut setup now
  | .recv none => False
  | .recv (some chunk) => chunk ≠ [] → Messages setup.loads (w.newLines chunk)
  | .signal permitted => permitted
  | _ => True

theorem registered_next {ready : List WrapperSource}
    (hselector : w.selector = setup.stdout :: w.qmp.toList)
    (hfresh : ∀ fd ∈ w.qmp, fd ≠ setup.stdout) : Registered setup (w.next ready) where
  selector _ := hselector
  fresh := hfresh
  noError e := by
    rw [next]
    dsimp only
    split <;> simp

/-- Behind the loop, nothing is asked of the selector. -/
theorem registered_of_left {point : WrapperPoint} (hfresh : ∀ fd ∈ w.qmp, fd ≠ setup.stdout)
    (hpoint : point.reads = false) (hraised : ∀ e, point ≠ raised e) :
    Registered setup { w with point := point } where
  selector hreads := by
    rw [hpoint] at hreads
    cases hreads
  fresh := hfresh
  noError := hraised

theorem mem_socket_of_mem_opened {probe : QmpProbe} {fd : ℕ} (h : fd ∈ opened? probe) :
    fd ∈ socket? probe := by
  cases probe with
  | connected => exact h
  | absent | failed | sendFailed => cases h

/-- A probe leaves the pipe registered and the socket that it leaves open, if it does not fail on
one that it has registered. -/
theorem registered_probed {probe : QmpProbe} (hw : Registered setup w) (hpoint : w.point = head)
    (hsent : w.probes setup → socket? probe = opened? probe) :
    (w.probed setup probe).selector = setup.stdout :: (w.probed setup probe).qmp.toList := by
  have hselector := hw.selector (by rw [hpoint]; rfl)
  rw [probed]
  split
  next hprobes =>
    dsimp only
    rw [hselector, qmp_of_probes hprobes, hsent hprobes]
    rfl
  next => exact hselector

theorem registered_await {now : ℚ} {probe : QmpProbe} (hw : Registered setup w)
    (hpoint : w.point = head) (hstdout : ∀ fd ∈ socket? probe, fd ≠ setup.stdout)
    (hharmless : Harmless setup w (.turn now probe)) :
    Registered setup ((w.probed setup probe).await setup now) := by
  have hfresh : ∀ fd ∈ (w.probed setup probe).qmp, fd ≠ setup.stdout := by
    rw [probed]
    split
    next => exact fun fd hfd => hstdout fd (mem_socket_of_mem_opened hfd)
    next => exact hw.fresh
  have hawait := w.await_point setup now probe
  cases htimedOut : w.timedOut setup now with
  | true =>
      rw [htimedOut, if_pos rfl] at hawait
      refine ⟨fun hreads => ?_, hfresh, by simp [hawait]⟩
      rw [hawait] at hreads
      cases hreads
  | false =>
      rw [htimedOut, if_neg (by simp)] at hawait
      refine ⟨fun _ => registered_probed hw hpoint fun hprobes => ?_, hfresh, by simp [hawait]⟩
      cases probe with
      | absent | failed | connected => rfl
      | sendFailed fd =>
          have hended := hharmless hprobes
          rw [htimedOut] at hended
          cases hended

theorem Stepped.registered (h : Stepped setup w event w') (hw : Registered setup w)
    (hharmless : Harmless setup w event) : Registered setup w' := by
  cases h with
  | write | exit => exact ⟨hw.selector, hw.fresh, hw.noError⟩
  | ended hpoint => exact ⟨fun _ => hw.selector (by rw [hpoint]; rfl), hw.fresh, by simp⟩
  | registeredTwice hpoint hprobes _ hstdout hmem =>
      rw [hw.selector (by rw [hpoint]; rfl), qmp_of_probes hprobes] at hmem
      exact absurd (List.mem_singleton.mp hmem) hstdout
  | turn hpoint _ hstdout => exact registered_await hw hpoint hstdout hharmless
  | selected hpoint => exact registered_next (hw.selector (by rw [hpoint]; rfl)) hw.fresh
  | recvFailed => exact absurd hharmless id
  | closed hpoint hqmp hmem =>
      have hselector := hw.selector (by rw [hpoint]; rfl)
      refine registered_next ?_ (by simp)
      have hne := hw.fresh _ hqmp
      rw [hselector, hqmp]
      simp [Ne.symm hne]
  | closedTwice hpoint hqmp hmem =>
      rw [hw.selector (by rw [hpoint]; rfl), hqmp] at hmem
      exact absurd (by simp) hmem
  | ignored hpoint => exact registered_next (hw.selector (by rw [hpoint]; rfl)) hw.fresh
  | shutdown => exact registered_of_left hw.fresh rfl (by simp)
  | lineRaised _ _ hchunk hlines =>
      exact absurd (hharmless hchunk) (qmpLines_raised_iff.mp ⟨_, hlines⟩)
  | atEnd hpoint => exact registered_next (hw.selector (by rw [hpoint]; rfl)) hw.fresh
  | read hpoint => exact registered_next (hw.selector (by rw [hpoint]; rfl)) hw.fresh
  | @sendQuit sent => exact registered_of_left hw.fresh (by cases sent <;> rfl) (by cases sent <;> simp)
  | terminated | killed | waited | gaveUp => exact registered_of_left hw.fresh rfl (by simp)
  | denied => cases hharmless
  | drain => exact registered_of_left hw.fresh rfl (by simp)

/-! ## What goes wrong otherwise -/

theorem not_sound_of_raised {e : WrapperError} (h : w.point = raised e) : ¬ Sound setup w :=
  fun hsound => hsound.1 e h

/-- A socket that stays registered is still there in the next turn. -/
theorem not_sound_after_send {now : ℚ} {fd : ℕ} (hw : Registered setup w) (hpoint : w.point = head)
    (hprobes : w.probes setup) (htimedOut : w.timedOut setup now = false) :
    ∃ w'', run (step setup) ((w.probed setup (.sendFailed fd)).await setup now) [.selected []] =
      some w'' ∧ ¬ Sound setup w'' := by
  have hawait := w.await_point setup now (.sendFailed fd)
  rw [htimedOut, if_neg (by simp)] at hawait
  refine ⟨((w.probed setup (.sendFailed fd)).await setup now).next [], ?_, fun hsound => ?_⟩
  · refine run_cons_eq_some.mpr ⟨_, ?_, run_nil _⟩
    rw [step, if_pos (by simp [hawait])]
  · have hselector := hsound.2 (by rw [next, if_pos rfl])
    rw [next, await, probed, if_pos hprobes] at hselector
    dsimp only at hselector
    rw [hw.selector (by rw [hpoint]; rfl), qmp_of_probes hprobes] at hselector
    simp [socket?, opened?] at hselector

/-- After a step that is not harmless, a run can go on to a state that is not sound. -/
theorem Stepped.exists_not_sound (h : Stepped setup w event w') (hw : Registered setup w)
    (hharmful : ¬ Harmless setup w event) :
    ∃ more w'', run (step setup) w' more = some w'' ∧ ¬ Sound setup w'' := by
  cases h with
  | @ended now probe code hpoint hcode =>
      cases probe with
      | absent | failed | connected => exact absurd trivial hharmful
      | sendFailed fd =>
          obtain ⟨hprobes, _⟩ := Classical.not_imp.mp hharmful
          simp [probes, hcode] at hprobes
  | registeredTwice _ _ hsocket _ hmem =>
      exact ⟨[], _, run_nil _, not_sound_of_raised (connect_point_of_mem hsocket hmem)⟩
  | @turn now probe hpoint =>
      cases probe with
      | absent | failed | connected => exact absurd trivial hharmful
      | sendFailed fd =>
          obtain ⟨hprobes, htimedOut⟩ := Classical.not_imp.mp hharmful
          exact ⟨_, not_sound_after_send hw hpoint hprobes (by simpa using htimedOut)⟩
  | recvFailed | closedTwice | lineRaised | denied =>
      exact ⟨[], _, run_nil _, not_sound_of_raised rfl⟩
  | closed => exact absurd (fun hne => absurd rfl hne) hharmful
  | ignored _ _ _ hlines | shutdown _ _ _ hlines =>
      exact absurd (fun _ => messages_of_qmpLines (by simp [hlines])) hharmful
  | terminated | killed => exact absurd rfl hharmful
  | write | exit | selected | atEnd | read | sendQuit | waited | gaveUp | drain =>
      exact absurd trivial hharmful

/-! ## The end of `main` -/

/-- The events that are left are each about another source, and the socket is open if it is one. -/
def Pending (w : Wrapper) : Prop :=
  ∀ ready, w.point = events ready → ready ≠ [] ∧ ready.Nodup ∧ (.qmp ∈ ready → w.qmp.isSome)

theorem pending_next {ready : List WrapperSource} (hnodup : ready.Nodup)
    (hopen : .qmp ∈ ready → w.qmp.isSome) : Pending (w.next ready) := by
  intro others hpoint
  rw [next] at hpoint
  by_cases hready : ready = []
  · rw [if_pos hready] at hpoint
    cases hpoint
  · rw [if_neg hready] at hpoint
    cases hpoint
    exact ⟨hready, hnodup, hopen⟩

theorem pending_of_ne_events (h : ∀ ready, w.point ≠ events ready) : Pending w :=
  fun ready hpoint => absurd hpoint (h ready)

theorem Pending.tail {source : WrapperSource} {ready : List WrapperSource} (h : Pending w)
    (hpoint : w.point = events (source :: ready)) :
    source ∉ ready ∧ ready.Nodup ∧ (.qmp ∈ ready → w.qmp.isSome) := by
  obtain ⟨_, hnodup, hopen⟩ := h _ hpoint
  exact ⟨(List.nodup_cons.mp hnodup).1, (List.nodup_cons.mp hnodup).2,
    fun hmem => hopen (List.mem_cons_of_mem _ hmem)⟩

theorem Stepped.pending (h : Stepped setup w event w') (hw : Pending w) : Pending w' := by
  cases h with
  | write | exit => exact hw
  | registeredTwice _ _ hsocket _ hmem =>
      exact pending_of_ne_events fun ready => by simp [connect_point_of_mem hsocket hmem]
  | @turn now probe =>
      refine pending_of_ne_events fun ready => ?_
      rw [await_point]
      split <;> simp
  | selected _ hnodup hopen => exact pending_next hnodup hopen
  | closed hpoint =>
      obtain ⟨hmem, hnodup, _⟩ := hw.tail hpoint
      exact pending_next hnodup fun hqmp => absurd hqmp hmem
  | ignored hpoint | atEnd hpoint | read hpoint =>
      obtain ⟨_, hnodup, hopen⟩ := hw.tail hpoint
      exact pending_next hnodup hopen
  | @sendQuit sent => exact pending_of_ne_events fun ready => by cases sent <;> simp
  | ended | recvFailed | closedTwice | shutdown | lineRaised | terminated | killed | denied | waited
  | gaveUp | drain => exact pending_of_ne_events fun ready => by simp

/-- How many steps `main` has still to do at most, once the command has ended. -/
def stepsLeft : WrapperPoint → ℕ
  | select => 8
  | events ready => 5 + ready.length
  | quit => 5
  | terminate _ => 4
  | wait _ => 3
  | kill _ => 2
  | head => 2
  | reap _ => 1
  | leftover => 1
  | returned _ => 0
  | raised _ => 0

theorem length_sources_le {ready : List WrapperSource} (h : ready.Nodup) : ready.length ≤ 2 := by
  have hsub : ready ⊆ [.stdout, .qmp] := by
    intro source _
    cases source <;> simp
  exact (h.subperm hsub).length_le

theorem stepsLeft_next_lt {source : WrapperSource} {ready : List WrapperSource}
    (hpoint : w.point = events (source :: ready)) (later : Wrapper) :
    stepsLeft (later.next ready).point < stepsLeft w.point := by
  rw [hpoint, next]
  by_cases hready : ready = []
  · rw [if_pos hready]
    simp only [stepsLeft, List.length_cons]
    omega
  · rw [if_neg hready]
    simp [stepsLeft]

/-- Once the command has ended, each step brings `main` nearer to its end. -/
theorem Stepped.stepsLeft_lt (h : Stepped setup w event w') (hcode : w.returncode.isSome) :
    w'.returncode.isSome ∧ stepsLeft w'.point < stepsLeft w.point := by
  cases h with
  | write hnone | exit hnone =>
      rw [hnone] at hcode
      cases hcode
  | turn _ hnone =>
      rw [hnone] at hcode
      cases hcode
  | denied _ hnone =>
      rw [hnone] at hcode
      cases hcode
  | registeredTwice _ hprobes =>
      simp only [probes, Bool.and_eq_true, Option.isNone_iff_eq_none] at hprobes
      rw [hprobes.1.1] at hcode
      cases hcode
  | ended hpoint => exact ⟨hcode, by rw [hpoint]; simp [stepsLeft]⟩
  | @selected ready hpoint hnodup =>
      refine ⟨hcode, ?_⟩
      rw [hpoint, next]
      split
      next => simp [stepsLeft]
      next =>
        have hlength := length_sources_le hnodup
        simp only [stepsLeft]
        omega
  | closed hpoint | ignored hpoint | atEnd hpoint | read hpoint =>
      exact ⟨hcode, stepsLeft_next_lt hpoint _⟩
  | recvFailed hpoint | closedTwice hpoint | lineRaised hpoint =>
      exact ⟨hcode, by rw [hpoint]; simp [stepsLeft]⟩
  | shutdown hpoint => exact ⟨hcode, by rw [hpoint]; simp [stepsLeft]⟩
  | @sendQuit sent hpoint => exact ⟨hcode, by rw [hpoint]; cases sent <;> simp [stepsLeft]⟩
  | terminated hpoint | killed hpoint | gaveUp hpoint | drain hpoint =>
      exact ⟨hcode, by rw [hpoint]; simp [stepsLeft]⟩
  | waited hpoint => exact ⟨hcode, by rcases hpoint with h | h <;> rw [h] <;> simp [stepsLeft]⟩

/-- As long as `main` has not returned, it can do a step. -/
theorem exists_step (hw : Registered setup w) (hpending : Pending w) (hcode : w.returncode.isSome) :
    (∃ code, w.point = returned code) ∨
      ∃ event, Harmless setup w event ∧ (w.step setup event).isSome := by
  cases hpoint : w.point with
  | head => exact Or.inr ⟨.turn 0 .absent, trivial, by simp [step, hpoint, fresh]⟩
  | select => exact Or.inr ⟨.selected [], trivial, by simp [step, hpoint]⟩
  | events ready =>
      obtain ⟨hne, _, hopen⟩ := hpending ready hpoint
      obtain ⟨source, ready, rfl⟩ := List.exists_cons_of_ne_nil hne
      cases source with
      | stdout =>
          by_cases hpipe : w.pipe = []
          · exact Or.inr ⟨.read 0 0, trivial, by simp [step, hpoint, readPipe, hpipe]⟩
          · have hlength : 1 ≤ w.pipe.length := List.length_pos_iff.mpr hpipe
            exact Or.inr ⟨.read 1 0, trivial, by simp [step, hpoint, readPipe, hlength]⟩
      | qmp =>
          obtain ⟨fd, hfd⟩ := Option.isSome_iff_exists.mp (hopen List.mem_cons_self)
          exact Or.inr ⟨.recv (some []), fun hne => absurd rfl hne, by simp [step, hpoint, hfd]⟩
  | quit => exact Or.inr ⟨.sendQuit true, trivial, by simp [step, hpoint]⟩
  | terminate code | kill code =>
      exact Or.inr ⟨.signal true, rfl, by simp [step, hpoint, signal]⟩
  | wait code | reap code =>
      have hended : w.returncode ≠ none := Option.isSome_iff_ne_none.mp hcode
      exact Or.inr ⟨.waited true, trivial, by simp [step, hpoint, hended]⟩
  | leftover =>
      obtain ⟨code, hcode⟩ := Option.isSome_iff_exists.mp hcode
      exact Or.inr ⟨.drain, trivial, by simp [step, hpoint, hcode]⟩
  | returned code => exact Or.inl ⟨code, rfl⟩
  | raised e => exact absurd hpoint (hw.noError e)

/-- Once the command has ended, `main` does no more than eight steps, and where it can do none it has
returned. -/
def EndsInExitCode (setup : WrapperSetup) (w : Wrapper) : Prop :=
  ∀ more w', run (step setup) w more = some w' → Along (step setup) (Harmless setup) w more →
    more.length ≤ 8 ∧ ((∃ code, w'.point = returned code) ∨
      ∃ event, Harmless setup w' event ∧ (w'.step setup event).isSome)

/-- What a run of harmless steps keeps. -/
theorem kept_of_run {more : List WrapperEvent} (hrun : run (step setup) w more = some w')
    (halong : Along (step setup) (Harmless setup) w more) (hw : Registered setup w ∧ Pending w) :
    Registered setup w' ∧ Pending w' := by
  refine invariant_along (fun w => Registered setup w ∧ Pending w) ?_ hrun halong hw
  intro w event w' hinv hharmless hstep
  have hstepped := stepped_of_step hstep
  exact ⟨hstepped.registered hinv.1 hharmless, hstepped.pending hinv.2⟩

theorem length_le_stepsLeft {more : List WrapperEvent} (hrun : run (step setup) w more = some w')
    (hcode : w.returncode.isSome) :
    w'.returncode.isSome ∧ more.length + stepsLeft w'.point ≤ stepsLeft w.point := by
  induction more generalizing w with
  | nil =>
      obtain rfl := Option.some.inj hrun
      exact ⟨hcode, by simp⟩
  | cons event more ih =>
      obtain ⟨next, hnext, hrest⟩ := run_cons_eq_some.mp hrun
      obtain ⟨hnextCode, hlt⟩ := (stepped_of_step hnext).stepsLeft_lt hcode
      obtain ⟨hended, hle⟩ := ih hrest hnextCode
      refine ⟨hended, ?_⟩
      rw [List.length_cons]
      omega

theorem stepsLeft_le (hw : Pending w) : stepsLeft w.point ≤ 8 := by
  cases hpoint : w.point with
  | events ready =>
      have hlength := length_sources_le (hw ready hpoint).2.1
      simp only [stepsLeft]
      omega
  | head | select | quit | terminate | wait | kill | reap | leftover | returned | raised =>
      simp [stepsLeft]

theorem endsInExitCode (hw : Registered setup w ∧ Pending w) (hcode : w.returncode.isSome) :
    EndsInExitCode setup w := by
  intro more w' hrun halong
  obtain ⟨hended, hle⟩ := length_le_stepsLeft hrun hcode
  have hstart := stepsLeft_le hw.2
  obtain ⟨hregistered, hpending⟩ := kept_of_run hrun halong hw
  exact ⟨by omega, exists_step hregistered hpending hended⟩

/-- In a run of harmless steps, no exception leaves `main`, the selector has the pipe and the socket
at every head of the loop, and once the command has ended `main` ends in an exit code; and every
step that is not harmless lets the run go on to an exception or to another selector. -/
theorem main_sound_of_harmless (setup : WrapperSetup) (now : ℚ) :
    ∀ events w, run (step setup) (start setup now) events = some w →
      Along (step setup) (Harmless setup) (start setup now) events →
      Sound setup w ∧ (w.returncode.isSome → EndsInExitCode setup w) ∧
        ∀ event w', w.step setup event = some w' → ¬ Harmless setup w event →
          ∃ more w'', run (step setup) w' more = some w'' ∧ ¬ Sound setup w'' := by
  intro events w hrun halong
  have hstart : Registered setup (start setup now) ∧ Pending (start setup now) :=
    ⟨⟨fun _ => rfl, by simp [start], by simp [start]⟩, pending_of_ne_events (by simp [start])⟩
  have hkept := kept_of_run hrun halong hstart
  exact ⟨hkept.1.sound, endsInExitCode hkept, fun event w' hstep hharmful =>
    (stepped_of_step hstep).exists_not_sound hkept.1 hharmful⟩

/-! ## A QEMU that closes its socket, and others -/

/-- A setup for `run_with_idle_timeout.py --qmp-socket`, with some texts that QEMU can send. -/
def qemuSetup : WrapperSetup where
  idleTimeout := 180
  quiet := true
  qmpSocket := true
  stdout := 4
  loads text :=
    if text = "\x7b\"event\": \"SHUTDOWN\"\x7d" then .ok (.dict [("event", .str "SHUTDOWN")])
    else if text = "[]" then .ok (.list [])
    else .error .jsonDecodeError

/-- The socket is closed and opened again, and the command ends. -/
def reconnectRun : List WrapperEvent := [.turn 1 (.connected 5), .selected [.qmp],
  .recv (some []), .turn 2 (.connected 5), .selected [], .exit 3, .turn 3 .absent, .drain]

theorem main_sound_of_harmless_reconnectRun :
    ∃ w, run (step qemuSetup) (start qemuSetup 0) reconnectRun = some w ∧ w.point = returned 3 ∧
      Sound qemuSetup w ∧ (w.returncode.isSome → EndsInExitCode qemuSetup w) ∧
        ∀ event w', w.step qemuSetup event = some w' → ¬ Harmless qemuSetup w event →
          ∃ more w'', run (step qemuSetup) w' more = some w'' ∧ ¬ Sound qemuSetup w'' := by
  have hpoints : (run (step qemuSetup) (start qemuSetup 0) reconnectRun).map (·.point) =
      some (returned 3) := by decide +kernel
  obtain ⟨w, hrun, hpoint⟩ := Option.map_eq_some_iff.mp hpoints
  have halong : Along (step qemuSetup) (Harmless qemuSetup) (start qemuSetup 0) reconnectRun := by
    refine along_of_forall ?_ _
    simp [reconnectRun, Harmless]
  exact ⟨w, hrun, hpoint, main_sound_of_harmless qemuSetup 0 _ w hrun halong⟩

/-- The command still runs when an exception leaves `main`: the socket is registered twice after
`sendall` has failed, the connection is reset, or a line is not UTF-8 or no object. -/
theorem exceptions_leave_main :
    (run (step qemuSetup) (start qemuSetup 0) [.turn 1 (.sendFailed 5), .selected []]).map
        (fun w => (w.point, w.selector, w.qmp)) = some (head, [4, 5], none) ∧
      ∀ run' ∈ [([.turn 1 (.sendFailed 5), .selected [], .turn 2 (.connected 5)],
            WrapperError.keyError 5),
          ([.turn 1 (.connected 5), .selected [.qmp], .recv none], .osError),
          ([.turn 1 (.connected 5), .selected [.qmp], .recv (some [0xff, 10])],
            .unicodeDecodeError),
          ([.turn 1 (.connected 5), .selected [.qmp], .recv (some (ascii "[]\n"))],
            .attributeError "get")],
        (run (step qemuSetup) (start qemuSetup 0) run'.1).map
          (fun w => (w.point, w.returncode)) = some (raised run'.2, none) := by
  constructor
  · decide +kernel
  · decide +kernel

end Wrapper

end DistroSeed
