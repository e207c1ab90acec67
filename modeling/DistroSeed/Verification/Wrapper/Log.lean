import DistroSeed.Verification.Wrapper.Selector

/-! The log of the wrapper against what the command has written, for every way in which the wrapper
can end. -/

namespace DistroSeed

namespace Wrapper

open PyText WrapperPoint Runs

variable {setup : WrapperSetup} {w w' : Wrapper} {event : WrapperEvent}

/-! ## The bytes of the command -/

/-- What the command has written is in the log, and behind that in the pipe. -/
def Accounted (w : Wrapper) : Prop := w.log ++ w.pipe = w.written

/-- The bytes of the command are where they were. -/
structure SameBytes (w w' : Wrapper) : Prop where
  log : w'.log = w.log
  pipe : w'.pipe = w.pipe
  written : w'.written = w.written

theorem SameBytes.accounted (h : SameBytes w w') (hw : Accounted w) : Accounted w' := by
  rw [Accounted, h.log, h.pipe, h.written]
  exact hw

theorem sameBytes_connect (probe : QmpProbe) (w : Wrapper) : SameBytes w (w.connect probe) := by
  cases probe with
  | absent | failed => exact ⟨rfl, rfl, rfl⟩
  | sendFailed fd | connected fd =>
      rw [connect, register]
      split <;> exact ⟨rfl, rfl, rfl⟩

theorem sameBytes_await (setup : WrapperSetup) (now : ℚ) (probe : QmpProbe) (w : Wrapper) :
    SameBytes w ((w.probed setup probe).await setup now) := by
  rw [await, probed]
  split <;> exact ⟨rfl, rfl, rfl⟩

theorem accounted_append (setup : WrapperSetup) (h : Accounted w) (size : ℕ) :
    Accounted (w.append setup size) := by
  rw [Accounted, append, List.append_assoc, List.take_append_drop]
  exact h

theorem Stepped.accounted (h : Stepped setup w event w') (hw : Accounted w) : Accounted w' := by
  cases h with
  | write => exact (List.append_assoc _ _ _).symm.trans (congrArg (· ++ _) hw)
  | registeredTwice => exact (sameBytes_connect _ w).accounted hw
  | turn => exact (sameBytes_await setup _ _ w).accounted hw
  | read => exact accounted_append setup hw _
  | drain => exact accounted_append setup hw _
  | exit | ended | selected | recvFailed | closed | closedTwice | ignored | shutdown | lineRaised
  | atEnd | sendQuit | terminated | killed | denied | waited | gaveUp => exact hw

/-! ## Bytes that are left in the pipe -/

/-- Nothing is in the pipe that will not be read any more. -/
def Lossless (w : Wrapper) : Prop := w.point.reads ∨ w.pipe = []

/-- A step that takes `main` away from the pipe finds it empty, and from then on nothing is
written. -/
def LosesNothing (setup : WrapperSetup) (w : Wrapper) : WrapperEvent → Prop
  | .turn now _ => w.returncode = none → w.timedOut setup now → w.pipe = []
  | .recv (some chunk) =>
      chunk ≠ [] → qmpLines setup.loads (w.newLines chunk) = .shutdown → w.pipe = []
  | .write data => w.point.reads ∨ data = []
  | _ => True

theorem lossless_of_reads (h : w.point.reads) : Lossless w := Or.inl h

theorem lossless_iff_of_not_reads (h : w.point.reads = false) : Lossless w ↔ w.pipe = [] := by
  simp [Lossless, h]

/-- `main` goes on reading, so nothing can be lost by this step. -/
theorem lossless_iff_of_reading (h : w.point.reads) (h' : w'.point.reads)
    (hloses : LosesNothing setup w event) : Lossless w' ↔ Lossless w ∧ LosesNothing setup w event :=
  iff_of_true (lossless_of_reads h') ⟨lossless_of_reads h, hloses⟩

/-- `main` leaves the pipe now. -/
theorem lossless_iff_of_leaving (h : w.point.reads) (h' : w'.point.reads = false)
    (hpipe : w'.pipe = w.pipe) (hloses : LosesNothing setup w event ↔ w.pipe = []) :
    Lossless w' ↔ Lossless w ∧ LosesNothing setup w event := by
  rw [lossless_iff_of_not_reads h', hpipe, hloses]
  exact ⟨fun hempty => ⟨lossless_of_reads h, hempty⟩, And.right⟩

/-- `main` has left the pipe before. -/
theorem lossless_iff_of_left (h : w.point.reads = false) (h' : w'.point.reads = false)
    (hpipe : w'.pipe = w.pipe) (hloses : LosesNothing setup w event) :
    Lossless w' ↔ Lossless w ∧ LosesNothing setup w event := by
  rw [lossless_iff_of_not_reads h, lossless_iff_of_not_reads h', hpipe]
  exact ⟨fun hempty => ⟨hempty, hloses⟩, And.left⟩

/-- A step leaves the pipe lossless exactly if it was, and the step loses nothing. -/
theorem Stepped.lossless_iff (h : Stepped setup w event w') (hend : ∀ e, w'.point ≠ raised e) :
    Lossless w' ↔ Lossless w ∧ LosesNothing setup w event := by
  cases h with
  | write =>
      cases hreads : w.point.reads with
      | true => simp [Lossless, LosesNothing, hreads]
      | false => simp [Lossless, LosesNothing, hreads, List.append_eq_nil_iff]
  | exit => simp [Lossless, LosesNothing]
  | ended hpoint hcode =>
      refine lossless_iff_of_reading (by rw [hpoint]; rfl) rfl fun hnone => ?_
      rw [hcode] at hnone
      cases hnone
  | registeredTwice _ _ hsocket _ hmem => exact absurd (connect_point_of_mem hsocket hmem) (hend _)
  | @turn now probe hpoint hcode =>
      have hawait := w.await_point setup now probe
      cases htimedOut : w.timedOut setup now with
      | true =>
          rw [htimedOut, if_pos rfl] at hawait
          refine lossless_iff_of_leaving (by rw [hpoint]; rfl) (by rw [hawait]; rfl)
            (sameBytes_await setup now probe w).pipe ?_
          simp [LosesNothing, hcode, htimedOut]
      | false =>
          rw [htimedOut, if_neg (by simp)] at hawait
          refine lossless_iff_of_reading (by rw [hpoint]; rfl) (by rw [hawait]; rfl) ?_
          simp [LosesNothing, htimedOut]
  | selected hpoint => exact lossless_iff_of_reading (by rw [hpoint]; rfl) (reads_next _ w) trivial
  | recvFailed | closedTwice | lineRaised | denied => exact absurd rfl (hend _)
  | closed hpoint =>
      exact lossless_iff_of_reading (by rw [hpoint]; rfl) (reads_next _ _) fun hne => absurd rfl hne
  | ignored hpoint _ _ hlines =>
      refine lossless_iff_of_reading (by rw [hpoint]; rfl) (reads_next _ _) fun _ hshutdown => ?_
      rw [hlines] at hshutdown
      cases hshutdown
  | shutdown hpoint _ hchunk hlines =>
      refine lossless_iff_of_leaving (by rw [hpoint]; rfl) rfl rfl ?_
      simp [LosesNothing, hchunk, hlines]
  | atEnd hpoint => exact lossless_iff_of_reading (by rw [hpoint]; rfl) (reads_next _ w) trivial
  | read hpoint => exact lossless_iff_of_reading (by rw [hpoint]; rfl) (reads_next _ _) trivial
  | @sendQuit sent hpoint =>
      refine lossless_iff_of_left (by rw [hpoint]; rfl) ?_ rfl trivial
      cases sent <;> rfl
  | terminated hpoint => exact lossless_iff_of_left (by rw [hpoint]; rfl) rfl rfl trivial
  | killed hpoint => exact lossless_iff_of_left (by rw [hpoint]; rfl) rfl rfl trivial
  | waited hpoint =>
      refine lossless_iff_of_left ?_ rfl rfl trivial
      rcases hpoint with hpoint | hpoint <;> rw [hpoint] <;> rfl
  | gaveUp hpoint => exact lossless_iff_of_left (by rw [hpoint]; rfl) rfl rfl trivial
  | drain hpoint =>
      refine iff_of_true (Or.inr ?_) ⟨lossless_of_reads (by rw [hpoint]; rfl), trivial⟩
      exact List.drop_length

/-! ## Whole runs -/

/-- An exception ends `main` for good. -/
theorem Stepped.raised_of_raised {e : WrapperError} (h : Stepped setup w event w')
    (hpoint : w.point = raised e) : w'.point = raised e := by
  cases h with
  | write | exit => exact hpoint
  | ended h | registeredTwice h | turn h | selected h | recvFailed h | closed h | closedTwice h
  | ignored h | shutdown h | lineRaised h | atEnd h | read h | sendQuit h | terminated h | killed h
  | gaveUp h | drain h =>
      rw [hpoint] at h
      cases h
  | denied h | waited h => rcases h with h | h <;> rw [hpoint] at h <;> cases h

/-- However `main` returns, the log has the bytes that the command has written, exactly if no step
of the run has lost any. -/
theorem log_eq_written_iff (setup : WrapperSetup) (now : ℚ) {events : List WrapperEvent} {code : ℤ}
    (hrun : run (step setup) (start setup now) events = some w) (hpoint : w.point = returned code) :
    w.log = w.written ↔ Along (step setup) (LosesNothing setup) (start setup now) events := by
  have hend : ∀ e, w.point ≠ raised e := by simp [hpoint]
  have haccounted : Accounted w :=
    invariant Accounted (fun _ _ _ hinv hstep => (stepped_of_step hstep).accounted hinv) hrun rfl
  obtain ⟨_, hlossless⟩ := iff_along Lossless (fun w => ∀ e, w.point ≠ raised e)
    (fun _ _ _ hstep halive e he => halive e ((stepped_of_step hstep).raised_of_raised he))
    (fun _ _ _ hstep halive => (stepped_of_step hstep).lossless_iff halive) hrun hend
  have hpipe : w.log = w.written ↔ w.pipe = [] := by
    rw [← haccounted]
    simp
  rw [hpipe, ← lossless_iff_of_not_reads (by rw [hpoint]; rfl), hlossless]
  exact and_iff_right (lossless_of_reads rfl)

/-! ## Runs that end in each way -/

/-- The guest powers off when its last line has been read. -/
def readShutdownRun : List WrapperEvent := [.write (ascii "Power down\n"), .turn 1 (.connected 5),
  .selected [.stdout], .read 11 1, .turn 2 .absent, .selected [.qmp],
  .recv (some (ascii "\x7b\"event\": \"SHUTDOWN\"\x7d\r\n")), .sendQuit true, .exit 0, .waited true]

theorem log_eq_written_iff_readShutdownRun :
    ∃ w, run (step qemuSetup) (start qemuSetup 0) readShutdownRun = some w ∧
      w.point = returned 0 ∧ w.log = ascii "Power down\n" ∧
      (w.log = w.written ↔
        Along (step qemuSetup) (LosesNothing qemuSetup) (start qemuSetup 0) readShutdownRun) := by
  have hends : (run (step qemuSetup) (start qemuSetup 0) readShutdownRun).map
      (fun w => (w.point, w.log)) = some (returned 0, ascii "Power down\n") := by decide +kernel
  obtain ⟨w, hrun, hend⟩ := Option.map_eq_some_iff.mp hends
  obtain ⟨hpoint, hlog⟩ := Prod.mk.inj hend
  exact ⟨w, hrun, hpoint, hlog, log_eq_written_iff qemuSetup 0 hrun hpoint⟩

/-- The guest powers off: its last line and the event are there at the same `select`. -/
def shutdownRun : List WrapperEvent := [.turn 1 (.connected 5), .write (ascii "Power down\n"),
  .selected [.qmp, .stdout], .recv (some (ascii "\x7b\"event\": \"SHUTDOWN\"\x7d\r\n")),
  .sendQuit true, .exit 0, .waited true]

/-- The command says why it ends when it is terminated. -/
def timeoutRun : List WrapperEvent := [.turn 1 .absent, .selected [], .turn 181 .absent,
  .signal true, .write (ascii "terminating on signal 15\n"), .exit 0, .waited true]

/-- Neither of them gets into the log. -/
theorem log_misses_output :
    (run (step qemuSetup) (start qemuSetup 0) shutdownRun).map
        (fun w => (w.point, w.written, w.log)) = some (returned 0, ascii "Power down\n", []) ∧
      (run (step qemuSetup) (start qemuSetup 0) timeoutRun).map
        (fun w => (w.point, w.written, w.log)) =
          some (returned 124, ascii "terminating on signal 15\n", []) := by
  constructor
  · decide +kernel
  · decide +kernel

end Wrapper

end DistroSeed
