import DistroSeed.Library.Escapes
import DistroSeed.Library.Numerals
import DistroSeed.Library.Runs
import DistroSeed.Model.TaskManager
import Mathlib.Data.Rat.Floor

/-! The loop of `build.py` over the sorted tasks, with its records, and the chart of
`work/tasks-timing.mmd`. -/

namespace DistroSeed

/-- A task with the text that the build prints for it. -/
structure DescribedTask extends Task where
  description : String
deriving DecidableEq, Repr

/-- `task.cmd_type`. -/
def CmdType.name : CmdType → String
  | .host => "host"
  | .vm => "vm"
  | .cross => "cross"
  | .target => "target"
  | .dummy => "dummy"
  | .packagelist => "packagelist"
  | .packagelistCross => "packagelist-cross"

/-! ## The loop -/

inductive RecordStatus where
  | running
  | passed
  | failed
deriving DecidableEq, Repr

structure TimingRecord where
  task : DescribedTask
  startMs : ℕ
  endMs : ℕ
  status : RecordStatus
deriving DecidableEq, Repr

inductive BuildStatus where
  | pass
  | fail
deriving DecidableEq, Repr

/-- How the `try` is left: behind the last task, by `sys.exit(1)`, or by an exception that is no
`Exception`. -/
inductive LoopEnd where
  | completed
  | exited
  | interrupted
deriving DecidableEq, Repr

/-- Where the build is: at the head of the loop, in `task.run`, in the `finally`, or behind it. -/
inductive BuildPoint where
  | head
  | running
  | leaving (how : LoopEnd)
  | afterLoop (how : LoopEnd)
deriving DecidableEq, Repr

/-- The variables of the loop, the last value of the clock, and what was written to
`tasks-timing.mmd`. -/
structure BuildRun where
  point : BuildPoint
  rest : List DescribedTask
  buildStart : ℚ
  clock : ℚ
  records : List TimingRecord
  buildStatus : BuildStatus
  chart : Option String

/-- What happens to the loop: it starts a task, the task passes or raises an `Exception`, another
exception ends the loop, no task is left, or the `finally` is run. -/
inductive BuildEvent where
  | started (now : ℚ)
  | passed (now : ℚ)
  | raised (now : ℚ)
  | interrupted
  | finished
  | written (now : ℚ)
deriving DecidableEq, Repr

/-- `round`, which goes to the even number from the middle between two. -/
def roundHalfEven (q : ℚ) : ℤ :=
  if q - ⌊q⌋ < 1 / 2 then ⌊q⌋
  else if 1 / 2 < q - ⌊q⌋ then ⌊q⌋ + 1
  else if ⌊q⌋ % 2 = 0 then ⌊q⌋
  else ⌊q⌋ + 1

namespace BuildRun

/-- In front of the first task. -/
def start (schedule : List DescribedTask) (now : ℚ) : BuildRun where
  point := .head
  rest := schedule
  buildStart := now
  clock := now
  records := []
  buildStatus := .pass
  chart := none

/-- `round((now - build_start) * 1000)`; the clock never goes back. -/
def offsetMs (s : BuildRun) (now : ℚ) : ℕ := (roundHalfEven ((now - s.buildStart) * 1000)).toNat

end BuildRun

/-- The record of the task that has been started last. -/
def setLast (records : List TimingRecord) (change : TimingRecord → TimingRecord) :
    List TimingRecord :=
  match records.getLast? with
  | some record => records.dropLast ++ [change record]
  | none => records

/-- What the `finally` does to a record. -/
def closeRecord (finalTimeMs : ℕ) (record : TimingRecord) : TimingRecord :=
  if record.status = .running then { record with endMs := finalTimeMs, status := .failed }
  else record

/-! ## `write_task_timing_gantt` -/

/-- `f"{n:02}"` and `f"{n:03}"`. -/
def zeroPadded (width n : ℕ) : String := String.ofList (Numerals.padded width n)

/-- `_format_offset_ms`. -/
def formatOffsetMs (ms : ℕ) : String :=
  let hours := ms / (60 * 60 * 1000)
  let rem := ms % (60 * 60 * 1000)
  let minutes := rem / (60 * 1000)
  let rem := rem % (60 * 1000)
  zeroPadded 2 hours ++ ":" ++ zeroPadded 2 minutes ++ ":" ++ zeroPadded 2 (rem / 1000) ++ "." ++
    zeroPadded 3 (rem % 1000)

/-- The text of a bar, in front of the escaping. -/
def TimingRecord.label (record : TimingRecord) : String :=
  toString record.task.id ++ " " ++ record.task.config ++ " (" ++ record.task.cmdType.name ++ ") " ++
    record.task.description

def TimingRecord.state (record : TimingRecord) : String :=
  if record.status = .failed then "crit" else "done"

/-- The end of a bar is behind its start. -/
def TimingRecord.barEnd (record : TimingRecord) : ℕ := max record.endMs (record.startMs + 1)

def barLine (i : ℕ) (record : TimingRecord) : String :=
  "    " ++ escapeMermaid record.label ++ " :" ++ record.state ++ ", t" ++ toString i ++ ", " ++
    formatOffsetMs record.startMs ++ ", " ++ formatOffsetMs record.barEnd

def BuildStatus.name : BuildStatus → String
  | .pass => "pass"
  | .fail => "fail"

def taskTimingGantt (records : List TimingRecord) (status : BuildStatus) : String :=
  "\n".intercalate (["gantt", "    title distro-seed task timings (" ++ status.name ++ ")",
    "    dateFormat HH:mm:ss.SSS", "    axisFormat %H:%M:%S.%L", "    section Tasks"] ++
    records.mapIdx fun i record => barLine (i + 1) record) ++ "\n"

/-! ## Steps -/

namespace BuildRun

/-- The `finally`: a chart is written if any task was started. -/
def runFinally (s : BuildRun) (now : ℚ) (how : LoopEnd) : BuildRun :=
  if s.records = [] then { s with point := .afterLoop how, clock := now }
  else
    let records := s.records.map (closeRecord (s.offsetMs now))
    let status := if records.any (·.status = .failed) then .fail else s.buildStatus
    { s with point := .afterLoop how, clock := now, records := records, buildStatus := status,
             chart := some (taskTimingGantt records status) }

def step (s : BuildRun) : BuildEvent → Option BuildRun
  | .started now =>
      match s.point, s.rest with
      | .head, task :: rest =>
          if s.clock ≤ now then
            some { s with
              point := .running
              rest := rest
              clock := now
              records := s.records ++
                [⟨task, s.offsetMs now, s.offsetMs now, .running⟩] }
          else none
      | _, _ => none
  | .passed now =>
      if s.point = .running ∧ s.clock ≤ now then
        some { s with
          point := .head
          clock := now
          records := setLast s.records fun record =>
            { record with endMs := s.offsetMs now, status := .passed } }
      else none
  | .raised now =>
      if s.point = .running ∧ s.clock ≤ now then
        some { s with
          point := .leaving .exited
          clock := now
          records := setLast s.records fun record =>
            { record with endMs := s.offsetMs now, status := .failed }
          buildStatus := .fail }
      else none
  | .interrupted =>
      if s.point = .head ∨ s.point = .running then some { s with point := .leaving .interrupted }
      else none
  | .finished =>
      if s.point = .head ∧ s.rest = [] then some { s with point := .leaving .completed } else none
  | .written now =>
      match s.point with
      | .leaving how => if s.clock ≤ now then some (s.runFinally now how) else none
      | _ => none

end BuildRun

end DistroSeed
