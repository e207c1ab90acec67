import DistroSeed.Model.BuildLoop
import DistroSeed.Verification.Scheduler.Precedence

/-! What the loop of the build keeps: the tasks run one after the other in the order of the
schedule, each behind all that its place in the task graph puts in front of it. -/

namespace DistroSeed

open Relation

/-! ## The clock -/

/-- Rounding never turns two times around. -/
theorem roundHalfEven_mono {q q' : ℚ} (h : q ≤ q') : roundHalfEven q ≤ roundHalfEven q' := by
  have hfloor : ⌊q⌋ ≤ ⌊q'⌋ := Int.floor_le_floor h
  have hlow (p : ℚ) : ⌊p⌋ ≤ roundHalfEven p := by
    unfold roundHalfEven
    split_ifs <;> omega
  have hhigh (p : ℚ) : roundHalfEven p ≤ ⌊p⌋ + 1 := by
    unfold roundHalfEven
    split_ifs <;> omega
  rcases hfloor.lt_or_eq with hlt | heq
  · have hq := hhigh q
    have hq' := hlow q'
    omega
  · -- Between the same two numbers only the distance to the lower one counts.
    unfold roundHalfEven
    rw [← heq]
    split_ifs <;> first | omega | (exfalso; linarith)

theorem BuildRun.offsetMs_mono (s : BuildRun) {now now' : ℚ} (h : now ≤ now') :
    s.offsetMs now ≤ s.offsetMs now' := by
  apply Int.toNat_le_toNat
  apply roundHalfEven_mono
  linarith

/-! ## The records of a run -/

/-- The first task has passed, and before the second one was started. -/
def EndsBefore (first second : TimingRecord) : Prop :=
  first.status = .passed ∧ first.endMs ≤ second.startMs

theorem setLast_append (init : List TimingRecord) (last : TimingRecord)
    (change : TimingRecord → TimingRecord) :
    setLast (init ++ [last]) change = init ++ [change last] := by
  simp [setLast]

/-- A record that only gets a later end keeps its place among the others. -/
theorem pairwise_endsBefore_append {init : List TimingRecord} {last last' : TimingRecord}
    (h : (init ++ [last]).Pairwise EndsBefore) (hstart : last'.startMs = last.startMs) :
    (init ++ [last']).Pairwise EndsBefore := by
  rw [List.pairwise_append] at h ⊢
  refine ⟨h.1, List.pairwise_singleton _ _, fun first hfirst second hsecond => ?_⟩
  rw [List.mem_singleton.mp hsecond, EndsBefore, hstart]
  exact h.2.2 first hfirst last (List.mem_singleton_self last)

theorem status_of_mem_init {init : List TimingRecord} {last record : TimingRecord}
    (h : (init ++ [last]).Pairwise EndsBefore) (hrecord : record ∈ init) :
    record.status = .passed :=
  ((List.pairwise_append.mp h).2.2 record hrecord last (List.mem_singleton_self last)).1

@[simp] theorem closeRecord_task (ms : ℕ) (record : TimingRecord) :
    (closeRecord ms record).task = record.task := by
  unfold closeRecord
  split <;> rfl

@[simp] theorem closeRecord_startMs (ms : ℕ) (record : TimingRecord) :
    (closeRecord ms record).startMs = record.startMs := by
  unfold closeRecord
  split <;> rfl

theorem closeRecord_of_ne {ms : ℕ} {record : TimingRecord} (h : record.status ≠ .running) :
    closeRecord ms record = record := if_neg h

theorem closeRecord_status_ne (ms : ℕ) (record : TimingRecord) :
    (closeRecord ms record).status ≠ .running := by
  unfold closeRecord
  split
  · simp
  · assumption

theorem closeRecord_endMs_cases (ms : ℕ) (record : TimingRecord) :
    (closeRecord ms record).endMs = record.endMs ∨ (closeRecord ms record).endMs = ms := by
  unfold closeRecord
  split
  · exact Or.inr rfl
  · exact Or.inl rfl

namespace BuildRun

/-- The status of the records, by the point that the build has reached. -/
def StatusAt (records : List TimingRecord) (rest : List DescribedTask) : BuildPoint → Prop
  | .head => ∀ record ∈ records, record.status = .passed
  | .running => ∃ init last, records = init ++ [last] ∧ last.status = .running
  | .leaving .completed => rest = [] ∧ ∀ record ∈ records, record.status = .passed
  | .leaving .exited => ∃ init last, records = init ++ [last] ∧ last.status = .failed
  | .leaving .interrupted => ∀ record ∈ records, record.status ≠ .failed
  | .afterLoop .completed => rest = [] ∧ ∀ record ∈ records, record.status = .passed
  | .afterLoop .exited => ∃ init last, records = init ++ [last] ∧ last.status = .failed
  | .afterLoop .interrupted => ∀ record ∈ records, record.status ≠ .running

/-- The records in the middle of a build over a schedule. -/
structure Kept (schedule : List DescribedTask) (s : BuildRun) : Prop where
  clock : s.buildStart ≤ s.clock
  tasks : s.records.map TimingRecord.task ++ s.rest = schedule
  ordered : s.records.Pairwise EndsBefore
  forward : ∀ record ∈ s.records, record.startMs ≤ record.endMs
  past : ∀ record ∈ s.records, record.endMs ≤ s.offsetMs s.clock
  statuses : StatusAt s.records s.rest s.point
  verdict : s.buildStatus = .fail ↔ ∃ record ∈ s.records, record.status = .failed
  uncharted : (∀ how, s.point ≠ .afterLoop how) → s.chart = none
  charted : ∀ how, s.point = .afterLoop how →
    s.chart = if s.records = [] then none else some (taskTimingGantt s.records s.buildStatus)

variable {schedule : List DescribedTask} {s s' : BuildRun}

theorem kept_start (schedule : List DescribedTask) (now : ℚ) :
    (start schedule now).Kept schedule where
  clock := le_refl now
  tasks := rfl
  ordered := .nil
  forward := by simp [start]
  past := by simp [start]
  statuses := by simp [start, StatusAt]
  verdict := by simp [start]
  uncharted := fun _ => rfl
  charted := by simp [start]

theorem Kept.started (h : s.Kept schedule) {now : ℚ} (hstep : s.step (.started now) = some s') :
    s'.Kept schedule := by
  cases hpoint : s.point with
  | head =>
      cases hrest : s.rest with
      | nil => simp [step, hpoint, hrest] at hstep
      | cons task rest =>
          rw [step, hpoint, hrest] at hstep
          simp only [Option.ite_none_right_eq_some, Option.some.injEq] at hstep
          rcases hstep with ⟨hnow, rfl⟩
          have hpassed := h.statuses
          rw [hpoint] at hpassed
          have hlater := s.offsetMs_mono hnow
          have htasks := h.tasks
          have hverdict := h.verdict
          rw [hrest] at htasks
          refine ⟨h.clock.trans hnow, by simpa using htasks, ?_, ?_, ?_, ⟨_, _, rfl, rfl⟩, ?_,
            fun _ => h.uncharted (by simp [hpoint]), by simp⟩
          · rw [List.pairwise_append]
            refine ⟨h.ordered, List.pairwise_singleton _ _, fun first hfirst second hsecond => ?_⟩
            rw [List.mem_singleton.mp hsecond]
            exact ⟨hpassed first hfirst, (h.past first hfirst).trans hlater⟩
          · intro record hrecord
            rcases List.mem_append.mp hrecord with hold | hnew
            · exact h.forward record hold
            · rw [List.mem_singleton.mp hnew]
          · intro record hrecord
            rcases List.mem_append.mp hrecord with hold | hnew
            · exact (h.past record hold).trans hlater
            · rw [List.mem_singleton.mp hnew]
              exact le_refl _
          · simpa using hverdict
  | running => simp [step, hpoint] at hstep
  | leaving how => simp [step, hpoint] at hstep
  | afterLoop how => simp [step, hpoint] at hstep

/-- The end of the task that runs, as it is noted behind `task.run`. -/
theorem Kept.ended (h : s.Kept schedule) (hpoint : s.point = .running) {now : ℚ}
    (hnow : s.clock ≤ now) {status : RecordStatus} {buildStatus : BuildStatus} {point : BuildPoint}
    (hover : ∀ how, point ≠ .afterLoop how)
    (hverdict : buildStatus = .fail ↔ status = .failed)
    (hstatuses : ∀ init last, (∀ record ∈ init, record.status = .passed) → last.status = status →
      StatusAt (init ++ [last]) s.rest point) :
    Kept schedule { s with
      point := point
      clock := now
      records := setLast s.records fun record =>
        { record with endMs := s.offsetMs now, status := status }
      buildStatus := buildStatus } := by
  have hlast := h.statuses
  rw [hpoint] at hlast
  rcases hlast with ⟨init, last, hrecords, _⟩
  have hordered := h.ordered
  have htasks := h.tasks
  have hlater := s.offsetMs_mono hnow
  have hpast := h.past
  have hforward := h.forward
  rw [hrecords] at hordered htasks hpast hforward
  have hpassed : ∀ record ∈ init, record.status = .passed := fun record hrecord =>
    status_of_mem_init hordered hrecord
  have hend : last.startMs ≤ s.offsetMs now := by
    have hstart := hforward last (by simp)
    have hsofar := hpast last (by simp)
    omega
  rw [hrecords, setLast_append]
  refine ⟨h.clock.trans hnow, by simpa using htasks, pairwise_endsBefore_append hordered rfl, ?_,
    ?_, hstatuses init _ hpassed rfl, ?_, fun _ => h.uncharted (by simp [hpoint]),
    fun how heq => absurd heq (hover how)⟩
  · intro record hrecord
    rcases List.mem_append.mp hrecord with hinit | hlast
    · exact hforward record (List.mem_append_left _ hinit)
    · rw [List.mem_singleton.mp hlast]
      exact hend
  · intro record hrecord
    rcases List.mem_append.mp hrecord with hinit | hlast
    · exact (hpast record (List.mem_append_left _ hinit)).trans hlater
    · rw [List.mem_singleton.mp hlast]
      exact le_refl _
  · rw [hverdict]
    constructor
    · exact fun hfailed => ⟨_, List.mem_append_right _ (List.mem_singleton_self _), hfailed⟩
    · intro hexists
      rcases hexists with ⟨record, hrecord, hfailed⟩
      rcases List.mem_append.mp hrecord with hinit | hlast
      · rw [hpassed record hinit] at hfailed
        cases hfailed
      · rw [List.mem_singleton.mp hlast] at hfailed
        exact hfailed

/-- As long as a task runs nothing has failed. -/
theorem Kept.buildStatus_of_running (h : s.Kept schedule) (hpoint : s.point = .running) :
    s.buildStatus = .pass := by
  have hlast := h.statuses
  rw [hpoint] at hlast
  rcases hlast with ⟨init, last, hrecords, hrunning⟩
  have hordered := h.ordered
  rw [hrecords] at hordered
  cases hstatus : s.buildStatus with
  | pass => rfl
  | fail =>
      rcases h.verdict.mp hstatus with ⟨record, hrecord, hfailed⟩
      rw [hrecords] at hrecord
      rcases List.mem_append.mp hrecord with hinit | hlast
      · rw [status_of_mem_init hordered hinit] at hfailed
        cases hfailed
      · rw [List.mem_singleton.mp hlast, hrunning] at hfailed
        cases hfailed

theorem Kept.passed (h : s.Kept schedule) {now : ℚ} (hstep : s.step (.passed now) = some s') :
    s'.Kept schedule := by
  simp only [step, Option.ite_none_right_eq_some, Option.some.injEq] at hstep
  rcases hstep with ⟨⟨hpoint, hnow⟩, rfl⟩
  refine h.ended hpoint hnow (by simp) (by simp [h.buildStatus_of_running hpoint]) ?_
  intro init last hinit hlast record hrecord
  rcases List.mem_append.mp hrecord with hmem | hmem
  · exact hinit record hmem
  · rw [List.mem_singleton.mp hmem]
    exact hlast

theorem Kept.raised (h : s.Kept schedule) {now : ℚ} (hstep : s.step (.raised now) = some s') :
    s'.Kept schedule := by
  simp only [step, Option.ite_none_right_eq_some, Option.some.injEq] at hstep
  rcases hstep with ⟨⟨hpoint, hnow⟩, rfl⟩
  exact h.ended hpoint hnow (by simp) (by simp) fun init last _ hlast => ⟨init, last, rfl, hlast⟩

/-- In front of the `finally` only the point changes. -/
theorem Kept.moved (h : s.Kept schedule) (hs : ∀ how, s.point ≠ .afterLoop how) {point : BuildPoint}
    (hover : ∀ how, point ≠ .afterLoop how) (hstatuses : StatusAt s.records s.rest point) :
    Kept schedule { s with point := point } :=
  ⟨h.clock, h.tasks, h.ordered, h.forward, h.past, hstatuses, h.verdict,
    fun _ => h.uncharted hs, fun how heq => absurd heq (hover how)⟩

theorem Kept.interrupted (h : s.Kept schedule) (hstep : s.step .interrupted = some s') :
    s'.Kept schedule := by
  simp only [step, Option.ite_none_right_eq_some, Option.some.injEq] at hstep
  rcases hstep with ⟨hpoint, rfl⟩
  have hs : ∀ how, s.point ≠ .afterLoop how := by
    rcases hpoint with hpoint | hpoint <;> simp [hpoint]
  refine h.moved hs (by simp) fun record hrecord hfailed => ?_
  have hstatuses := h.statuses
  rcases hpoint with hpoint | hpoint
  · rw [hpoint] at hstatuses
    rw [hstatuses record hrecord] at hfailed
    cases hfailed
  · have hfail := h.verdict.mpr ⟨record, hrecord, hfailed⟩
    rw [h.buildStatus_of_running hpoint] at hfail
    cases hfail

theorem Kept.finished (h : s.Kept schedule) (hstep : s.step .finished = some s') :
    s'.Kept schedule := by
  simp only [step, Option.ite_none_right_eq_some, Option.some.injEq] at hstep
  rcases hstep with ⟨⟨hpoint, hrest⟩, rfl⟩
  have hstatuses := h.statuses
  rw [hpoint] at hstatuses
  exact h.moved (by simp [hpoint]) (by simp) ⟨hrest, hstatuses⟩

/-- What the `finally` makes of the status of the records. -/
theorem StatusAt.closed {records : List TimingRecord} {rest : List DescribedTask} {how : LoopEnd}
    (ms : ℕ) (h : StatusAt records rest (.leaving how)) :
    StatusAt (records.map (closeRecord ms)) rest (.afterLoop how) := by
  cases how with
  | completed =>
      refine ⟨h.1, fun record hrecord => ?_⟩
      rcases List.mem_map.mp hrecord with ⟨old, hold, rfl⟩
      have hpassed := h.2 old hold
      rw [closeRecord_of_ne (by simp [hpassed])]
      exact hpassed
  | exited =>
      rcases h with ⟨init, last, rfl, hfailed⟩
      refine ⟨init.map (closeRecord ms), last, ?_, hfailed⟩
      rw [List.map_append, List.map_singleton, closeRecord_of_ne (by simp [hfailed])]
  | interrupted =>
      intro record hrecord
      rcases List.mem_map.mp hrecord with ⟨old, _, rfl⟩
      exact closeRecord_status_ne ms old

/-- The title says `fail` if and only if a bar says so. -/
theorem verdict_closed {records : List TimingRecord} {status : BuildStatus} (ms : ℕ)
    (h : status = .fail → ∃ record ∈ records, record.status = .failed) :
    (if (records.map (closeRecord ms)).any (·.status = .failed) then .fail else status) =
        BuildStatus.fail ↔
      ∃ record ∈ records.map (closeRecord ms), record.status = .failed := by
  have hany : (records.map (closeRecord ms)).any (·.status = .failed) = true ↔
      ∃ record ∈ records.map (closeRecord ms), record.status = .failed := by
    simp only [List.any_eq_true, decide_eq_true_eq]
  split
  · rename_i hfailed
    exact iff_of_true rfl (hany.mp hfailed)
  · rename_i hnone
    refine iff_of_false (fun hstatus => hnone (hany.mpr ?_)) fun hexists => hnone (hany.mpr hexists)
    rcases h hstatus with ⟨record, hrecord, hfailed⟩
    refine ⟨_, List.mem_map_of_mem hrecord, ?_⟩
    rw [closeRecord_of_ne (by simp [hfailed])]
    exact hfailed

theorem Kept.written (h : s.Kept schedule) {now : ℚ} (hstep : s.step (.written now) = some s') :
    s'.Kept schedule := by
  cases hpoint : s.point with
  | head => simp [step, hpoint] at hstep
  | running => simp [step, hpoint] at hstep
  | afterLoop how => simp [step, hpoint] at hstep
  | leaving how =>
      rw [step, hpoint] at hstep
      simp only [Option.ite_none_right_eq_some, Option.some.injEq] at hstep
      rcases hstep with ⟨hnow, rfl⟩
      have hlater := s.offsetMs_mono hnow
      have hstatuses := h.statuses
      rw [hpoint] at hstatuses
      have hclosed := hstatuses.closed (s.offsetMs now)
      unfold runFinally
      split
      · rename_i hnone
        have hrest : StatusAt s.records s.rest (.afterLoop how) := by
          rw [hnone] at hclosed ⊢
          exact hclosed
        refine ⟨h.clock.trans hnow, h.tasks, h.ordered, h.forward, ?_, hrest, h.verdict,
          fun hover => absurd rfl (hover how), ?_⟩
        · exact fun record hrecord => (h.past record hrecord).trans hlater
        · intro _ _
          rw [if_pos hnone]
          exact h.uncharted (by simp [hpoint])
      · rename_i hsome
        refine ⟨h.clock.trans hnow, ?_, ?_, ?_, ?_, hclosed, ?_,
          fun hover => absurd rfl (hover how), ?_⟩
        · simpa [Function.comp_def] using h.tasks
        · rw [List.pairwise_map]
          refine h.ordered.imp fun {first second} hbefore => ?_
          rw [EndsBefore, closeRecord_of_ne (by simp [hbefore.1]), closeRecord_startMs]
          exact hbefore
        · intro record hrecord
          rcases List.mem_map.mp hrecord with ⟨old, hold, rfl⟩
          have hforward := h.forward old hold
          have hpast := h.past old hold
          rw [closeRecord_startMs]
          rcases closeRecord_endMs_cases (s.offsetMs now) old with heq | heq <;> omega
        · intro record hrecord
          rcases List.mem_map.mp hrecord with ⟨old, hold, rfl⟩
          have hpast := (h.past old hold).trans hlater
          change (closeRecord (s.offsetMs now) old).endMs ≤ s.offsetMs now
          rcases closeRecord_endMs_cases (s.offsetMs now) old with heq | heq <;> omega
        · exact verdict_closed (s.offsetMs now) h.verdict.mp
        · intro _ _
          rw [if_neg (by simpa using hsome)]

theorem Kept.step {event : BuildEvent} (h : s.Kept schedule) (hstep : s.step event = some s') :
    s'.Kept schedule := by
  cases event with
  | started now => exact h.started hstep
  | passed now => exact h.passed hstep
  | raised now => exact h.raised hstep
  | interrupted => exact h.interrupted hstep
  | finished => exact h.finished hstep
  | written now => exact h.written hstep

/-- Whatever happens to the build, the records stay those of one task after the other. -/
theorem kept_of_run {now : ℚ} {events : List BuildEvent}
    (hrun : Runs.run BuildRun.step (start schedule now) events = some s) : s.Kept schedule :=
  Runs.invariant (Kept schedule) (fun _ _ _ h hstep => Kept.step h hstep) hrun
    (kept_start schedule now)

/-- Behind the `finally` no task is left as if it were running. -/
theorem Kept.status_ne_running (h : s.Kept schedule) {how : LoopEnd} (hover : s.point = .afterLoop how) :
    ∀ record ∈ s.records, record.status ≠ .running := by
  intro record hrecord
  have hordered := h.ordered
  have hstatuses := h.statuses
  rw [hover] at hstatuses
  cases how with
  | completed => simp [hstatuses.2 record hrecord]
  | interrupted => exact hstatuses record hrecord
  | exited =>
      rcases hstatuses with ⟨init, last, hrecords, hfailed⟩
      rw [hrecords] at hordered hrecord
      rcases List.mem_append.mp hrecord with hinit | hlast
      · simp [status_of_mem_init hordered hinit]
      · simp [List.mem_singleton.mp hlast, hfailed]

end BuildRun

/-! ## The order of the build -/

/-- A task with the number that its place in the schedule gives it. -/
def scheduled (ids : List ℕ) (task : Task) : Task := { task with id := ids.idxOf task.id + 1 }

/-- The task has passed by that time. -/
def PassedBy (records : List TimingRecord) (task : Task) (ms : ℕ) : Prop :=
  ∃ record ∈ records, record.task.toTask = task ∧ record.status = .passed ∧ record.endMs ≤ ms

/-- The tasks in front of a started one have passed when it starts. -/
theorem BuildRun.Kept.passedBy {schedule : List DescribedTask} {s : BuildRun}
    (h : s.Kept schedule) {i j : ℕ} (hij : i < j) {record : TimingRecord}
    (hrecord : s.records[j]? = some record) {task : DescribedTask}
    (htask : schedule[i]? = some task) : PassedBy s.records task.toTask record.startMs := by
  rcases List.getElem?_eq_some_iff.mp hrecord with ⟨hj, rfl⟩
  have hi : i < s.records.length := hij.trans hj
  have hbefore : EndsBefore s.records[i] s.records[j] := List.pairwise_iff_getElem.mp h.ordered i j hi hj hij
  have heq : s.records[i].task = task := by
    rw [← h.tasks, List.getElem?_append_left (by simpa using hi)] at htask
    simpa [hi] using htask
  exact ⟨s.records[i], List.getElem_mem hi, by rw [heq], hbefore⟩

theorem Sorted.getElem?_id {nx : SimpleCycles} {fuel : ℕ} {tasks result reordered : List Task}
    {g : TaskGraph} {gens : List (List ℕ)} {ids : List ℕ}
    (h : Sorted nx fuel tasks result g gens ids reordered) {i : ℕ} {task : Task}
    (htask : result[i]? = some task) : task.id = i + 1 := by
  rcases List.getElem?_eq_some_iff.mp htask with ⟨hi, rfl⟩
  have hid : (result.map Task.id)[i]? = some result[i].id := by simp [hi]
  have hlen : i < tasks.length := by
    have hmap := congrArg List.length h.map_id
    simp only [List.length_map, List.length_range'] at hmap
    omega
  rw [h.map_id, List.getElem?_range' hlen, Option.some.injEq] at hid
  omega

theorem Sorted.getElem?_scheduled {nx : SimpleCycles} {fuel : ℕ} {tasks result reordered : List Task}
    {g : TaskGraph} {gens : List (List ℕ)} {ids : List ℕ}
    (h : Sorted nx fuel tasks result g gens ids reordered) {task : Task}
    (htask : task ∈ number tasks) : result[ids.idxOf task.id]? = some (scheduled ids task) := by
  have hmem : scheduled ids task ∈ result := h.mem_result_iff.mpr ⟨task, htask, rfl⟩
  rcases List.mem_iff_getElem?.mp hmem with ⟨i, hi⟩
  have hid : ids.idxOf task.id + 1 = i + 1 := h.getElem?_id hi
  rwa [Nat.succ.inj hid]

/-- A started task has its place in the schedule for a number. -/
theorem BuildRun.Kept.id_of_getElem? {nx : SimpleCycles} {fuel : ℕ}
    {tasks result reordered : List Task} {g : TaskGraph} {gens : List (List ℕ)} {ids : List ℕ}
    {schedule : List DescribedTask} {s : BuildRun} (h : s.Kept schedule)
    (hsorted : Sorted nx fuel tasks result g gens ids reordered)
    (hschedule : schedule.map DescribedTask.toTask = result) {j : ℕ} {record : TimingRecord}
    (hj : s.records[j]? = some record) : record.task.id = j + 1 := by
  have hentry : schedule[j]? = some record.task := by
    rw [← h.tasks, List.getElem?_append_left, List.getElem?_map, hj]
    · rfl
    · rw [List.length_map]
      exact (List.getElem?_eq_some_iff.mp hj).1
  apply hsorted.getElem?_id
  rw [← hschedule, List.getElem?_map, hentry]
  rfl

/-- Whatever happens to a build of the sorted tasks, the tasks that were started are the first ones
of the schedule, and a task was started only after all had passed that declared dependencies and
automatic edges put in front of it. -/
theorem build_starts_behind_taskEdges {nx : SimpleCycles} {fuel : ℕ} {tasks result : List Task}
    (hsort : sort nx fuel tasks = .returned result) {schedule : List DescribedTask}
    (hschedule : schedule.map DescribedTask.toTask = result) {now : ℚ} {events : List BuildEvent}
    {s : BuildRun} (hrun : Runs.run BuildRun.step (.start schedule now) events = some s) :
    ∃ ids, sortedIds nx fuel tasks = .returned ids ∧
      s.records.map TimingRecord.task <+: schedule ∧
      ∀ source ∈ number tasks, ∀ target ∈ number tasks,
        TransGen (TaskEdge tasks) source.id target.id → ∀ record ∈ s.records,
          record.task.toTask = scheduled ids target →
            PassedBy s.records (scheduled ids source) record.startMs := by
  rcases sort_eq_returned hsort with ⟨g, gens, ids, reordered, hsorted⟩
  have hkept := BuildRun.kept_of_run hrun
  refine ⟨ids, hsorted.sortedIds, ⟨s.rest, hkept.tasks⟩, ?_⟩
  intro source hsource target htarget hpath record hrecord heq
  have hlt : ids.idxOf source.id < ids.idxOf target.id := hsorted.path_forward hpath
  have hplace := hsorted.getElem?_scheduled hsource
  rw [← hschedule, List.getElem?_map] at hplace
  rcases Option.map_eq_some_iff.mp hplace with ⟨task, htask, hscheduled⟩
  rcases List.mem_iff_getElem?.mp hrecord with ⟨j, hj⟩
  have hid := hkept.id_of_getElem? hsorted hschedule hj
  have hj' : ids.idxOf target.id = j := by
    rw [heq] at hid
    exact Nat.succ.inj hid
  rw [← hscheduled]
  exact hkept.passedBy (hlt.trans_eq hj') hj htask

/-- `librarySchedule` with a text for each task. -/
def libraryBuild : List DescribedTask :=
  librarySchedule.map fun task => { task with description := "Run " ++ task.cmd }

/-- The library cannot be fetched in this build. -/
def failedLibraryBuild : List BuildEvent :=
  [.started 0, .passed (1 / 2), .started (1 / 2), .raised 2, .written 3]

theorem exists_run_failedLibraryBuild :
    ∃ s, Runs.run BuildRun.step (.start libraryBuild 0) failedLibraryBuild = some s :=
  Option.isSome_iff_exists.mp (by decide +kernel)

theorem build_starts_behind_taskEdges_failedLibraryBuild :
    ∃ s, Runs.run BuildRun.step (.start libraryBuild 0) failedLibraryBuild = some s ∧
      ∃ ids, sortedIds wholeGraphCycles 20 libraryTasks = .returned ids ∧
        s.records.map TimingRecord.task <+: libraryBuild ∧
        ∀ source ∈ number libraryTasks, ∀ target ∈ number libraryTasks,
          TransGen (TaskEdge libraryTasks) source.id target.id → ∀ record ∈ s.records,
            record.task.toTask = scheduled ids target →
              PassedBy s.records (scheduled ids source) record.startMs := by
  rcases exists_run_failedLibraryBuild with ⟨s, hrun⟩
  exact ⟨s, hrun, build_starts_behind_taskEdges sort_libraryTasks (by decide +kernel) hrun⟩

end DistroSeed
