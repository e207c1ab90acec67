import DistroSeed.Verification.Build.Mermaid

/-! The chart of `work/tasks-timing.mmd`: what a reader gets back of the records that a build has
left. A bar has its text in front of the first colon of its line. -/

namespace DistroSeed

open Escaping Numerals Readers

/-! ## A reader -/

/-- A bar of the chart. -/
structure GanttBar where
  index : ℕ
  label : String
  failed : Bool
  startMs : ℕ
  endMs : ℕ
deriving DecidableEq, Repr

/-- The bar of a record. -/
def TimingRecord.bar (i : ℕ) (record : TimingRecord) : GanttBar :=
  ⟨i, record.label, record.status = .failed, record.startMs, record.barEnd⟩

def readOffsetMs (text : List Char) : Option (ℕ × List Char) := do
  let (hours, text) ← readNat text
  let text ← text.dropPrefix? ":".toList
  let (minutes, text) ← readNat text
  let text ← text.dropPrefix? ":".toList
  let (seconds, text) ← readNat text
  let text ← text.dropPrefix? ".".toList
  let (millis, text) ← readNat text
  pure (((hours * 60 + minutes) * 60 + seconds) * 1000 + millis, text)

def readState (text : List Char) : Option (Bool × List Char) :=
  match text.dropPrefix? "crit, t".toList with
  | some text => some (true, text)
  | none => (text.dropPrefix? "done, t".toList).map fun text => (false, text)

/-- What stands behind the colon of a bar. -/
def readBarData (label : List Char) (text : List Char) : Option GanttBar := do
  let (failed, text) ← readState text
  let (index, text) ← readNat text
  let text ← text.dropPrefix? ", ".toList
  let (startMs, text) ← readOffsetMs text
  let text ← text.dropPrefix? ", ".toList
  let (endMs, text) ← readOffsetMs text
  if text = [] then some ⟨index, String.ofList label, failed, startMs, endMs⟩ else none

/-- The blank in front of the colon is no part of the text. -/
def readBar (line : List Char) : Option GanttBar := do
  let line ← line.dropPrefix? "    ".toList
  let (label, line) ← mermaidEscaping.readUntil ':' line
  if label.getLast? = some ' ' then readBarData label.dropLast line else none

def readTitle (title : List Char) : Option BuildStatus := do
  let title ← title.dropPrefix? "    title distro-seed task timings (".toList
  if title = "pass)".toList then some .pass
  else if title = "fail)".toList then some .fail
  else none

/-- The status in the title, and the bars. -/
def readGantt (text : String) : Option (BuildStatus × List GanttBar) :=
  match text.toList.splitOn '\n' with
  | _ :: title :: _ :: _ :: _ :: lines => do
      let status ← readTitle title
      let bars ← lines.dropLast.mapM readBar
      pure (status, bars)
  | _ => none

/-! ## Reading a bar -/

theorem toList_zeroPadded (width n : ℕ) : (zeroPadded width n).toList = padded width n := by
  rw [zeroPadded, String.toList_ofList]

theorem readOffsetMs_formatOffsetMs (ms : ℕ) {rest : List Char} (h : ∀ c ∈ rest.head?, ¬ c.isDigit) :
    readOffsetMs ((formatOffsetMs ms).toList ++ rest) = some (ms, rest) := by
  have htext : (formatOffsetMs ms).toList ++ rest =
      padded 2 (ms / (60 * 60 * 1000)) ++ (":".toList ++
        (padded 2 (ms % (60 * 60 * 1000) / (60 * 1000)) ++ (":".toList ++
          (padded 2 (ms % (60 * 60 * 1000) % (60 * 1000) / 1000) ++ (".".toList ++
            (padded 3 (ms % (60 * 60 * 1000) % (60 * 1000) % 1000) ++ rest)))))) := by
    simp only [formatOffsetMs, String.toList_append, toList_zeroPadded, List.append_assoc]
  have hms : ((ms / (60 * 60 * 1000) * 60 + ms % (60 * 60 * 1000) / (60 * 1000)) * 60 +
      ms % (60 * 60 * 1000) % (60 * 1000) / 1000) * 1000 +
        ms % (60 * 60 * 1000) % (60 * 1000) % 1000 = ms := by
    omega
  have hcolon (text : List Char) : ∀ c ∈ (":".toList ++ text).head?, ¬ c.isDigit := by
    simp
  have hdot (text : List Char) : ∀ c ∈ (".".toList ++ text).head?, ¬ c.isDigit := by
    simp
  rw [htext]
  simp only [readOffsetMs, readNat_padded _ _ (hcolon _), readNat_padded _ _ (hdot _),
    readNat_padded _ _ h, dropPrefix?_append, Option.bind_eq_bind, Option.bind_some, Option.pure_def,
    hms]

/-- What `write_task_timing_gantt` writes behind the colon. -/
def barData (i : ℕ) (record : TimingRecord) : List Char :=
  record.state.toList ++ (", t".toList ++ (Nat.toDigits 10 i ++ (", ".toList ++
    ((formatOffsetMs record.startMs).toList ++ (", ".toList ++
      (formatOffsetMs record.barEnd).toList)))))

theorem toList_barLine (i : ℕ) (record : TimingRecord) :
    (barLine i record).toList = "    ".toList ++
      (mermaidEscaping.escape (record.label.toList ++ [' ']) ++ ':' :: barData i record) := by
  have hblank : mermaidEscaping.escape [' '] = [' '] := rfl
  simp only [barLine, barData, String.toList_append, toList_toString, toList_escapeMermaid,
    escape_append, hblank, List.append_assoc]
  rfl

theorem readState_state (record : TimingRecord) (rest : List Char) :
    readState (record.state.toList ++ (", t".toList ++ rest)) =
      some (decide (record.status = .failed), rest) := by
  by_cases hfailed : record.status = .failed
  · have hstate : record.state.toList ++ (", t".toList ++ rest) = "crit, t".toList ++ rest := by
      simp [TimingRecord.state, hfailed]
    rw [hstate, readState, dropPrefix?_append, decide_eq_true hfailed]
  · have hstate : record.state.toList ++ (", t".toList ++ rest) = "done, t".toList ++ rest := by
      simp [TimingRecord.state, hfailed]
    have hcrit : ("done, t".toList ++ rest).dropPrefix? "crit, t".toList = none := rfl
    rw [hstate, readState, hcrit, dropPrefix?_append, decide_eq_false hfailed]
    rfl

theorem readBarData_barData (label : List Char) (i : ℕ) (record : TimingRecord) :
    readBarData label (barData i record) =
      some { record.bar i with label := String.ofList label } := by
  have hcomma (text : List Char) : ∀ c ∈ (", ".toList ++ text).head?, ¬ c.isDigit := by
    simp
  have hnone : ∀ c ∈ ([] : List Char).head?, ¬ c.isDigit := by simp
  have hend := readOffsetMs_formatOffsetMs record.barEnd hnone
  rw [List.append_nil] at hend
  rw [readBarData, barData, readState_state]
  simp only [Option.bind_eq_bind, Option.bind_some, readNat_toDigits _ (hcomma _),
    dropPrefix?_append, readOffsetMs_formatOffsetMs _ (hcomma _), hend, if_true]
  rfl

/-- The text of a bar comes back up to its first colon. -/
theorem readBar_barLine (i : ℕ) (record : TimingRecord) (h : ':' ∉ record.label.toList) :
    readBar (barLine i record).toList = some (record.bar i) := by
  have hcolon : ':' ∉ record.label.toList ++ [' '] := by
    simp [h]
  have hread := readUntil_escape (e := mermaidEscaping) (by decide)
    (fun hmem => absurd hmem hcolon) (barData i record)
  rw [toList_barLine, readBar, dropPrefix?_append]
  simp only [Option.bind_eq_bind, Option.bind_some, hread, List.getLast?_concat, if_true,
    List.dropLast_concat]
  rw [readBarData_barData, String.ofList_toList]
  rfl

theorem label_of_readBarData {label text : List Char} {bar : GanttBar}
    (h : readBarData label text = some bar) : bar.label = String.ofList label := by
  simp only [readBarData, Option.bind_eq_bind, Option.bind_eq_some_iff,
    Option.ite_none_right_eq_some, Option.some.injEq] at h
  rcases h with ⟨_, _, _, _, _, _, _, _, _, _, _, _, _, rfl⟩
  rfl

/-- With a colon in its text, a bar comes back with less text, if at all. -/
theorem readBar_barLine_ne (i : ℕ) (record : TimingRecord) (h : ':' ∈ record.label.toList) :
    readBar (barLine i record).toList ≠ some (record.bar i) := by
  rcases List.eq_append_cons_of_mem h with ⟨before, after, hlabel, hbefore⟩
  have hread := readUntil_escape_append (e := mermaidEscaping) (by decide) rfl hbefore
    (after ++ [' ']) (':' :: barData i record)
  intro hbar
  rw [toList_barLine, readBar, dropPrefix?_append, hlabel, List.append_assoc,
    List.cons_append] at hbar
  simp only [Option.bind_eq_bind, Option.bind_some, hread, Option.ite_none_right_eq_some] at hbar
  have hshort : record.label = String.ofList before.dropLast := label_of_readBarData hbar.2
  have hlength := congrArg List.length hlabel
  rw [hshort, String.toList_ofList, List.length_dropLast, List.length_append,
    List.length_cons] at hlength
  omega

/-! ## The whole chart -/

theorem newline_notMem_formatOffsetMs (ms : ℕ) : '\n' ∉ (formatOffsetMs ms).toList := by
  have hpadded (width n : ℕ) : '\n' ∉ padded width n := by
    intro h
    exact absurd (isDigit_of_mem_padded _ h) (by decide)
  simp only [formatOffsetMs, String.toList_append, toList_zeroPadded, List.mem_append, not_or]
  exact ⟨⟨⟨⟨⟨⟨hpadded 2 _, by decide⟩, hpadded 2 _⟩, by decide⟩, hpadded 2 _⟩, by decide⟩,
    hpadded 3 _⟩

theorem newline_notMem_barLine (i : ℕ) (record : TimingRecord) :
    '\n' ∉ (barLine i record).toList := by
  have hstate : '\n' ∉ record.state.toList := by
    unfold TimingRecord.state
    split <;> decide
  simp only [barLine, String.toList_append, List.mem_append, not_or]
  exact ⟨⟨⟨⟨⟨⟨⟨⟨⟨by decide, newline_notMem_escapeMermaid _⟩, by decide⟩, hstate⟩, by decide⟩,
    newline_notMem_toString i⟩, by decide⟩, newline_notMem_formatOffsetMs _⟩, by decide⟩,
    newline_notMem_formatOffsetMs _⟩

/-- The lines of the bars. -/
def barLines (records : List TimingRecord) : List String :=
  records.mapIdx fun i record => barLine (i + 1) record

theorem readTitle_title (status : BuildStatus) :
    readTitle ("    title distro-seed task timings (" ++ status.name ++ ")").toList =
      some status := by
  cases status <;> decide

/-- The first lines of the chart. -/
def chartHead (status : BuildStatus) : List String :=
  ["gantt", "    title distro-seed task timings (" ++ status.name ++ ")",
    "    dateFormat HH:mm:ss.SSS", "    axisFormat %H:%M:%S.%L", "    section Tasks"]

theorem newline_notMem_chartHead (status : BuildStatus) :
    ∀ line ∈ chartHead status, '\n' ∉ line.toList := by
  cases status <;> decide

theorem splitOn_taskTimingGantt (records : List TimingRecord) (status : BuildStatus) :
    (taskTimingGantt records status).toList.splitOn '\n' =
      (chartHead status ++ barLines records).map String.toList ++ [[]] := by
  have hlines : ∀ line ∈ (chartHead status ++ barLines records).map String.toList, '\n' ∉ line := by
    intro line hline
    rcases List.mem_map.mp hline with ⟨text, htext, rfl⟩
    rcases List.mem_append.mp htext with htext | htext
    · exact newline_notMem_chartHead status text htext
    · rcases List.mem_mapIdx.mp htext with ⟨i, hi, rfl⟩
      exact newline_notMem_barLine _ _
  have htext : (taskTimingGantt records status).toList =
      ['\n'].intercalate ((chartHead status ++ barLines records).map String.toList) ++ ['\n'] := by
    simp only [taskTimingGantt, String.toList_append, String.toList_intercalate]
    rfl
  rw [htext, List.splitOn_append_cons_self, List.splitOn_nil,
    List.splitOn_intercalate '\n' hlines (by simp [chartHead])]

/-- The chart as a reader takes it apart. -/
theorem readGantt_eq (records : List TimingRecord) (status : BuildStatus) :
    readGantt (taskTimingGantt records status) =
      (((barLines records).map String.toList).mapM readBar).map fun bars => (status, bars) := by
  rw [readGantt, splitOn_taskTimingGantt]
  simp only [chartHead, List.map_cons, List.cons_append, List.nil_append, readTitle_title,
    List.dropLast_concat, Option.bind_eq_bind, Option.bind_some]
  cases ((barLines records).map String.toList).mapM readBar <;> rfl

/-- The chart tells its status and its bars if and only if no bar has a colon in its text. -/
theorem readGantt_taskTimingGantt_iff (records : List TimingRecord) (status : BuildStatus) :
    readGantt (taskTimingGantt records status) =
        some (status, records.mapIdx fun i record => record.bar (i + 1)) ↔
      ∀ record ∈ records, ':' ∉ record.label.toList := by
  rw [readGantt_eq]
  constructor
  · intro h record hrecord hcolon
    rcases Option.map_eq_some_iff.mp h with ⟨bars, hbars, heq⟩
    obtain rfl : bars = _ := (Prod.mk.inj heq).2
    rcases List.mem_iff_getElem?.mp hrecord with ⟨i, hi⟩
    have hbar := getElem?_of_mapM_eq_some hbars i
    simp only [barLines, List.getElem?_map, List.getElem?_mapIdx, hi, Option.map_some,
      Option.bind_some] at hbar
    exact readBar_barLine_ne (i + 1) record hcolon hbar.symm
  · intro h
    have hlines : ((barLines records).map String.toList).mapM readBar =
        some (records.mapIdx fun i record => record.bar (i + 1)) := by
      rw [barLines, List.mapM_map]
      exact mapM_mapIdx_eq_some fun i record hrecord =>
        readBar_barLine (i + 1) record (h record hrecord)
    rw [hlines]
    rfl

/-! ## The chart of a build -/

/-- The chart that a build leaves behind, completed or not, has a bar for each task that was started,
says `fail` if and only if one has failed, and can be read back if and only if no bar has a colon in
its text. A build that was completed has a bar for every task, and says `pass`. -/
theorem chart_of_build {schedule : List DescribedTask} {now : ℚ} {events : List BuildEvent}
    {s : BuildRun} (hrun : Runs.run BuildRun.step (.start schedule now) events = some s)
    {how : LoopEnd} (hover : s.point = .afterLoop how) (hstarted : s.records ≠ []) :
    ∃ chart, s.chart = some chart ∧
      (readGantt chart =
          some (s.buildStatus, s.records.mapIdx fun i record => record.bar (i + 1)) ↔
        ∀ record ∈ s.records, ':' ∉ record.label.toList) ∧
      (∀ record ∈ s.records, record.status ≠ .running) ∧
      (s.buildStatus = .fail ↔ ∃ record ∈ s.records, record.status = .failed) ∧
      (how = .completed → s.records.map TimingRecord.task = schedule ∧ s.buildStatus = .pass) := by
  have hkept := BuildRun.kept_of_run hrun
  have hchart := hkept.charted how hover
  rw [if_neg hstarted] at hchart
  refine ⟨_, hchart, readGantt_taskTimingGantt_iff s.records s.buildStatus,
    hkept.status_ne_running hover, hkept.verdict, ?_⟩
  rintro rfl
  have hstatuses := hkept.statuses
  rw [hover] at hstatuses
  rcases hstatuses with ⟨hrest, hpassed⟩
  constructor
  · rw [← hkept.tasks, hrest, List.append_nil]
  · cases hstatus : s.buildStatus with
    | pass => rfl
    | fail =>
        rcases hkept.verdict.mp hstatus with ⟨record, hrecord, hfailed⟩
        rw [hpassed record hrecord] at hfailed
        cases hfailed

theorem chart_of_build_failedLibraryBuild :
    ∃ s chart, Runs.run BuildRun.step (.start libraryBuild 0) failedLibraryBuild = some s ∧
      s.chart = some chart ∧
      (readGantt chart =
          some (s.buildStatus, s.records.mapIdx fun i record => record.bar (i + 1)) ↔
        ∀ record ∈ s.records, ':' ∉ record.label.toList) ∧
      (∀ record ∈ s.records, record.status ≠ .running) ∧
      (s.buildStatus = .fail ↔ ∃ record ∈ s.records, record.status = .failed) := by
  rcases exists_run_failedLibraryBuild with ⟨s, hrun⟩
  have hover : s.point = .afterLoop .exited := by
    have hpoint : (Runs.run BuildRun.step (.start libraryBuild 0) failedLibraryBuild).map
        BuildRun.point = some (.afterLoop .exited) := by
      decide +kernel
    rw [hrun] at hpoint
    exact Option.some.inj hpoint
  have hstarted : s.records ≠ [] := by
    have hlength : (Runs.run BuildRun.step (.start libraryBuild 0) failedLibraryBuild).map
        (fun s => s.records.length) = some 2 := by
      decide +kernel
    rw [hrun, Option.map_some, Option.some.injEq] at hlength
    intro hnil
    simp [hnil] at hlength
  rcases chart_of_build hrun hover hstarted with ⟨chart, hchart, hread, hrunning, hverdict, _⟩
  exact ⟨s, chart, hrun, hchart, hread, hrunning, hverdict⟩

end DistroSeed
