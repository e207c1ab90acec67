import DistroSeed.Library.Escapes
import DistroSeed.Library.Numerals
import DistroSeed.Library.Readers
import DistroSeed.Verification.Build.Loop
import DistroSeed.Verification.Scheduler.Published

/-! The text of `work/tasks.mmd`: a reader gets back the numbers, the labels and the edges that
`write_tasks_mmd` has put into it. -/

namespace DistroSeed

open Escaping Numerals Readers

/-! ## The escaping -/

/-- What `_escape_mermaid` writes behind a backslash. -/
def mermaidEscaping : Escaping Char where
  mark := '\\'
  code c := if c = '\\' then some '\\' else if c = '"' then some '"'
    else if c = '\n' then some 'n' else none
  decode d := if d = '\\' then some '\\' else if d = '"' then some '"'
    else if d = 'n' then some '\n' else none
  decode_code := by
    intro c d h
    split_ifs at h with hmark hquote hnewline
    · rw [← Option.some.inj h, hmark]
      rfl
    · rw [← Option.some.inj h, hquote]
      rfl
    · rw [← Option.some.inj h, hnewline]
      rfl
  isSome_code_mark := rfl

theorem toList_escapeMermaid (text : String) :
    (escapeMermaid text).toList = mermaidEscaping.escape text.toList := by
  rw [escapeMermaid, String.toList_ofList, escape]
  congr 1
  funext c
  simp only [mermaidEscaping]
  split_ifs <;> simp_all

/-- An escaped text is one line. -/
theorem newline_notMem_escapeMermaid (text : String) : '\n' ∉ (escapeMermaid text).toList := by
  rw [toList_escapeMermaid]
  refine notMem_escape rfl (by decide) (fun d hd => ?_) text.toList
  simp only [mermaidEscaping] at hd
  split_ifs at hd <;> cases hd

/-! ## Reading a line -/

/-- A node with its label, or an edge. -/
inductive FlowchartLine where
  | node (id : ℕ) (label : String)
  | edge (edge : Edge ℕ EdgeLabel)
deriving DecidableEq, Repr

def readNode (id : ℕ) (text : List Char) : Option FlowchartLine := do
  let text ← text.dropPrefix? "[\"".toList
  let (label, text) ← mermaidEscaping.readUntil '"' text
  if text = "]".toList then some (.node id (String.ofList label)) else none

def readEdge (src : ℕ) (label : EdgeLabel) (text : List Char) : Option FlowchartLine := do
  let (dst, text) ← readNat text
  if text = [] then some (.edge ⟨src, dst, label⟩) else none

def readLine (line : List Char) : Option FlowchartLine := do
  let line ← line.dropPrefix? "    T".toList
  let (id, line) ← readNat line
  match line.dropPrefix? " --> T".toList, line.dropPrefix? " -.-> T".toList with
  | some line, _ => readEdge id .declared line
  | none, some line => readEdge id .autoAddedDep line
  | none, none => readNode id line

/-- The lines of a flowchart, behind the first one. -/
def readFlowchart (text : String) : Option (List FlowchartLine) :=
  match text.toList.splitOn '\n' with
  | first :: lines => if first = "flowchart TB".toList then lines.mapM readLine else none
  | [] => none

theorem toList_toString (n : ℕ) : (toString n).toList = Nat.toDigits 10 n := Nat.toList_repr

theorem readNode_label (id : ℕ) (label : String) :
    readNode id ("[\"".toList ++ ((escapeMermaid label).toList ++ "\"]".toList)) =
      some (.node id label) := by
  have hread : mermaidEscaping.readUntil '"' ((escapeMermaid label).toList ++ "\"]".toList) =
      some (label.toList, "]".toList) := by
    rw [toList_escapeMermaid]
    exact readUntil_escape (by decide) (fun _ => rfl) "]".toList
  rw [readNode, dropPrefix?_append, Option.bind_eq_bind, Option.bind_some, hread]
  simp only [Option.bind_eq_bind, Option.bind_some, if_true, String.ofList_toList]

theorem readLine_nodeLine (task : Task) :
    readLine (nodeLine task).toList = some (.node task.id (taskLabel task)) := by
  have hline : (nodeLine task).toList = "    T".toList ++ (Nat.toDigits 10 task.id ++
      ("[\"".toList ++ ((escapeMermaid (taskLabel task)).toList ++ "\"]".toList))) := by
    simp only [nodeLine, String.toList_append, toList_toString, List.append_assoc]
  have hsolid : ("[\"".toList ++ ((escapeMermaid (taskLabel task)).toList ++ "\"]".toList)).dropPrefix?
      " --> T".toList = none := rfl
  have hdotted : ("[\"".toList ++ ((escapeMermaid (taskLabel task)).toList ++ "\"]".toList)).dropPrefix?
      " -.-> T".toList = none := rfl
  rw [hline, readLine, dropPrefix?_append, Option.bind_eq_bind, Option.bind_some,
    readNat_toDigits task.id (by simp)]
  simp only [Option.bind_eq_bind, Option.bind_some, hsolid, hdotted]
  exact readNode_label task.id (taskLabel task)

theorem readEdge_dst (src dst : ℕ) (label : EdgeLabel) :
    readEdge src label (Nat.toDigits 10 dst) = some (.edge ⟨src, dst, label⟩) := by
  have hnone : ∀ c ∈ ([] : List Char).head?, ¬ c.isDigit := by simp
  have hread := readNat_toDigits dst hnone
  rw [List.append_nil] at hread
  simp [readEdge, hread]

theorem readLine_edgeLine (edge : Edge ℕ EdgeLabel) :
    readLine (edgeLine edge).toList = some (.edge edge) := by
  cases hlabel : edge.label with
  | declared =>
      have hline : (edgeLine edge).toList = "    T".toList ++ (Nat.toDigits 10 edge.src ++
          (" --> T".toList ++ Nat.toDigits 10 edge.dst)) := by
        simp only [edgeLine, hlabel, if_true, String.toList_append, toList_toString,
          List.append_assoc]
      rw [hline, readLine, dropPrefix?_append, Option.bind_eq_bind, Option.bind_some,
        readNat_toDigits edge.src (by simp)]
      simp only [Option.bind_eq_bind, Option.bind_some, dropPrefix?_append]
      rw [readEdge_dst, ← hlabel]
  | autoAddedDep =>
      have hline : (edgeLine edge).toList = "    T".toList ++ (Nat.toDigits 10 edge.src ++
          (" -.-> T".toList ++ Nat.toDigits 10 edge.dst)) := by
        simp [edgeLine, hlabel]
      have hsolid : (" -.-> T".toList ++ Nat.toDigits 10 edge.dst).dropPrefix? " --> T".toList =
          none := rfl
      rw [hline, readLine, dropPrefix?_append, Option.bind_eq_bind, Option.bind_some,
        readNat_toDigits edge.src (by simp)]
      simp only [Option.bind_eq_bind, Option.bind_some, hsolid, dropPrefix?_append]
      rw [readEdge_dst, ← hlabel]

/-! ## The whole text -/

theorem newline_notMem_toString (n : ℕ) : '\n' ∉ (toString n).toList := by
  intro h
  rw [toList_toString] at h
  have hdigit := Nat.isDigit_of_mem_toDigits (by decide) (by decide) h
  exact absurd hdigit (by decide)

theorem newline_notMem_nodeLine (task : Task) : '\n' ∉ (nodeLine task).toList := by
  have hid := newline_notMem_toString task.id
  have hlabel := newline_notMem_escapeMermaid (taskLabel task)
  simp only [nodeLine, String.toList_append, List.mem_append, not_or]
  exact ⟨⟨⟨⟨by decide, hid⟩, by decide⟩, hlabel⟩, by decide⟩

theorem newline_notMem_edgeLine (edge : Edge ℕ EdgeLabel) : '\n' ∉ (edgeLine edge).toList := by
  have hsrc := newline_notMem_toString edge.src
  have hdst := newline_notMem_toString edge.dst
  simp only [edgeLine, String.toList_append, List.mem_append, not_or]
  refine ⟨⟨⟨by decide, hsrc⟩, ?_⟩, hdst⟩
  split <;> decide

/-- The text of `work/tasks.mmd` says which tasks there are, with their labels, and which edges were
drawn between them, and it says so in the order in which they were written. -/
theorem readFlowchart_writeTasksMmd {nx : SimpleCycles} {fuel : ℕ} {tasks : List Task}
    {mmd : TasksMmd} (h : writeTasksMmd nx fuel tasks = .returned mmd) :
    readFlowchart mmd.mermaid = some
      (mmd.tasks.map (fun task => .node task.id (taskLabel task)) ++ mmd.drawn.map .edge) := by
  rcases Outcome.bind_eq_returned.mp h with ⟨g, _, h⟩
  rcases Outcome.bind_eq_returned.mp h with ⟨_, _, h⟩
  rw [← Outcome.returned.inj h]
  have hlines : ∀ line ∈ (("flowchart TB" :: g.tasks.map nodeLine ++ g.edges.map edgeLine).map
      String.toList), '\n' ∉ line := by
    intro line hline
    rcases List.mem_map.mp hline with ⟨text, htext, rfl⟩
    rcases List.mem_append.mp htext with htext | htext
    · rcases List.mem_cons.mp htext with rfl | htext
      · decide
      · rcases List.mem_map.mp htext with ⟨task, _, rfl⟩
        exact newline_notMem_nodeLine task
    · rcases List.mem_map.mp htext with ⟨edge, _, rfl⟩
      exact newline_notMem_edgeLine edge
  have hsplit := List.splitOn_intercalate '\n' hlines (by simp)
  simp only [readFlowchart, String.toList_intercalate]
  rw [show "\n".toList = ['\n'] from rfl, hsplit, List.cons_append, List.map_cons]
  have hnodes := mapM_eq_some (fun line (_ : line ∈ g.tasks) => readLine_nodeLine line)
  have hedges := mapM_eq_some (fun line (_ : line ∈ g.edges) => readLine_edgeLine line)
  simp only [if_true, List.map_append, List.map_map, List.mapM_append, List.mapM_map,
    Function.comp_def, hnodes, hedges]
  rfl

/-! ## The build and its flowchart -/

/-- A solid edge that can be read is a dependency between two tasks of the list. -/
theorem dependsOn_of_mem_flowchart {nx : SimpleCycles} {fuel : ℕ} {tasks : List Task}
    {mmd : TasksMmd} (h : writeTasksMmd nx fuel tasks = .returned mmd) {lines : List FlowchartLine}
    (hlines : readFlowchart mmd.mermaid = some lines) {u v : ℕ}
    (hedge : .edge ⟨u, v, .declared⟩ ∈ lines) : DependsOn tasks u v := by
  rw [readFlowchart_writeTasksMmd h, Option.some.injEq] at hlines
  rw [← hlines] at hedge
  rcases List.mem_append.mp hedge with hnode | hdrawn
  · rcases List.mem_map.mp hnode with ⟨_, _, heq⟩
    cases heq
  · rcases List.mem_map.mp hdrawn with ⟨edge, hedge, heq⟩
    obtain rfl := FlowchartLine.edge.inj heq
    obtain ⟨g, hg, _, _, hdrawn⟩ := writeTasksMmd_eq_returned h
    rw [hdrawn, TaskGraph.mem_edges, mem_edges_createTaskGraph hg] at hedge
    rcases hedge with ⟨hdepends, _⟩ | ⟨_, hlabel⟩
    · exact hdepends
    · cases hlabel

/-- The flowchart of a build can be read back in full, and the build keeps to it: whatever happens, a
task is started only after the tasks have passed that solid edges lead from. -/
theorem build_follows_flowchart {nx : SimpleCycles} {fuel fuel' : ℕ} {tasks result : List Task}
    (hsort : sort nx fuel tasks = .returned result) {mmd : TasksMmd}
    (hmmd : writeTasksMmd nx fuel' result = .returned mmd) {schedule : List DescribedTask}
    (hschedule : schedule.map DescribedTask.toTask = result) {now : ℚ} {events : List BuildEvent}
    {s : BuildRun} (hrun : Runs.run BuildRun.step (.start schedule now) events = some s) :
    ∃ lines, readFlowchart mmd.mermaid = some lines ∧
      lines = mmd.tasks.map (fun task => .node task.id (taskLabel task)) ++ mmd.drawn.map .edge ∧
      ∀ u v, .edge ⟨u, v, .declared⟩ ∈ lines → ∀ record ∈ s.records, record.task.id = v →
        ∃ earlier ∈ s.records, earlier.task.id = u ∧ earlier.status = .passed ∧
          earlier.endMs ≤ record.startMs := by
  refine ⟨_, readFlowchart_writeTasksMmd hmmd, rfl, ?_⟩
  intro u v hedge record hrecord hid
  rcases sort_eq_returned hsort with ⟨g, gens, ids, reordered, hsorted⟩
  have hkept := BuildRun.kept_of_run hrun
  have hnumber : number result = result := by rw [hsorted.result_eq, number_number]
  rcases dependsOn_of_mem_flowchart hmmd (readFlowchart_writeTasksMmd hmmd) hedge with
    ⟨subtask, hsub, task, htask, rfl, rfl, dep, hdep, hmatch⟩
  rw [hnumber] at hsub htask
  have hlt := hsorted.depends_lt hsub htask hdep hmatch
  rcases List.mem_iff_getElem?.mp hsub with ⟨i, hi⟩
  rcases List.mem_iff_getElem?.mp hrecord with ⟨j, hj⟩
  have hsubid := hsorted.getElem?_id hi
  have hentryid := hkept.id_of_getElem? hsorted hschedule hj
  rw [← hschedule, List.getElem?_map] at hi
  rcases Option.map_eq_some_iff.mp hi with ⟨entry, hentry, rfl⟩
  rcases hkept.passedBy (by omega) hj hentry with ⟨earlier, hearlier, heq, hpassed, hend⟩
  exact ⟨earlier, hearlier, by rw [heq], hpassed, hend⟩

theorem build_follows_flowchart_failedLibraryBuild :
    ∃ mmd s, writeTasksMmd wholeGraphCycles 20 librarySchedule = .returned mmd ∧
      Runs.run BuildRun.step (.start libraryBuild 0) failedLibraryBuild = some s ∧
      ∃ lines, readFlowchart mmd.mermaid = some lines ∧
        lines = mmd.tasks.map (fun task => .node task.id (taskLabel task)) ++ mmd.drawn.map .edge ∧
        ∀ u v, .edge ⟨u, v, .declared⟩ ∈ lines → ∀ record ∈ s.records, record.task.id = v →
          ∃ earlier ∈ s.records, earlier.task.id = u ∧ earlier.status = .passed ∧
            earlier.endMs ≤ record.startMs := by
  have hagain : sort wholeGraphCycles 20 librarySchedule = .returned librarySchedule := by
    decide +kernel
  rcases (sort_returns_iff wholeGraphCycles 20 librarySchedule).mp ⟨_, hagain⟩ with
    ⟨g, hg, hacyclic⟩
  rcases writeTasksMmd_of_acyclic wholeGraphCycles hg hacyclic with ⟨mmd, hmmd⟩
  rcases exists_run_failedLibraryBuild with ⟨s, hrun⟩
  exact ⟨mmd, s, hmmd, hrun,
    build_follows_flowchart sort_libraryTasks hmmd (by decide +kernel) hrun⟩

end DistroSeed
