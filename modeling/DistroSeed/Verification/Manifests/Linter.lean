import DistroSeed.Model.ManifestFiles

/-! What a manifest without lint errors still needs for the loader and the loop of `build.py`. -/

namespace DistroSeed.Parsed

open Yaml

variable {ctx : LintContext} {taskDir : String}

/-! ## Without lint errors -/

/-- A task that the linter lets pass: its type is known, and `dependencies` is absent, null or a
list. -/
structure LintedTask (entries : Entries) : Prop where
  cmdType : ∃ name ∈ cmdTypeNames, get? entries "cmd_type" = some (.str name.1)
  dependencies : ∀ v, get? entries "dependencies" = some v → v = .null ∨ ∃ object items, v = .list object items

theorem lintDependencies_eq_nil {idx : ℕ} {dependencies : Option Value}
    (h : lintDependencies idx dependencies = []) :
    ∀ v, dependencies = some v → v = .null ∨ ∃ object items, v = .list object items := by
  rintro v rfl
  cases v with
  | null => exact Or.inl rfl
  | list object items => exact Or.inr ⟨object, items, rfl⟩
  | _ => cases h

theorem goesOn_of_lintCmdPath {idx : ℕ} {cmdType : Value} {cmd : String} {goesOn : Bool}
    (h : lintCmdPath ctx taskDir idx cmdType cmd = .returned ([], goesOn)) : goesOn = true := by
  unfold lintCmdPath at h
  dsimp only at h
  split at h
  · cases h
  · split at h
    · split at h
      · cases h
      · exact (Prod.mk.inj (Outcome.returned.inj h)).2.symm
    · exact (Prod.mk.inj (Outcome.returned.inj h)).2.symm

/-- Without an error in `cmd`, the linter comes to the dependencies. -/
theorem goesOn_of_lintCmd {idx : ℕ} {cmdType cmd : Value} {goesOn : Bool}
    (h : lintCmd ctx taskDir idx cmdType cmd = .returned ([], goesOn)) : goesOn = true := by
  unfold lintCmd at h
  split at h
  · exact (Prod.mk.inj (Outcome.returned.inj h)).2.symm
  · split at h
    · cases h
    · split at h
      · exact goesOn_of_lintCmdPath h
      · cases h

theorem eq_some_of_getD_null {v : Option Value} {text : String} (h : v.getD .null = .str text) :
    v = some (.str text) := by
  cases v with
  | none => cases h
  | some v => exact congrArg some h

theorem lintTask_eq_nil {idx : ℕ} {task : Value}
    (h : lintTask ctx taskDir idx task = .returned []) :
    ∃ entries, task = .dict entries ∧ LintedTask entries := by
  cases task with
  | dict entries =>
      obtain ⟨valid, hvalid, h⟩ := Outcome.bind_eq_returned.mp h
      obtain ⟨⟨errors, goesOn⟩, hcmd, h⟩ := Outcome.bind_eq_returned.mp h
      have hnil := Outcome.returned.inj h
      rw [List.append_eq_nil_iff, List.append_eq_nil_iff] at hnil
      obtain ⟨⟨htype, rfl⟩, hdependencies⟩ := hnil
      obtain rfl := goesOn_of_lintCmd hcmd
      obtain rfl : valid = true := by
        cases valid
        · cases htype
        · rfl
      obtain ⟨name, hname, hstr⟩ := Value.inSet_eq_true_iff.mp hvalid
      obtain ⟨type, htype, rfl⟩ := List.mem_map.mp hname
      exact ⟨entries, rfl, ⟨type, htype, eq_some_of_getD_null hstr⟩,
        lintDependencies_eq_nil hdependencies⟩
  | _ => cases h

theorem lintTasks_eq_nil {idx : ℕ} {tasks : List Value}
    (h : lintTasks ctx taskDir idx tasks = .returned []) :
    ∀ task ∈ tasks, ∃ entries, task = .dict entries ∧ LintedTask entries := by
  induction tasks generalizing idx with
  | nil => simp
  | cons task rest ih =>
      obtain ⟨errors, htask, h⟩ := Outcome.bind_eq_returned.mp h
      obtain ⟨others, hrest, h⟩ := Outcome.bind_eq_returned.mp h
      obtain ⟨rfl, rfl⟩ := List.append_eq_nil_iff.mp (Outcome.returned.inj h)
      exact List.forall_mem_cons.mpr ⟨lintTask_eq_nil htask, ih hrest⟩

/-- The entries of the tasks of a manifest. -/
def taskEntries (manifest : Value) : List Entries :=
  match get? manifest.entries "tasks" with
  | some (.list _ items) => items.map Value.entries
  | _ => []

/-- A manifest that the linter lets pass. -/
structure LintedManifest (manifest : Value) : Prop where
  mapping : ∃ entries, manifest = .dict entries
  config : ∃ config, get? manifest.entries "config" = some (.str config)
  tasks : ∃ object, get? manifest.entries "tasks" =
    some (.list object ((taskEntries manifest).map .dict))
  linted : ∀ task ∈ taskEntries manifest, LintedTask task

theorem lintConfig_eq_nil {config : Value} (h : lintConfig ctx config = .returned []) :
    ∃ name ∈ ctx.kconfigSymbols, config = .str name := by
  unfold lintConfig at h
  split at h
  · cases h
  · obtain ⟨defined, hdefined, h⟩ := Outcome.bind_eq_returned.mp h
    obtain rfl : defined = true := by
      cases defined
      · cases h
      · rfl
    exact Value.inSet_eq_true_iff.mp hdefined

/-- Tasks that are mappings are given by their entries. -/
theorem map_dict_map_entries {items : List Value} (h : ∀ item ∈ items, ∃ entries, item = .dict entries) :
    (items.map Value.entries).map .dict = items := by
  have hsame : ∀ item ∈ items, (Value.dict ∘ Value.entries) item = item := by
    intro item hitem
    obtain ⟨entries, rfl⟩ := h item hitem
    rfl
  rw [List.map_map, List.map_congr_left hsame, List.map_id']

theorem lintManifest_eq_nil {manifest : Value}
    (h : lintManifest ctx taskDir manifest = .returned []) : LintedManifest manifest := by
  cases manifest with
  | dict entries =>
      obtain ⟨errors, hconfig, h⟩ := Outcome.bind_eq_returned.mp h
      cases hget : get? entries "tasks" with
      | none =>
          rw [hget] at h
          simp at h
      | some v =>
          rw [hget] at h
          cases v with
          | list object items =>
              cases items with
              | nil => simp at h
              | cons task tasks =>
                  obtain ⟨others, htasks, h⟩ := Outcome.bind_eq_returned.mp h
                  obtain ⟨hhead, rfl⟩ := List.append_eq_nil_iff.mp (Outcome.returned.inj h)
                  obtain ⟨_, rfl⟩ := List.append_eq_nil_iff.mp hhead
                  have hall := lintTasks_eq_nil htasks
                  have hentries : taskEntries (.dict entries) =
                      (task :: tasks).map Value.entries := by
                    rw [taskEntries, Value.entries, hget]
                  have hdicts := map_dict_map_entries fun item hitem =>
                    (hall item hitem).imp fun _ hbody => hbody.1
                  obtain ⟨name, _, hname⟩ := lintConfig_eq_nil hconfig
                  refine ⟨⟨entries, rfl⟩, ⟨name, eq_some_of_getD_null hname⟩,
                    ⟨object, by rw [hentries, hdicts]; exact hget⟩, ?_⟩
                  rw [hentries]
                  intro body hbody
                  obtain ⟨item, hitem, rfl⟩ := List.mem_map.mp hbody
                  obtain ⟨body, rfl, hlinted⟩ := hall item hitem
                  exact hlinted
          | _ => simp at h
  | _ => cases h

/-! ## The loader -/

/-- `dependencies` as the loader takes it. -/
def dependenciesOf (entries : Entries) : Value :=
  (get? entries "dependencies").getD (.list none [])

/-- A task as it is loaded if nothing is missing. -/
def loaded (head : ManifestHead) (entries : Entries) : LoadedTask where
  config := head.config
  path := head.path
  cmdType := ((cmdTypeNames.find? fun name =>
    ((get? entries "cmd_type").getD .null).isStr name.1).map Prod.snd).getD .dummy
  cmd := (get? entries "cmd").getD (.str "")
  dependencies := dependenciesOf entries
  provides := (get? entries "provides").getD (.str "")
  description := (get? entries "description").getD .null
  autoCreateRdepends := (get? entries "auto_create_rdepends").getD (.bool false)
  manifestVersion := head.manifestVersion
  pkgVersion := head.pkgVersion

/-- The names of the types are different. -/
theorem find?_cmdTypeNames {name : String × CmdType} (h : name ∈ cmdTypeNames) :
    cmdTypeNames.find? (fun other => (Value.str name.1).isStr other.1) = some name := by
  revert name
  decide

theorem loaded_cmdType_eq_dummy_iff {head : ManifestHead} {entries : Entries}
    (h : LintedTask entries) :
    (loaded head entries).cmdType = .dummy ↔ get? entries "cmd_type" = some (.str "dummy") := by
  obtain ⟨name, hname, htype⟩ := h.cmdType
  have hdummy : ∀ name ∈ cmdTypeNames, name.2 = .dummy ↔ name.1 = "dummy" := by decide
  rw [loaded, htype, Option.getD_some, find?_cmdTypeNames hname]
  simpa using hdummy name hname

/-- Of a linted task, the loader misses the description only. -/
theorem loadTask_eq {str : Value → String} {head : ManifestHead} {entries : Entries}
    (h : LintedTask entries) :
    loadTask str head (.dict entries) =
      if (get? entries "description").isSome then .returned (loaded head entries)
      else .raised (.keyError "description") := by
  obtain ⟨name, hname, htype⟩ := h.cmdType
  have hfind := find?_cmdTypeNames hname
  rw [loadTask, getItem, htype]
  cases hdescription : get? entries "description" with
  | none =>
      rw [getItem, hdescription]
      rfl
  | some description =>
      rw [getItem, hdescription]
      simp [hfind, loaded, htype, hdescription, dependenciesOf]

/-! ## The loop -/

/-- The loop extends the list of the task, which has this number. -/
def Extends (task : LoadedTask) (object : ℕ) : Prop :=
  task.dependencies = .list (some object) [] ∧ task.cmdType ≠ .dummy ∧
    ¬ task.config.isStr "DS_CORE_CLEAN_WORK"

/-- The loop handles a task behind others: its dependencies are a list, and if the list is empty,
the task has a default, or keeps it empty, or shares it with a task that has got its default. -/
def Handled (added : Added) (before : List LoadedTask) (task : LoadedTask) : Prop :=
  ∃ object items, task.dependencies = .list object items ∧
    (items ≠ [] ∨ task.config.isStr "DS_CORE_CLEAN_WORK" ∨ task.cmdType ≠ .dummy ∨
      ∃ o, object = some o ∧ (added o ≠ [] ∨ ∃ other ∈ before, Extends other o))

theorem defaultDependency_eq_none_iff {cmdType : CmdType} :
    defaultDependency cmdType = none ↔ cmdType = .dummy := by
  cases cmdType <;> simp [defaultDependency]

/-- One turn for a task with a list, by the list. -/
theorem setDefaultDependency_list {added : Added} {task : LoadedTask} {object : Option ℕ}
    {items : List Value} (hlist : task.dependencies = .list object items) :
    setDefaultDependency added task =
      if items = [] ∧ sharedNames added (.list object items) = [] then
        if task.config.isStr "DS_CORE_CLEAN_WORK" then .returned (task, added)
        else
          match defaultDependency task.cmdType with
          | some dep => extend added task dep
          | none => .raised (.attributeError "cmd_type")
      else .returned (task, added) := by
  have hlen : len task.dependencies = .returned items.length := by
    rw [hlist]
    rfl
  have hzero : items.length + (sharedNames added (.list object items)).length ≠ 0 ↔
      ¬ (items = [] ∧ sharedNames added (.list object items) = []) := by
    rw [ne_eq, Nat.add_eq_zero_iff, List.length_eq_zero_iff, List.length_eq_zero_iff]
  rw [setDefaultDependency, hlen, Outcome.returned_bind, hlist]
  by_cases hempty : items = [] ∧ sharedNames added (.list object items) = []
  · rw [if_neg fun hne => hzero.mp hne hempty, if_pos hempty]
    rfl
  · rw [if_pos (hzero.mpr hempty), if_neg hempty]
    rfl

/-- The list of a task that extends it has got something afterwards, and the others stay. -/
theorem extend_spec (added : Added) {task : LoadedTask} {object : Option ℕ}
    (hlist : task.dependencies = .list object []) (dep : String) :
    ∃ task' added', extend added task dep = .returned (task', added') ∧
      ∀ o, added' o ≠ [] ↔ added o ≠ [] ∨ object = some o := by
  unfold extend
  rw [hlist]
  cases object with
  | none => exact ⟨_, added, rfl, fun o => by simp⟩
  | some object =>
      refine ⟨task, _, rfl, fun o => ?_⟩
      by_cases ho : o = object
      · subst ho
        simp
      · rw [Function.update_of_ne ho]
        simp [Ne.symm ho]

theorem setDefaultDependency_of_handled {added : Added} {task : LoadedTask}
    (h : Handled added [] task) :
    ∃ task' added', setDefaultDependency added task = .returned (task', added') ∧
      ∀ o, added' o ≠ [] ↔ added o ≠ [] ∨ Extends task o := by
  obtain ⟨object, items, hlist, h⟩ := h
  rw [setDefaultDependency_list hlist]
  by_cases hempty : items = [] ∧ sharedNames added (.list object items) = []
  · obtain ⟨rfl, hshared⟩ := hempty
    rw [if_pos ⟨rfl, hshared⟩]
    by_cases hclean : task.config.isStr "DS_CORE_CLEAN_WORK"
    · rw [if_pos hclean]
      exact ⟨task, added, rfl, fun o => by simp [Extends, hclean]⟩
    · rw [if_neg hclean]
      have htype : task.cmdType ≠ .dummy := by
        rcases h with h | h | h | ⟨o, rfl, h | ⟨other, hother, _⟩⟩
        · exact absurd rfl h
        · exact absurd h hclean
        · exact h
        · exact absurd hshared h
        · cases hother
      obtain ⟨dep, hdep⟩ := Option.ne_none_iff_exists'.mp
        fun hnone => htype (defaultDependency_eq_none_iff.mp hnone)
      rw [hdep]
      obtain ⟨task', added', hextend, hadded⟩ := extend_spec added hlist dep
      refine ⟨task', added', hextend, fun o => (hadded o).trans ?_⟩
      simp [Extends, hlist, htype, hclean]
  · rw [if_neg hempty]
    refine ⟨task, added, rfl, fun o => ⟨Or.inl, ?_⟩⟩
    rintro (hadded | ⟨hother, _⟩)
    · exact hadded
    · rw [hlist] at hother
      obtain ⟨rfl, rfl⟩ := Value.list.inj hother
      exact fun hnil => hempty ⟨rfl, hnil⟩

theorem handled_of_setDefaultDependency {added : Added} {task : LoadedTask}
    (hlist : task.dependencies = .null ∨ ∃ object items, task.dependencies = .list object items)
    {result : LoadedTask × Added} (h : setDefaultDependency added task = .returned result) :
    Handled added [] task := by
  rcases hlist with hnull | ⟨object, items, hlist⟩
  · unfold setDefaultDependency at h
    rw [hnull] at h
    cases h
  · refine ⟨object, items, hlist, ?_⟩
    by_contra hneither
    simp only [not_or, not_exists, not_and] at hneither
    obtain ⟨hitems, hclean, htype, hshared⟩ := hneither
    have hempty : items = [] ∧ sharedNames added (.list object items) = [] := by
      refine ⟨not_not.mp hitems, ?_⟩
      cases object with
      | none => rfl
      | some o => exact not_not.mp (hshared o rfl).1
    have hnone : defaultDependency task.cmdType = none :=
      defaultDependency_eq_none_iff.mpr (not_not.mp htype)
    rw [setDefaultDependency_list hlist, if_pos hempty, if_neg hclean, hnone] at h
    cases h

/-- What was added before a task comes from the tasks in front of it. -/
theorem handled_cons_iff {added added' : Added} {first : LoadedTask}
    (hadded : ∀ o, added' o ≠ [] ↔ added o ≠ [] ∨ Extends first o) (before : List LoadedTask)
    (task : LoadedTask) : Handled added' before task ↔ Handled added (first :: before) task := by
  have hshared : ∀ o, (added' o ≠ [] ∨ ∃ other ∈ before, Extends other o) ↔
      added o ≠ [] ∨ ∃ other ∈ first :: before, Extends other o := by
    intro o
    rw [hadded, or_assoc, List.exists_mem_cons_iff]
  simp only [Handled, hshared]

/-- The loop handles all tasks if and only if it handles every task behind the ones before it. -/
theorem setDefaultDependencies_iff {tasks : List LoadedTask}
    (hlists : ∀ task ∈ tasks, task.dependencies = .null ∨
      ∃ object items, task.dependencies = .list object items) (added : Added) :
    (∃ result, setDefaultDependencies added tasks = .returned result) ↔
      ∀ before task after, tasks = before ++ task :: after → Handled added before task := by
  induction tasks generalizing added with
  | nil =>
      refine iff_of_true ⟨([], added), rfl⟩ fun before task after hsplit => ?_
      simp at hsplit
  | cons first rest ih =>
      obtain ⟨hfirst, hrest⟩ := List.forall_mem_cons.mp hlists
      constructor
      · rintro ⟨result, hresult⟩ before task after hsplit
        obtain ⟨⟨first', added₁⟩, hstep, hresult⟩ := Outcome.bind_eq_returned.mp hresult
        obtain ⟨⟨rest', added₂⟩, hloop, _⟩ := Outcome.bind_eq_returned.mp hresult
        have hhandled := handled_of_setDefaultDependency hfirst hstep
        obtain ⟨first'', added', hstep', hadded⟩ := setDefaultDependency_of_handled hhandled
        obtain ⟨rfl, rfl⟩ := Prod.mk.inj (Outcome.returned.inj (hstep.symm.trans hstep'))
        cases before with
        | nil =>
            obtain ⟨rfl, _⟩ := List.cons.inj hsplit
            exact hhandled
        | cons head before =>
            obtain ⟨rfl, htail⟩ := List.cons.inj hsplit
            exact (handled_cons_iff hadded before task).mp
              ((ih hrest _).mp ⟨_, hloop⟩ before task after htail)
      · intro h
        obtain ⟨first', added', hstep, hadded⟩ :=
          setDefaultDependency_of_handled (h [] first rest rfl)
        obtain ⟨result, hloop⟩ := (ih hrest added').mpr fun before task after hsplit =>
          (handled_cons_iff hadded before task).mpr
            (h (first :: before) task after (by rw [hsplit]; rfl))
        refine ⟨(first' :: result.1, result.2), ?_⟩
        rw [setDefaultDependencies, hstep, Outcome.returned_bind]
        dsimp only
        rw [hloop]
        rfl

/-! ## The tasks of the scheduler -/

/-- A loaded task is this task of the scheduler: its fields are what the task declares, and no
other task has its list. -/
structure Reads (loaded : LoadedTask) (task : Task) : Prop where
  config : loaded.config = .str task.config
  cmdType : loaded.cmdType = task.cmdType
  cmd : loaded.cmd = .str task.cmd
  dependencies : loaded.dependencies = .list none (task.dependencies.map .str)
  provides : loaded.provides = .str task.provides
  autoCreateRdepends : loaded.autoCreateRdepends = .bool task.autoCreateRdepends
  manifestVersion : loaded.manifestVersion = task.manifestVersion
  pkgVersion : loaded.pkgVersion = task.pkgVersion

/-- One turn of the loop of the scheduler is the turn for the loaded task. -/
theorem Reads.setDefaultDependency {loaded : LoadedTask} {task task' : Task} (h : Reads loaded task)
    (hturn : DistroSeed.setDefaultDependencies task = .returned task') (added : Added) :
    ∃ loaded', Parsed.setDefaultDependency added loaded = .returned (loaded', added) ∧
      Reads loaded' task' := by
  have hempty : task.dependencies.map Value.str = [] ∧ sharedNames added
      (.list none (task.dependencies.map .str)) = [] ↔ task.dependencies = [] := by
    simp [sharedNames]
  have hclean : loaded.config.isStr "DS_CORE_CLEAN_WORK" ↔ task.config = "DS_CORE_CLEAN_WORK" := by
    rw [h.config, Value.isStr_iff, Value.str.injEq]
  rw [setDefaultDependency_list h.dependencies]
  simp only [hempty, hclean, h.cmdType]
  unfold DistroSeed.setDefaultDependencies at hturn
  by_cases hnone : task.dependencies = []
  · rw [if_neg (not_not.mpr hnone)] at hturn
    rw [if_pos hnone]
    by_cases hconfig : task.config = "DS_CORE_CLEAN_WORK"
    · rw [if_pos hconfig] at hturn ⊢
      obtain rfl := Outcome.returned.inj hturn
      exact ⟨loaded, rfl, h⟩
    · rw [if_neg hconfig] at hturn ⊢
      cases hdefault : defaultDependency task.cmdType with
      | none =>
          rw [hdefault] at hturn
          cases hturn
      | some dep =>
          rw [hdefault] at hturn
          obtain rfl := Outcome.returned.inj hturn
          refine ⟨{ loaded with dependencies := .list none [.str dep] }, ?_, { h with
            dependencies := rfl }⟩
          simp only [extend, h.dependencies, hnone]
          rfl
  · rw [if_pos hnone] at hturn
    obtain rfl := Outcome.returned.inj hturn
    exact ⟨loaded, if_neg hnone, h⟩

/-- The loop of the scheduler is the loop over the loaded tasks. -/
theorem setDefaultDependencies_of_reads {loaded : List LoadedTask} {tasks tasks' : List Task}
    (h : List.Forall₂ Reads loaded tasks) (hloop : setAllDefaultDependencies tasks = .returned tasks')
    (added : Added) : ∃ loaded', setDefaultDependencies added loaded = .returned (loaded', added) ∧
      List.Forall₂ Reads loaded' tasks' := by
  rw [setAllDefaultDependencies] at hloop
  induction h generalizing tasks' with
  | nil =>
      obtain rfl := Outcome.returned.inj hloop
      exact ⟨[], rfl, .nil⟩
  | cons hfirst _ ih =>
      rw [List.mapM_cons] at hloop
      obtain ⟨first', hturn, hloop⟩ := Outcome.bind_eq_returned.mp hloop
      obtain ⟨rest', hrest, hloop⟩ := Outcome.bind_eq_returned.mp hloop
      obtain rfl := Outcome.returned.inj hloop
      obtain ⟨loaded₁, hstep, hreads⟩ := hfirst.setDefaultDependency hturn added
      obtain ⟨loaded₂, hsteps, hall⟩ := ih hrest
      refine ⟨loaded₁ :: loaded₂, ?_, .cons hreads hall⟩
      rw [setDefaultDependencies, hstep, Outcome.returned_bind]
      dsimp only
      rw [hsteps]
      rfl

/-! ## A linted manifest -/

/-- What a linted task, behind others of its manifest, still needs: a description, dependencies
that are not null, and if it is a dummy with an empty list, that it is a task of
`DS_CORE_CLEAN_WORK` or shares the list with a task before it that is no dummy. -/
structure EntryReady (manifest : Value) (before : List Entries) (entry : Entries) : Prop where
  description : (get? entry "description").isSome
  dependencies : get? entry "dependencies" ≠ some .null
  dummy : get? entry "cmd_type" = some (.str "dummy") →
    ∀ object, dependenciesOf entry = .list object [] →
      get? manifest.entries "config" = some (.str "DS_CORE_CLEAN_WORK") ∨
        ∃ o, object = some o ∧ ∃ other ∈ before,
          get? other "cmd_type" ≠ some (.str "dummy") ∧ dependenciesOf other = .list (some o) []

theorem dependenciesOf_of_linted {entries : Entries} (h : LintedTask entries) :
    dependenciesOf entries = .null ∨ ∃ object items, dependenciesOf entries = .list object items := by
  rw [dependenciesOf]
  cases hget : get? entries "dependencies" with
  | none => exact Or.inr ⟨none, [], rfl⟩
  | some v => exact h.dependencies v hget

theorem dependenciesOf_eq_null_iff {entries : Entries} :
    dependenciesOf entries = .null ↔ get? entries "dependencies" = some .null := by
  rw [dependenciesOf]
  cases get? entries "dependencies" <;> simp

theorem extends_loaded_iff {head : ManifestHead} {entries : Entries} (h : LintedTask entries)
    (hclean : ¬ head.config.isStr "DS_CORE_CLEAN_WORK") (o : ℕ) :
    Extends (loaded head entries) o ↔ get? entries "cmd_type" ≠ some (.str "dummy") ∧
      dependenciesOf entries = .list (some o) [] := by
  have htype : (loaded head entries).cmdType ≠ .dummy ↔
      get? entries "cmd_type" ≠ some (.str "dummy") := not_congr (loaded_cmdType_eq_dummy_iff h)
  rw [Extends, htype]
  constructor
  · rintro ⟨hlist, hdummy, _⟩
    exact ⟨hdummy, hlist⟩
  · rintro ⟨hdummy, hlist⟩
    exact ⟨hlist, hdummy, hclean⟩

/-- What the loop needs of a loaded task is what the entry says. -/
theorem handled_loaded_iff {manifest : Value} {head : ManifestHead} {before : List Entries}
    {entry : Entries} (hconfig : get? manifest.entries "config" = some head.config)
    (hentry : LintedTask entry) (hbefore : ∀ other ∈ before, LintedTask other)
    (hdescription : (get? entry "description").isSome) :
    Handled (fun _ => []) (before.map (loaded head)) (loaded head entry) ↔
      EntryReady manifest before entry := by
  have hclean : head.config.isStr "DS_CORE_CLEAN_WORK" ↔
      get? manifest.entries "config" = some (.str "DS_CORE_CLEAN_WORK") := by
    rw [hconfig, Option.some.injEq, Value.isStr_iff]
  constructor
  · rintro ⟨object, items, hlist, h⟩
    have hlist : dependenciesOf entry = .list object items := hlist
    refine ⟨hdescription, ?_, ?_⟩
    · rw [ne_eq, ← dependenciesOf_eq_null_iff, hlist]
      exact Value.noConfusion
    · intro hdummy object' hempty
      obtain ⟨rfl, rfl⟩ := Value.list.inj (hlist.symm.trans hempty)
      by_cases hconfigClean : head.config.isStr "DS_CORE_CLEAN_WORK"
      · exact Or.inl (hclean.mp hconfigClean)
      · rcases h with h | h | h | ⟨o, rfl, h | ⟨other, hother, hextends⟩⟩
        · exact absurd rfl h
        · exact absurd h hconfigClean
        · exact absurd ((loaded_cmdType_eq_dummy_iff hentry).mpr hdummy) h
        · exact absurd rfl h
        · obtain ⟨other, hmem, rfl⟩ := List.mem_map.mp hother
          exact Or.inr ⟨o, rfl, other, hmem,
            (extends_loaded_iff (hbefore other hmem) hconfigClean o).mp hextends⟩
  · rintro ⟨_, hnull, hdummy⟩
    obtain ⟨object, items, hlist⟩ := (dependenciesOf_of_linted hentry).resolve_left
      (mt dependenciesOf_eq_null_iff.mp hnull)
    refine ⟨object, items, hlist, ?_⟩
    by_cases hitems : items = []
    · subst hitems
      by_cases hconfigClean : head.config.isStr "DS_CORE_CLEAN_WORK"
      · exact Or.inr (Or.inl hconfigClean)
      by_cases htype : get? entry "cmd_type" = some (.str "dummy")
      · rcases hdummy htype object hlist with h | ⟨o, rfl, other, hmem, hother⟩
        · exact absurd (hclean.mpr h) hconfigClean
        · have hextends := (extends_loaded_iff (hbefore other hmem) hconfigClean o).mpr hother
          exact Or.inr (Or.inr (Or.inr ⟨o, rfl,
            Or.inr ⟨_, List.mem_map_of_mem hmem, hextends⟩⟩))
      · exact Or.inr (Or.inr (Or.inl (mt (loaded_cmdType_eq_dummy_iff hentry).mp htype)))
    · exact Or.inl hitems

/-- The loader on a linted manifest goes through its tasks. -/
theorem loadManifest_eq_mapM {str : Value → String} {manifest config : Value}
    (h : LintedManifest manifest) (hconfig : get? manifest.entries "config" = some config) :
    loadManifest str taskDir manifest = (taskEntries manifest).mapM fun entries =>
      loadTask str (manifestHead str taskDir manifest.entries config) (.dict entries) := by
  obtain ⟨entries, rfl⟩ := h.mapping
  obtain ⟨object, htasks⟩ := h.tasks
  have hconfig : getItem entries "config" = .returned config := getItem_eq_returned_iff.mpr hconfig
  have htasks : getItem entries "tasks" = .returned _ := getItem_eq_returned_iff.mpr htasks
  rw [loadManifest, hconfig, Outcome.returned_bind, htasks, Outcome.returned_bind, iterate,
    Outcome.returned_bind, List.mapM_map]
  rfl

/-- The loader makes the tasks of a linted manifest if and only if all have descriptions. -/
theorem loadManifest_eq_returned_iff {str : Value → String} {manifest config : Value}
    (h : LintedManifest manifest) (hconfig : get? manifest.entries "config" = some config)
    {tasks : List LoadedTask} :
    loadManifest str taskDir manifest = .returned tasks ↔
      (∀ entries ∈ taskEntries manifest, (get? entries "description").isSome) ∧
        tasks = (taskEntries manifest).map
          (loaded (manifestHead str taskDir manifest.entries config)) := by
  have hall : (∀ entries ∈ taskEntries manifest, (get? entries "description").isSome) →
      loadManifest str taskDir manifest = .returned ((taskEntries manifest).map
        (loaded (manifestHead str taskDir manifest.entries config))) := by
    intro hdescription
    rw [loadManifest_eq_mapM h hconfig]
    refine Outcome.mapM_eq_returned fun entries hentries => ?_
    rw [loadTask_eq (h.linted entries hentries), if_pos (hdescription entries hentries)]
  constructor
  · intro hload
    have hdescription : ∀ entries ∈ taskEntries manifest, (get? entries "description").isSome := by
      intro entries hentries
      have hmapM := hload
      rw [loadManifest_eq_mapM h hconfig] at hmapM
      obtain ⟨task, htask⟩ := (Outcome.mem_of_mapM_eq_returned hmapM).1 entries hentries
      rw [loadTask_eq (h.linted entries hentries)] at htask
      by_contra hnone
      rw [if_neg hnone] at htask
      cases htask
    exact ⟨hdescription, Outcome.returned.inj (hload.symm.trans (hall hdescription))⟩
  · rintro ⟨hdescription, rfl⟩
    exact hall hdescription

/-- The loop handles the loaded tasks of a linted manifest if and only if every task has what it
still needs. -/
theorem setDefaultDependencies_loaded_iff {manifest : Value} (head : ManifestHead)
    (h : LintedManifest manifest) (hconfig : get? manifest.entries "config" = some head.config)
    (hdescription : ∀ entries ∈ taskEntries manifest, (get? entries "description").isSome) :
    (∃ result, setDefaultDependencies (fun _ => []) ((taskEntries manifest).map (loaded head)) =
        .returned result) ↔
      ∀ before entry after, taskEntries manifest = before ++ entry :: after →
        EntryReady manifest before entry := by
  have hlists : ∀ task ∈ (taskEntries manifest).map (loaded head),
      task.dependencies = .null ∨ ∃ object items, task.dependencies = .list object items := by
    intro task htask
    obtain ⟨entries, hentries, rfl⟩ := List.mem_map.mp htask
    exact dependenciesOf_of_linted (h.linted entries hentries)
  have hready : ∀ before entry after, taskEntries manifest = before ++ entry :: after →
      (Handled (fun _ => []) (before.map (loaded head)) (loaded head entry) ↔
        EntryReady manifest before entry) := by
    intro before entry after hsplit
    have hmem : ∀ other ∈ before ++ entry :: after, LintedTask other := hsplit ▸ h.linted
    refine handled_loaded_iff hconfig (hmem entry (by simp))
      (fun other hother => hmem other (List.mem_append_left _ hother))
      (hdescription entry (by simp [hsplit]))
  rw [setDefaultDependencies_iff hlists]
  constructor
  · intro hhandled before entry after hsplit
    refine (hready before entry after hsplit).mp
      (hhandled _ _ (after.map (loaded head)) ?_)
    rw [hsplit, List.map_append, List.map_cons]
  · intro hentries before task after hsplit
    obtain ⟨before, rest, hparts, rfl, hrest⟩ := List.map_eq_append_iff.mp hsplit
    obtain ⟨entry, after, rfl, rfl, rfl⟩ := List.map_eq_cons_iff.mp hrest
    exact (hready before entry after hparts).mpr (hentries before entry after hparts)

/-- Of a manifest that is linted without errors, the loader makes the tasks and the loop of
`build.py` handles all of them if and only if every task has what it still needs. -/
theorem lintManifest_sound_iff {ctx : LintContext} {str : Value → String}
    {distro releaseNum taskDir : String} {manifests : String → Value}
    (hlint : ∀ dir, effectiveTaskDir ctx.pathExists distro releaseNum taskDir = some dir →
      lintManifest ctx dir (manifests dir) = .returned []) :
    (∃ tasks result,
      loadTasksFromManifest str ctx.pathExists distro releaseNum manifests taskDir =
          .returned tasks ∧
        setDefaultDependencies (fun _ => []) tasks = .returned result) ↔
      ∀ dir, effectiveTaskDir ctx.pathExists distro releaseNum taskDir = some dir →
        ∀ before entry after, taskEntries (manifests dir) = before ++ entry :: after →
          EntryReady (manifests dir) before entry := by
  cases hdir : effectiveTaskDir ctx.pathExists distro releaseNum taskDir with
  | none =>
      refine iff_of_true ⟨[], ([], fun _ => []), ?_, rfl⟩ fun dir hsome => by cases hsome
      rw [loadTasksFromManifest, hdir]
  | some dir =>
      have hlinted := lintManifest_eq_nil (hlint dir hdir)
      obtain ⟨config, hconfig⟩ := hlinted.config
      have hload : loadTasksFromManifest str ctx.pathExists distro releaseNum manifests taskDir =
          loadManifest str dir (manifests dir) := by
        rw [loadTasksFromManifest, hdir]
      have hloop := setDefaultDependencies_loaded_iff
        (manifestHead str dir (manifests dir).entries (.str config)) hlinted hconfig
      rw [hload]
      constructor
      · rintro ⟨tasks, result, htasks, hresult⟩ _ ⟨rfl⟩
        obtain ⟨hdescription, rfl⟩ := (loadManifest_eq_returned_iff hlinted hconfig).mp htasks
        exact (hloop hdescription).mp ⟨result, hresult⟩
      · intro hready
        have hdescription : ∀ entries ∈ taskEntries (manifests dir),
            (get? entries "description").isSome := by
          intro entries hentries
          obtain ⟨before, after, hsplit⟩ := List.append_of_mem hentries
          exact (hready dir rfl before entries after hsplit).description
        obtain ⟨result, hresult⟩ :=
          (hloop hdescription).mpr (hready dir rfl)
        exact ⟨_, result, (loadManifest_eq_returned_iff hlinted hconfig).mpr ⟨hdescription, rfl⟩,
          hresult⟩

/-- A tree where every path exists and can be executed. -/
def wholeTree : LintContext where
  isDir _ := true
  pathExists _ := true
  ownerExecutes _ := true
  readScript _ := some []
  kconfigSymbols := ["DS_LOCALE"]

/-- The manifest of one task. -/
def manifestOf (task : Entries) : Value :=
  .dict [(.str "config", .str "DS_LOCALE"), (.str "tasks", .list none [.dict task])]

/-- A task with everything it needs. -/
def localeTask : Entries :=
  [(.str "cmd_type", .str "target"), (.str "cmd", .str "locale.sh"),
    (.str "description", .str "Set the locale")]

theorem lintManifest_sound_iff_localeTask :
    ∃ tasks result,
      loadTasksFromManifest (fun _ => "") wholeTree.pathExists "" "" (fun _ => manifestOf localeTask)
          "tasks/locale" = .returned tasks ∧
        setDefaultDependencies (fun _ => []) tasks = .returned result := by
  refine (lintManifest_sound_iff ?_).mpr ?_
  · rintro dir ⟨rfl⟩
    rfl
  · rintro dir ⟨rfl⟩ before entry after hsplit
    have hmem : entry ∈ taskEntries (manifestOf localeTask) := by
      rw [hsplit]
      simp
    obtain rfl : entry = localeTask := List.mem_singleton.mp hmem
    refine ⟨rfl, nofun, fun htype => ?_⟩
    exact absurd (Value.str.inj (Option.some.inj htype)) (by decide)

/-- The linter lets a task without description pass, which the loader does not, and tasks with null
dependencies or without a default, which the loop does not. -/
theorem lintManifest_lets_pass :
    let run (task : Entries) := do
      let tasks ← loadTasksFromManifest (fun _ => "") wholeTree.pathExists "" ""
        (fun _ => manifestOf task) "tasks/locale"
      setDefaultDependencies (fun _ => []) tasks
    (∀ task ∈ [localeTask.take 2, localeTask ++ [(.str "dependencies", .null)],
        (.str "cmd_type", .str "dummy") :: localeTask.drop 1],
      lintManifest wholeTree "tasks/locale" (manifestOf task) = .returned []) ∧
    run (localeTask.take 2) = .raised (.keyError "description") ∧
    run (localeTask ++ [(.str "dependencies", .null)]) = .raised .typeError ∧
    run ((.str "cmd_type", .str "dummy") :: localeTask.drop 1) = .raised (.attributeError "cmd_type") := by
  refine ⟨?_, rfl, rfl, rfl⟩
  simp only [List.forall_mem_cons]
  exact ⟨rfl, rfl, rfl, List.forall_mem_nil _⟩

end DistroSeed.Parsed
