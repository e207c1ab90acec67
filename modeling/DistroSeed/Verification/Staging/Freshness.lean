import DistroSeed.Model.Staging

/-! When a task in the VM finds the staging directory of a config as the host left it. -/

namespace DistroSeed

open Staging TaskRun

variable {Content Archive : Type*} {tar : Tar Content Archive} {config : String}

/-! ## What a run does to one config -/

/-- The directory of one config in the VM after the loop over the archives. -/
theorem foldl_syncArchive (archives : List (Sigma fun _ : String => Archive))
    (vm : String → Option (Directory Content)) :
    archives.foldl (syncArchive tar) vm config =
      (vm config <|> (archives.dlookup config).map tar.extract) := by
  induction archives generalizing vm with
  | nil => simp
  | cons archive archives ih =>
      obtain ⟨name, data⟩ := archive
      rw [List.foldl_cons, ih, syncArchive]
      by_cases hname : name = config
      · subst hname
        cases hvm : vm name <;> simp [hvm]
      · have hother : config ≠ name := fun h => hname h.symm
        have htail : List.dlookup config (⟨name, data⟩ :: archives) =
            archives.dlookup config := List.dlookup_cons_ne _ _ hother
        rw [htail]
        cases vm name <;> simp [Function.update_of_ne hother]

theorem syncStaging_vm (s : Staging Content Archive) :
    (s.syncStaging tar).vm config =
      (s.vm config <|> (s.archives.lookup config).map tar.extract) :=
  foldl_syncArchive s.archives.entries s.vm

/-- The directory of one config where a command starts. -/
theorem commandStart_vm (r : TaskRun Content) (s : Staging Content Archive) :
    (r.commandStart tar s).vm config =
      (s.vm config <|> (s.archives.lookup config).map tar.extract <|>
        if r.config = config then some ∅ else none) := by
  by_cases hconfig : r.config = config
  · subst hconfig
    simp only [commandStart, makeTaskWork, Function.update_self, syncStaging_vm, if_pos]
    cases s.vm r.config with
    | some tree => rfl
    | none => cases s.archives.lookup r.config <;> rfl
  · have hother : config ≠ r.config := fun h => hconfig h.symm
    simp only [commandStart, makeTaskWork, Function.update_of_ne hother, syncStaging_vm,
      if_neg hconfig]
    cases s.vm config with
    | some tree => rfl
    | none => cases s.archives.lookup config <;> rfl

/-- The task writes the config's directory: on the host by running there at all, in the VM by
leaving the directory different from how its command has found it. -/
def Writes (tar : Tar Content Archive) (config : String) (r : TaskRun Content)
    (s : Staging Content Archive) : Prop :=
  (r.cmdType.isHostSide ∧ r.config = config) ∨
    (r.cmdType.isInVm ∧
      r.inVm (r.commandStart tar s).vm config ≠ (r.commandStart tar s).vm config)

/-- No task of a run of tasks writes the config's directory. -/
def Unwritten (tar : Tar Content Archive) (config : String) :
    List (TaskRun Content) → Staging Content Archive → Prop
  | [], _ => True
  | r :: runs, s => ¬ Writes tar config r s ∧ Unwritten tar config runs (r.run tar s)

theorem run_of_isHostSide {r : TaskRun Content} (h : r.cmdType.isHostSide)
    (s : Staging Content Archive) :
    r.run tar s = stageHostStaging tar r.config
      { s with host := Function.update s.host r.config (r.onHost (s.host r.config)) } := by
  obtain ⟨config, cmdType, onHost, inVm⟩ := r
  cases cmdType <;> first | rfl | cases h

theorem run_of_isInVm {r : TaskRun Content} (h : r.cmdType.isInVm) (s : Staging Content Archive) :
    r.run tar s = { r.commandStart tar s with vm := r.inVm (r.commandStart tar s).vm } := by
  obtain ⟨config, cmdType, onHost, inVm⟩ := r
  cases cmdType <;> first | rfl | cases h

theorem run_of_neither {r : TaskRun Content} (hhost : ¬ r.cmdType.isHostSide)
    (hvm : ¬ r.cmdType.isInVm) (s : Staging Content Archive) : r.run tar s = s := by
  obtain ⟨config, cmdType, onHost, inVm⟩ := r
  cases cmdType <;> first | rfl | exact absurd rfl hhost | exact absurd rfl hvm

/-- What a task leaves of a config that it does not write. -/
theorem run_of_not_writes {r : TaskRun Content} {s : Staging Content Archive}
    (h : ¬ Writes tar config r s) :
    (r.run tar s).archives.lookup config = s.archives.lookup config ∧
      ((r.run tar s).vm config = s.vm config ∨
        (r.run tar s).vm config = (r.commandStart tar s).vm config) := by
  obtain ⟨hhost, hvm⟩ := not_or.mp h
  by_cases hside : r.cmdType.isHostSide
  · have hconfig : config ≠ r.config := fun heq => hhost ⟨hside, heq.symm⟩
    rw [run_of_isHostSide hside, stageHostStaging]
    split
    · exact ⟨rfl, Or.inl rfl⟩
    · exact ⟨AList.lookup_insert_ne hconfig, Or.inl rfl⟩
  · by_cases hin : r.cmdType.isInVm
    · have hkeep : r.inVm (r.commandStart tar s).vm config = (r.commandStart tar s).vm config := by
        by_contra hne
        exact hvm ⟨hin, hne⟩
      rw [run_of_isInVm hin]
      exact ⟨rfl, Or.inr hkeep⟩
    · rw [run_of_neither hside hin]
      exact ⟨rfl, Or.inl rfl⟩

/-! ## A directory that exists in the VM -/

theorem commandStart_vm_of_some {r : TaskRun Content} {s : Staging Content Archive}
    {tree : Directory Content} (h : s.vm config = some tree) :
    (r.commandStart tar s).vm config = some tree := by
  rw [commandStart_vm, h]
  rfl

theorem run_vm_of_some {r : TaskRun Content} {s : Staging Content Archive}
    {tree : Directory Content} (h : s.vm config = some tree) (hnot : ¬ Writes tar config r s) :
    (r.run tar s).vm config = some tree := by
  rcases (run_of_not_writes hnot).2 with hvm | hvm
  · rw [hvm, h]
  · rw [hvm, commandStart_vm_of_some h]

/-- What exists in the VM stays as it is until a task in the VM writes it. -/
theorem runAll_vm_of_some {runs : List (TaskRun Content)} {s : Staging Content Archive}
    {tree : Directory Content} (h : s.vm config = some tree)
    (hnot : Unwritten tar config runs s) : (runAll tar runs s).vm config = some tree := by
  induction runs generalizing s with
  | nil => exact h
  | cons r runs ih => exact ih (run_vm_of_some h hnot.1) hnot.2

/-! ## A directory that is yet to be made there -/

/-- The VM has the tree, or gets it with the next task that runs there. -/
structure Fresh (tar : Tar Content Archive) (config : String) (tree : Directory Content)
    (s : Staging Content Archive) : Prop where
  start : ∀ r : TaskRun Content, ((r.commandStart tar s).vm config).getD ∅ = tree
  exist : ∀ other, s.vm config = some other → other = tree

theorem fresh_of_some {s : Staging Content Archive} {tree : Directory Content}
    (h : s.vm config = some tree) : Fresh tar config tree s where
  start r := by rw [commandStart_vm_of_some h, Option.getD_some]
  exist other hother := Option.some.inj (hother.symm.trans h)

theorem fresh_of_none {s : Staging Content Archive} {tree : Directory Content}
    (h : s.vm config = none)
    (harchive : s.archives.lookup config = some (tar.create tree) ∨
      (s.archives.lookup config = none ∧ tree = ∅)) : Fresh tar config tree s where
  start r := by
    rw [commandStart_vm, h]
    rcases harchive with hsome | ⟨hnone, rfl⟩
    · simp [hsome, tar.extract_create]
    · rw [hnone]
      by_cases hconfig : r.config = config <;> simp [hconfig]
  exist other hother := by
    rw [h] at hother
    cases hother

/-- A task that does not write the config keeps the tree fresh. -/
theorem Fresh.run {r : TaskRun Content} {s : Staging Content Archive} {tree : Directory Content}
    (h : Fresh tar config tree s) (hnot : ¬ Writes tar config r s) :
    Fresh tar config tree (r.run tar s) := by
  obtain ⟨harchives, hvm⟩ := run_of_not_writes hnot
  cases hrun : (r.run tar s).vm config with
  | some other =>
      rcases hvm with hvm | hvm
      · have hother : other = tree := h.exist other (by rw [← hvm, hrun])
        exact fresh_of_some (hother ▸ hrun)
      · have hother : other = tree := by
          rw [← h.start r, ← hvm, hrun, Option.getD_some]
        exact fresh_of_some (hother ▸ hrun)
  | none =>
      refine ⟨fun r' => ?_, fun other hother => absurd hother (by simp [hrun])⟩
      have hnone : s.vm config = none := by
        cases hs : s.vm config with
        | none => rfl
        | some other => rw [run_vm_of_some hs hnot] at hrun; cases hrun
      rw [← h.start r', commandStart_vm, commandStart_vm, hrun, hnone, harchives]

theorem Fresh.runAll {runs : List (TaskRun Content)} {s : Staging Content Archive}
    {tree : Directory Content} (h : Fresh tar config tree s)
    (hnot : Unwritten tar config runs s) : Fresh tar config tree (runAll tar runs s) := by
  induction runs generalizing s with
  | nil => exact h
  | cons r runs ih => exact ih (h.run hnot.1) hnot.2

/-- A task on the host that leaves files, or whose config never had any, hands its tree over
if the VM has no directory for the config yet. -/
theorem fresh_of_isHostSide {r : TaskRun Content} (hside : r.cmdType.isHostSide)
    {s : Staging Content Archive} (hvm : s.vm r.config = none)
    (hfiles : ((r.run tar s).host r.config).hasEntries ∨ s.archives.lookup r.config = none) :
    Fresh tar r.config ((r.run tar s).host r.config) (r.run tar s) := by
  rw [run_of_isHostSide hside, stageHostStaging] at hfiles ⊢
  split at hfiles
  · rename_i hempty
    rw [if_pos hempty]
    have hnot : ¬ (Function.update s.host r.config (r.onHost (s.host r.config))
        r.config).hasEntries := by simpa using hempty
    apply fresh_of_none
    · exact hvm
    · refine Or.inr ⟨?_, Directory.eq_empty_of_not_hasEntries hnot⟩
      exact hfiles.resolve_left hnot
  · rename_i hentries
    rw [if_neg hentries]
    apply fresh_of_none
    · exact hvm
    · exact Or.inl (AList.lookup_insert _)

/-! ## Whole builds -/

theorem runAll_append (earlier later : List (TaskRun Content)) (s : Staging Content Archive) :
    runAll tar (earlier ++ later) s = runAll tar later (runAll tar earlier s) :=
  List.foldl_append

/-- What a vm or cross task finds of a config that was last written by a task on the host: the
tree which that task left, if the VM had no directory for the config at that time; otherwise
the directory that the VM had. -/
theorem commandStart_of_last_write (tar : Tar Content Archive)
    (earlier later : List (TaskRun Content)) {last : TaskRun Content}
    (hlast : last.cmdType.isHostSide)
    (hlater : Unwritten tar last.config later (runAll tar (earlier ++ [last]) start))
    (r : TaskRun Content) :
    let before := runAll tar earlier start
    let left := (last.run tar before).host last.config
    let found := (r.commandStart tar (runAll tar (earlier ++ last :: later) start)).vm last.config
    (before.vm last.config = none →
        left.hasEntries ∨ before.archives.lookup last.config = none → found.getD ∅ = left) ∧
      ∀ tree, before.vm last.config = some tree → found = some tree := by
  intro before left found
  have hruns : runAll tar (earlier ++ last :: later) start =
      runAll tar later (last.run tar before) := runAll_append earlier (last :: later) start
  have hunwritten : Unwritten tar last.config later (last.run tar before) := by
    rwa [runAll_append] at hlater
  constructor
  · intro hvm hfiles
    have hfresh := (fresh_of_isHostSide hlast hvm hfiles).runAll hunwritten
    rw [← hruns] at hfresh
    exact hfresh.start r
  · intro tree hvm
    have hkept : (last.run tar before).vm last.config = some tree := by
      rw [run_of_isHostSide hlast, stageHostStaging]
      split <;> exact hvm
    have hstays := runAll_vm_of_some hkept hunwritten
    rw [← hruns] at hstays
    exact commandStart_vm_of_some hstays

/-! ## A config that is fetched twice -/

/-- A directory with one file. -/
def oneFile (content : String) : Directory String := ⟨Finmap.singleton ["source.c"] content, ∅⟩

/-- A task on the host that leaves one file. -/
def fetch (content : String) : TaskRun String := ⟨"DS_KERNEL", .host, fun _ => oneFile content, id⟩

/-- A task in the VM that writes no staging directory. -/
def buildRun : TaskRun String := ⟨"DS_COMPONENT", .cross, id, id⟩

/-- The first task in the VM finds what was fetched last before it. -/
theorem commandStart_of_last_write_fetch :
    ((buildRun.commandStart (Tar.plain String)
      (runAll (Tar.plain String) ([fetch "1"] ++ fetch "2" :: [buildRun]) start)).vm "DS_KERNEL").getD ∅ =
        oneFile "2" :=
  (commandStart_of_last_write (Tar.plain String) [fetch "1"] [buildRun] rfl
    (And.intro (by simp [Writes, buildRun, CmdType.isHostSide]) trivial) buildRun).1 rfl
    (Or.inl rfl)

/-- What is fetched again after a task in the VM has started stays on the host. -/
theorem commandStart_stale :
    let s := runAll (Tar.plain String) [fetch "1", buildRun, fetch "2"] start
    (buildRun.commandStart (Tar.plain String) s).vm "DS_KERNEL" = some (oneFile "1") ∧
      s.host "DS_KERNEL" = oneFile "2" ∧ oneFile "1" ≠ oneFile "2" := by
  decide +kernel

end DistroSeed
