import DistroSeed.Model.LocalPackages
import DistroSeed.Verification.Scheduler.DeclaredGraph

/-! The package inputs of a build: one for each task with an overlay, and listed in any order
they are taken in the order of the schedule. -/

namespace DistroSeed

open KeySort PackageStore

variable {Content Archive : Type} {tar : Tar Content Archive}
  {output : Task → TaskOutput Content}

/-! ## Names -/

theorem takeWhile_isDigit (n : ℕ) (rest : List Char) :
    (Nat.toDigits 10 n ++ '-' :: rest).takeWhile Char.isDigit = Nat.toDigits 10 n := by
  have hdigits : ∀ c ∈ Nat.toDigits 10 n, c.isDigit := fun c hc =>
    Nat.isDigit_of_mem_toDigits (by decide) (by decide) hc
  rw [List.takeWhile_append_of_pos hdigits]
  simp

theorem dropWhile_isDigit (n : ℕ) (rest : List Char) :
    (Nat.toDigits 10 n ++ '-' :: rest).dropWhile Char.isDigit = '-' :: rest := by
  have hdigits : ∀ c ∈ Nat.toDigits 10 n, c.isDigit := fun c hc =>
    Nat.isDigit_of_mem_toDigits (by decide) (by decide) hc
  rw [List.dropWhile_append_of_pos hdigits]
  simp

/-- The key of a name is the number that it starts with. -/
theorem packageSortKey_eq {name : String} {n : ℕ} {rest : List Char}
    (h : name.toList = Nat.toDigits 10 n ++ '-' :: rest) : packageSortKey name = n := by
  have hvalue : Nat.ofDigitChars 10 (Nat.toDigits 10 n) 0 = n := Nat.ofDigitChars_ten_toDigits
  rw [packageSortKey, h, takeWhile_isDigit, dropWhile_isDigit]
  cases hdigits : Nat.toDigits 10 n with
  | nil => exact absurd hdigits Nat.toDigits_ne_nil
  | cons digit digits => rwa [hdigits] at hvalue

theorem toList_packageInputName (task : Task) :
    task.packageInputName.toList = Nat.toDigits 10 task.id ++ '-' :: task.config.toList := by
  simp [Task.packageInputName, Nat.toString_eq_repr, Nat.toList_repr]

theorem packageSortKey_packageInputName (task : Task) :
    packageSortKey task.packageInputName = task.id :=
  packageSortKey_eq (toList_packageInputName task)

theorem packageSortKey_fileName (task : Task) :
    packageSortKey (task.packageInputName ++ ".deb") = task.id := by
  have hname : (task.packageInputName ++ ".deb").toList =
      Nat.toDigits 10 task.id ++ '-' :: (task.config.toList ++ ".deb".toList) := by
    simp [toList_packageInputName]
  exact packageSortKey_eq hname

/-- The name of a package is that of its config: the number of the task is gone. -/
theorem packageName_packageInputName (task : Task) :
    packageName task.packageInputName =
      "distro-seed-" ++ String.ofList (cleanName task.config.toList) := by
  rw [packageName, toList_packageInputName, stripNumber, takeWhile_isDigit, dropWhile_isDigit]
  cases hdigits : Nat.toDigits 10 task.id with
  | nil => exact absurd hdigits Nat.toDigits_ne_nil
  | cons digit digits => rfl

/-! ## Staging -/

/-- The task leaves something that a package is made of. -/
def Task.stages (output : Task → TaskOutput Content) (task : Task) : Bool :=
  match task.cmdType with
  | .host => (output task).overlay.hasEntries || (output task).debian.hasEntries
  | .vm | .cross => (output task).overlay.hasEntries
  | .target | .dummy | .packagelist | .packagelistCross => false

/-- What it leaves. -/
def Task.packageInput (tar : Tar Content Archive) (output : Task → TaskOutput Content)
    (task : Task) : PackageInput Archive where
  name := task.packageInputName
  manifestVersion := task.manifestVersion
  pkgVersion := task.pkgVersion
  data := if (output task).overlay.hasEntries then some (tar.create (output task).overlay) else none
  debian := if (output task).debian.hasEntries then some (tar.create (output task).debian) else none

/-- The package inputs after one more task whose name is new. -/
theorem runPackaging_eq {inputs : List (PackageInput Archive)} {task : Task}
    (hnew : ∀ input ∈ inputs, input.name ≠ task.packageInputName) :
    Task.runPackaging tar output inputs task =
      inputs ++ if task.stages output then [task.packageInput tar output] else [] := by
  have hothers : inputs.filter (·.name ≠ task.packageInputName) = inputs := by
    rw [List.filter_eq_self]
    intro input hinput
    simpa using hnew input hinput
  rw [Task.runPackaging, hothers, Task.stages]
  cases task.cmdType with
  | host =>
      cases hoverlay : (output task).overlay.hasEntries <;>
        cases hdebian : (output task).debian.hasEntries <;>
        simp [stageHostPackageInput, Task.packageInput, hoverlay, hdebian]
  | vm | cross =>
      cases hoverlay : (output task).overlay.hasEntries <;>
        simp [stagePackageInput, Task.packageInput, hoverlay]
  | target | dummy | packagelist | packagelistCross => simp

/-- After a run of tasks the inputs are those of the tasks that stage one. -/
theorem packageInputs_eq {tasks : List Task} (hids : (tasks.map Task.id).Nodup) :
    packageInputs tar output tasks =
      (tasks.filter (Task.stages output)).map (Task.packageInput tar output) := by
  induction tasks using List.reverseRecOn with
  | nil => rfl
  | append_singleton tasks task ih =>
      rw [List.map_append, List.nodup_append] at hids
      obtain ⟨hids, _, hnew⟩ := hids
      rw [packageInputs, List.foldl_append, ← packageInputs, ih hids, List.foldl_cons,
        List.foldl_nil, runPackaging_eq]
      · by_cases hstages : task.stages output <;> simp [List.filter_append, hstages]
      · intro input hinput hname
        obtain ⟨other, hother, rfl⟩ := List.mem_map.mp hinput
        have hkey := congrArg packageSortKey hname
        rw [Task.packageInput, packageSortKey_packageInputName,
          packageSortKey_packageInputName] at hkey
        have hmem : other ∈ tasks := (List.mem_filter.mp hother).1
        exact hnew other.id (List.mem_map_of_mem hmem) task.id (by simp) hkey

/-! ## Order -/

/-- The tasks of a schedule that stage an input, in the order of their ids. -/
def stagingTasks (output : Task → TaskOutput Content) (tasks : List Task) : List Task :=
  (number tasks).filter (Task.stages output)

theorem pairwise_id_stagingTasks (output : Task → TaskOutput Content) (tasks : List Task) :
    (stagingTasks output tasks).Pairwise (·.id < ·.id) := by
  apply List.Pairwise.filter
  rw [← List.pairwise_map (f := Task.id) (R := (· < ·)), map_id_number]
  exact List.pairwise_lt_range'

theorem packageInputs_number (tar : Tar Content Archive) (output : Task → TaskOutput Content)
    (tasks : List Task) :
    packageInputs tar output (number tasks) =
      (stagingTasks output tasks).map (Task.packageInput tar output) :=
  packageInputs_eq (nodup_map_id_number tasks)

/-- `build-packages.sh` takes the inputs in the order of the schedule. -/
theorem sortedBy_packageInputs (tasks : List Task) {listed : List (PackageInput Archive)}
    (hlisted : listed.Perm (packageInputs tar output (number tasks))) :
    sortedBy (packageSortKey ·.name) listed =
      (stagingTasks output tasks).map (Task.packageInput tar output) := by
  rw [packageInputs_number] at hlisted
  apply sortedBy_eq_of_perm _ hlisted
  rw [List.pairwise_map]
  apply (pairwise_id_stagingTasks output tasks).imp
  intro task task' hlt
  simpa only [Task.packageInput, packageSortKey_packageInputName] using hlt

end DistroSeed
