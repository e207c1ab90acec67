import Mathlib.Data.List.Induction
import Mathlib.Logic.Function.Basic

/-! Named packages of files. Installing a package writes its files over what is there; if a
package of its name is installed already, the files that only the old one had are removed. -/

namespace PackageStore

/-- A package: its name, and the content of every path that it has. -/
structure Package (Name Path Content : Type*) where
  name : Name
  file : Path → Option Content

/-- The files that are there, and which of them belong to the installed packages. -/
structure Store (Name Path Content : Type*) where
  file : Path → Option Content
  owned : Name → Path → Bool

variable {Name Path Content : Type*}

/-- The content of a path in the last package that has it. -/
def latest (ps : List (Package Name Path Content)) (path : Path) : Option Content :=
  ps.foldl (fun found p => p.file path <|> found) none

theorem latest_append_singleton (ps : List (Package Name Path Content))
    (p : Package Name Path Content) (path : Path) :
    latest (ps ++ [p]) path = (p.file path <|> latest ps path) := by
  simp [latest]

variable [DecidableEq Name]

def Store.install (s : Store Name Path Content) (p : Package Name Path Content) :
    Store Name Path Content where
  file path :=
    match p.file path with
    | some content => some content
    | none => if s.owned p.name path then none else s.file path
  owned := Function.update s.owned p.name fun path => (p.file path).isSome

/-- One package after another. -/
def installAll (s : Store Name Path Content) (ps : List (Package Name Path Content)) :
    Store Name Path Content :=
  ps.foldl Store.install s

/-- The last package of the name has the path; without such a package, the one that was
installed before them. -/
def lastHas (owned : Name → Path → Bool) (ps : List (Package Name Path Content)) (name : Name)
    (path : Path) : Bool :=
  match (ps.filter (·.name = name)).getLast? with
  | some p => (p.file path).isSome
  | none => owned name path

/-- Where a package takes the place of one that has the path, it has the path itself, or a
package after it has. -/
def Survives (owned : Name → Path → Bool) (ps : List (Package Name Path Content))
    (path : Path) : Prop :=
  ∀ before p after, ps = before ++ p :: after → lastHas owned before p.name path →
    ∃ q ∈ p :: after, (q.file path).isSome

variable {s : Store Name Path Content} {ps : List (Package Name Path Content)} {path : Path}

theorem install_file_of_some {p : Package Name Path Content} {content : Content}
    (h : p.file path = some content) : (s.install p).file path = some content := by
  simp only [Store.install, h]

theorem install_file_of_none {p : Package Name Path Content} (h : p.file path = none) :
    (s.install p).file path = if s.owned p.name path then none else s.file path := by
  simp only [Store.install, h]

@[simp] theorem installAll_nil : installAll s ([] : List (Package Name Path Content)) = s := rfl

@[simp] theorem installAll_append_singleton (p : Package Name Path Content) :
    installAll s (ps ++ [p]) = (installAll s ps).install p := by
  simp [installAll]

theorem lastHas_append_singleton (owned : Name → Path → Bool) (p : Package Name Path Content)
    (name : Name) :
    lastHas owned (ps ++ [p]) name path =
      if p.name = name then (p.file path).isSome else lastHas owned ps name path := by
  by_cases hname : p.name = name <;> simp [lastHas, List.filter_append, hname]

/-- What is recorded of a name is its last package. -/
theorem owned_installAll (s : Store Name Path Content) (ps : List (Package Name Path Content))
    (name : Name) (path : Path) :
    (installAll s ps).owned name path = lastHas s.owned ps name path := by
  induction ps using List.reverseRecOn with
  | nil => rfl
  | append_singleton ps p ih =>
      rw [installAll_append_singleton, lastHas_append_singleton, Store.install]
      by_cases hname : p.name = name
      · subst hname
        simp
      · have hother : name ≠ p.name := fun h => hname h.symm
        simp only [Function.update_of_ne hother, if_neg hname, ih]

/-! ## What survives -/

@[simp] theorem survives_nil (owned : Name → Path → Bool) (path : Path) :
    Survives owned ([] : List (Package Name Path Content)) path := by
  intro before p after h
  simp at h

/-- A package that has the path makes up for every loss before it. -/
theorem survives_append_of_isSome (owned : Name → Path → Bool) {p : Package Name Path Content}
    (h : (p.file path).isSome) : Survives owned (ps ++ [p]) path := by
  intro before q after hsplit _
  have hmem : p ∈ q :: after := by
    rcases List.eq_nil_or_concat after with rfl | ⟨front, last, rfl⟩
    · obtain ⟨_, hlast⟩ := List.append_inj' hsplit rfl
      simpa using hlast
    · rw [List.concat_eq_append, ← List.cons_append, ← List.append_assoc] at hsplit
      obtain ⟨_, hlast⟩ := List.append_inj' hsplit rfl
      obtain ⟨rfl, _⟩ := List.cons.inj hlast
      simp
  exact ⟨p, hmem, h⟩

/-- A package without the path must not take the place of one that has it. -/
theorem survives_append_of_none (owned : Name → Path → Bool) {p : Package Name Path Content}
    (h : p.file path = none) :
    Survives owned (ps ++ [p]) path ↔ Survives owned ps path ∧ ¬ lastHas owned ps p.name path := by
  constructor
  · intro hall
    constructor
    · intro before q after hsplit hlast
      obtain ⟨r, hr, hfile⟩ := hall before q (after ++ [p]) (by simp [hsplit]) hlast
      rw [← List.cons_append, List.mem_append, List.mem_singleton] at hr
      rcases hr with hr | rfl
      · exact ⟨r, hr, hfile⟩
      · simp [h] at hfile
    · intro hlast
      obtain ⟨r, hr, hfile⟩ := hall ps p [] rfl hlast
      rw [List.mem_singleton.mp hr, h] at hfile
      cases hfile
  · intro hall before q after hsplit hlast
    rcases List.eq_nil_or_concat after with rfl | ⟨front, last, rfl⟩
    · obtain ⟨rfl, hq⟩ := List.append_inj' hsplit rfl
      obtain ⟨rfl, _⟩ := List.cons.inj hq
      exact absurd hlast hall.2
    · rw [List.concat_eq_append, ← List.cons_append, ← List.append_assoc] at hsplit
      obtain ⟨rfl, _⟩ := List.append_inj' hsplit rfl
      obtain ⟨r, hr, hfile⟩ := hall.1 before q front rfl hlast
      refine ⟨r, ?_, hfile⟩
      rw [List.concat_eq_append, ← List.cons_append]
      exact List.mem_append_left _ hr

/-- Packages of different names, none of them installed before, replace nothing. -/
theorem survives_of_nodup {owned : Name → Path → Bool} (hnames : (ps.map Package.name).Nodup)
    (howned : ∀ p ∈ ps, ¬ owned p.name path) : Survives owned ps path := by
  intro before p after hsplit hlast
  subst hsplit
  have hnone : before.filter (·.name = p.name) = [] := by
    rw [List.filter_eq_nil_iff]
    intro q hq hname
    rw [List.map_append, List.nodup_append] at hnames
    have hne := hnames.2.2 q.name (List.mem_map_of_mem hq) p.name (by simp)
    exact hne (by simpa using hname)
  rw [lastHas, hnone] at hlast
  exact absurd hlast (howned p (by simp))

/-- The path ends up with the content of the last package that has it (or with what it had
before all of them) exactly if it survives the replacements. -/
theorem file_installAll_iff (s : Store Name Path Content)
    (ps : List (Package Name Path Content)) (path : Path) (content : Content) :
    (installAll s ps).file path = some content ↔
      (latest ps path <|> s.file path) = some content ∧ Survives s.owned ps path := by
  induction ps using List.reverseRecOn with
  | nil => simp [latest]
  | append_singleton ps p ih =>
      rw [installAll_append_singleton, latest_append_singleton]
      cases hfile : p.file path with
      | some c =>
          have hsurvives : Survives s.owned (ps ++ [p]) path :=
            survives_append_of_isSome s.owned (by simp [hfile])
          rw [install_file_of_some hfile]
          simp [hsurvives]
      | none =>
          rw [install_file_of_none hfile, survives_append_of_none s.owned hfile, owned_installAll]
          by_cases hlast : lastHas s.owned ps p.name path
          · simp [hlast]
          · simpa [hlast] using ih

end PackageStore
