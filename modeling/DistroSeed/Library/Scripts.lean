import Mathlib.Logic.Relation
import Mathlib.Data.Nat.Notation

/-! Scripts as lists of commands that can end between any two of them, and an invariant rule
for runs of scripts. A command may call further commands; one that fails ends the script. -/

namespace Scripts

open Relation

variable {σ κ : Type*}

/-- A language of commands. -/
structure Language (σ κ : Type*) where
  /-- The state behind a command that succeeds and the commands that it calls, or nothing if
  it cannot succeed. -/
  run : κ → σ → Option (σ × List κ)
  /-- What a command that fails half-way may leave behind. -/
  Fails : κ → σ → σ → Prop

/-- A state and what the current script has still to do. -/
structure Config (σ κ : Type*) where
  state : σ
  script : List κ

/-- The runs of interest: which scripts are started in which state, what happens between
scripts, and in which states a command may be run and a script may be cut short. -/
structure Scenario (σ κ : Type*) where
  lang : Language σ κ
  Start : List κ → σ → Prop
  Change : σ → σ → Prop
  MayRun : κ → σ → Prop
  MayStop : List κ → σ → Prop

inductive Step (sc : Scenario σ κ) : Config σ κ → Config σ κ → Prop where
  | start {script s} : sc.Start script s → Step sc ⟨s, []⟩ ⟨s, script⟩
  | change {s s'} : sc.Change s s' → Step sc ⟨s, []⟩ ⟨s', []⟩
  | next {cmd rest s s' calls} : sc.MayRun cmd s → sc.lang.run cmd s = some (s', calls) →
      Step sc ⟨s, cmd :: rest⟩ ⟨s', calls ++ rest⟩
  | stop {cmd rest s} : sc.MayStop (cmd :: rest) s → Step sc ⟨s, cmd :: rest⟩ ⟨s, []⟩
  | fail {cmd rest s s'} : sc.lang.Fails cmd s s' → Step sc ⟨s, cmd :: rest⟩ ⟨s', []⟩

/-- What runs from a state lead to, between scripts or within one. -/
def Reaches (sc : Scenario σ κ) (s : σ) (c : Config σ κ) : Prop := ReflTransGen (Step sc) ⟨s, []⟩ c

/-! ## Scripts that keep an invariant -/

/-- However the script ends, the invariant holds behind it, and every command that it gets to is
run in a state that meets the guard of the command. -/
inductive Keeps (sc : Scenario σ κ) (inv : σ → Prop) (guard : κ → σ → Prop) : List κ → σ → Prop where
  | nil {s} : inv s → Keeps sc inv guard [] s
  | cons {cmd rest s} : guard cmd s → (sc.MayStop (cmd :: rest) s → inv s) →
      (∀ s', sc.lang.Fails cmd s s' → inv s') →
      (∀ s' calls, sc.MayRun cmd s → sc.lang.run cmd s = some (s', calls) →
        Keeps sc inv guard (calls ++ rest) s') → Keeps sc inv guard (cmd :: rest) s

section Invariant

variable {sc : Scenario σ κ} {inv : σ → Prop} {guard : κ → σ → Prop}

/-- A command that is known to succeed. -/
theorem Keeps.of_run {cmd : κ} {rest calls : List κ} {s s' : σ}
    (hrun : sc.lang.run cmd s = some (s', calls)) (hguard : guard cmd s)
    (hstop : sc.MayStop (cmd :: rest) s → inv s) (hfails : ∀ s', sc.lang.Fails cmd s s' → inv s')
    (hnext : sc.MayRun cmd s → Keeps sc inv guard (calls ++ rest) s') :
    Keeps sc inv guard (cmd :: rest) s := by
  refine .cons hguard hstop hfails ?_
  intro s'' calls' hmay hrun'
  rw [hrun] at hrun'
  obtain ⟨rfl, rfl⟩ := Prod.mk.inj (Option.some.inj hrun')
  exact hnext hmay

/-- A command that is known not to succeed. -/
theorem Keeps.of_stuck {cmd : κ} {rest : List κ} {s : σ} (hrun : sc.lang.run cmd s = none)
    (hguard : guard cmd s) (hstop : sc.MayStop (cmd :: rest) s → inv s)
    (hfails : ∀ s', sc.lang.Fails cmd s s' → inv s') : Keeps sc inv guard (cmd :: rest) s := by
  refine .cons hguard hstop hfails ?_
  intro s' calls _ hrun'
  rw [hrun] at hrun'
  cases hrun'

theorem Keeps.step {c c' : Config σ κ}
    (hstart : ∀ script s, inv s → sc.Start script s → Keeps sc inv guard script s)
    (hchange : ∀ s s', inv s → sc.Change s s' → inv s')
    (h : Keeps sc inv guard c.script c.state) (hstep : Step sc c c') :
    Keeps sc inv guard c'.script c'.state := by
  cases hstep with
  | start hscript =>
      cases h with
      | nil hinv => exact hstart _ _ hinv hscript
  | change hs =>
      cases h with
      | nil hinv => exact .nil (hchange _ _ hinv hs)
  | next hmay hrun =>
      cases h with
      | cons _ _ _ hnext => exact hnext _ _ hmay hrun
  | stop hstop =>
      cases h with
      | cons _ hinv _ _ => exact .nil (hinv hstop)
  | fail hfails =>
      cases h with
      | cons _ _ hinv _ => exact .nil (hinv _ hfails)

/-- Scripts that keep the invariant keep it over whole runs. -/
theorem Reaches.keeps {s : σ} {c : Config σ κ} (h : Reaches sc s c)
    (hstart : ∀ script s, inv s → sc.Start script s → Keeps sc inv guard script s)
    (hchange : ∀ s s', inv s → sc.Change s s' → inv s') (hinv : inv s) :
    Keeps sc inv guard c.script c.state := by
  induction h with
  | refl => exact .nil hinv
  | tail _ hstep ih => exact ih.step hstart hchange hstep

/-- Every command of a run meets its guard. -/
theorem Reaches.meets_guard {s : σ} {c : Config σ κ} (h : Reaches sc s c) (inv : σ → Prop)
    (guard : κ → σ → Prop)
    (hstart : ∀ script s, inv s → sc.Start script s → Keeps sc inv guard script s)
    (hchange : ∀ s s', inv s → sc.Change s s' → inv s') (hinv : inv s) {cmd : κ} {rest : List κ}
    (hscript : c.script = cmd :: rest) : guard cmd c.state := by
  have hkeeps := h.keeps hstart hchange hinv
  rw [hscript] at hkeeps
  cases hkeeps with
  | cons hguard _ _ _ => exact hguard

end Invariant

/-! ## Runs on given inputs -/

/-- The next `n` commands, up to the first one that cannot succeed. -/
def runFor (lang : Language σ κ) : ℕ → Config σ κ → Config σ κ
  | n + 1, ⟨s, cmd :: rest⟩ =>
      match lang.run cmd s with
      | some (s', calls) => runFor lang n ⟨s', calls ++ rest⟩
      | none => ⟨s, cmd :: rest⟩
  | _, c => c

theorem reflTransGen_runFor {sc : Scenario σ κ} (n : ℕ) (c : Config σ κ)
    (hmay : ∀ k < n, ∀ cmd rest, (runFor sc.lang k c).script = cmd :: rest →
      sc.MayRun cmd (runFor sc.lang k c).state) :
    ReflTransGen (Step sc) c (runFor sc.lang n c) := by
  induction n generalizing c with
  | zero => exact .refl
  | succ n ih =>
      obtain ⟨s, script⟩ := c
      cases script with
      | nil => exact .refl
      | cons cmd rest =>
          cases hrun : sc.lang.run cmd s with
          | none =>
              simp only [runFor, hrun]
              exact .refl
          | some next =>
              obtain ⟨s', calls⟩ := next
              have hnext : ∀ k, runFor sc.lang (k + 1) ⟨s, cmd :: rest⟩ =
                  runFor sc.lang k ⟨s', calls ++ rest⟩ := by
                intro k
                simp only [runFor, hrun]
              have hfirst : sc.MayRun cmd s := hmay 0 (Nat.succ_pos n) cmd rest (by simp [runFor])
              rw [hnext]
              refine .head (.next hfirst hrun) (ih _ ?_)
              intro k hk
              have := hmay (k + 1) (Nat.succ_lt_succ hk)
              rwa [hnext] at this

/-- A script is started and its first `n` commands succeed. -/
theorem Reaches.startFor {sc : Scenario σ κ} {s₀ s : σ} {script : List κ} (h : Reaches sc s₀ ⟨s, []⟩)
    (hstart : sc.Start script s) (n : ℕ)
    (hmay : ∀ k < n, ∀ cmd rest, (runFor sc.lang k ⟨s, script⟩).script = cmd :: rest →
      sc.MayRun cmd (runFor sc.lang k ⟨s, script⟩).state) :
    Reaches sc s₀ (runFor sc.lang n ⟨s, script⟩) :=
  (h.tail (.start hstart)).trans (reflTransGen_runFor n _ hmay)

end Scripts
