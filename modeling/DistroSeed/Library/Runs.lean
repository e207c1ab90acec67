import Mathlib.Data.List.Basic

/-! Runs of a step function on events, conditions on the steps of a run, and what follows for the
states that it reaches. -/

namespace Runs

variable {σ ε : Type*} (step : σ → ε → Option σ)

/-- What the events lead to, if they can happen in this order. -/
def run (s : σ) (events : List ε) : Option σ := events.foldlM step s

/-- Every step of the run meets a condition on the state before it and on the event. -/
def Along (may : σ → ε → Prop) : σ → List ε → Prop
  | _, [] => True
  | s, event :: rest => may s event ∧ ∀ s', step s event = some s' → Along may s' rest

section Basic

variable {step} {may : σ → ε → Prop} {s s' s'' : σ} {event : ε} {events rest : List ε}

@[simp] theorem run_nil (s : σ) : run step s [] = some s := rfl

theorem run_cons_eq_some :
    run step s (event :: rest) = some s'' ↔ ∃ s', step s event = some s' ∧
      run step s' rest = some s'' := by
  rw [run, List.foldlM_cons]
  exact Option.bind_eq_some_iff

theorem run_append (h : run step s events = some s') :
    run step s (events ++ rest) = run step s' rest := by
  rw [run, List.foldlM_append]
  exact congrArg (·.bind fun s' => rest.foldlM step s') h

@[simp] theorem along_nil (s : σ) : Along step may s [] := trivial

theorem along_cons (h : step s event = some s') :
    Along step may s (event :: rest) ↔ may s event ∧ Along step may s' rest := by
  rw [Along]
  constructor
  · exact fun ⟨hmay, hrest⟩ => ⟨hmay, hrest s' h⟩
  · rintro ⟨hmay, hrest⟩
    refine ⟨hmay, fun other hother => ?_⟩
    rw [h] at hother
    obtain rfl := Option.some.inj hother
    exact hrest

/-- Events that meet the condition in every state. -/
theorem along_of_forall (h : ∀ event ∈ events, ∀ s, may s event) (s : σ) :
    Along step may s events := by
  induction events generalizing s with
  | nil => trivial
  | cons event events ih =>
      obtain ⟨hevent, hevents⟩ := List.forall_mem_cons.mp h
      exact ⟨hevent s, fun s' _ => ih hevents s'⟩

/-- What the steps keep that meet the condition holds after every run of such steps. -/
theorem invariant_along (inv : σ → Prop)
    (hstep : ∀ s event s', inv s → may s event → step s event = some s' → inv s')
    (hrun : run step s events = some s') (halong : Along step may s events) (h : inv s) :
    inv s' := by
  induction events generalizing s with
  | nil =>
      obtain rfl := Option.some.inj hrun
      exact h
  | cons event events ih =>
      obtain ⟨next, hnext, hrest⟩ := run_cons_eq_some.mp hrun
      obtain ⟨hmay, halong⟩ := (along_cons hnext).mp halong
      exact ih hrest halong (hstep s event next h hmay hnext)

/-- What all steps keep holds after every run. -/
theorem invariant (inv : σ → Prop)
    (hstep : ∀ s event s', inv s → step s event = some s' → inv s')
    (hrun : run step s events = some s') (h : inv s) : inv s' := by
  have halong : Along step (fun _ _ => True) s events := along_of_forall (fun _ _ _ => trivial) s
  exact invariant_along inv (fun s event s' hs _ hnext => hstep s event s' hs hnext) hrun halong h

/-- Where each step keeps a property if and only if it meets the condition, a run has kept it if and
only if all its steps met the condition. Runs that fail count for nothing. -/
theorem iff_along (good alive : σ → Prop)
    (halive : ∀ s event s', step s event = some s' → alive s' → alive s)
    (hstep : ∀ s event s', step s event = some s' → alive s' → (good s' ↔ good s ∧ may s event))
    (hrun : run step s events = some s') (hs' : alive s') :
    alive s ∧ (good s' ↔ good s ∧ Along step may s events) := by
  induction events generalizing s with
  | nil =>
      obtain rfl := Option.some.inj hrun
      exact ⟨hs', by simp⟩
  | cons event events ih =>
      obtain ⟨next, hnext, hrest⟩ := run_cons_eq_some.mp hrun
      obtain ⟨hnextAlive, hgood⟩ := ih hrest
      refine ⟨halive s event next hnext hnextAlive, ?_⟩
      rw [hgood, hstep s event next hnext hnextAlive, along_cons hnext, and_assoc]

end Basic

end Runs
