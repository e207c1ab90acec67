import Mathlib.Data.List.Basic

/-! Outcomes of imperative code with exceptions and unbounded loops. A run that
has used up its fuel is `running`; a run that has ended either raised or returned. -/

inductive Outcome (ε α : Type*) where
  | running
  | raised (e : ε)
  | returned (a : α)
deriving DecidableEq, Repr

namespace Outcome

universe u v

variable {ε : Type u} {α β : Type v}

/-- Sequencing stops at the first step that has not returned. -/
protected def bind (x : Outcome ε α) (f : α → Outcome ε β) : Outcome ε β :=
  match x with
  | running => running
  | raised e => raised e
  | returned a => f a

instance : Monad (Outcome ε) where
  pure := returned
  bind := Outcome.bind

instance : LawfulMonad (Outcome ε) :=
  LawfulMonad.mk' _ (by intro _ x; cases x <;> rfl) (by intros; rfl)
    (by intro _ _ _ x _ _; cases x <;> rfl)

/-- The run has ended, whether normally or by an exception. -/
def Ended (x : Outcome ε α) : Prop := x ≠ running

@[simp] theorem pure_eq (a : α) : (pure a : Outcome ε α) = returned a := rfl

@[simp] theorem running_bind (f : α → Outcome ε β) :
    (running >>= f : Outcome ε β) = running := rfl

@[simp] theorem raised_bind (e : ε) (f : α → Outcome ε β) :
    (raised e >>= f : Outcome ε β) = raised e := rfl

@[simp] theorem returned_bind (a : α) (f : α → Outcome ε β) :
    (returned a >>= f : Outcome ε β) = f a := rfl

theorem bind_eq_returned {x : Outcome ε α} {f : α → Outcome ε β} {b : β} :
    x >>= f = returned b ↔ ∃ a, x = returned a ∧ f a = returned b := by
  cases x <;> simp

theorem bind_eq_raised {x : Outcome ε α} {f : α → Outcome ε β} {e : ε} :
    x >>= f = raised e ↔ x = raised e ∨ ∃ a, x = returned a ∧ f a = raised e := by
  cases x <;> simp

theorem bind_ended {x : Outcome ε α} {f : α → Outcome ε β} :
    (x >>= f).Ended ↔ x.Ended ∧ ∀ a, x = returned a → (f a).Ended := by
  cases x <;> simp [Ended]

/-- The same run with another name for what it raises. -/
def mapError {ε' : Type*} (f : ε → ε') : Outcome ε α → Outcome ε' α
  | running => running
  | raised e => raised (f e)
  | returned a => returned a

@[simp] theorem mapError_eq_returned {ε' : Type*} {f : ε → ε'} {x : Outcome ε α} {a : α} :
    x.mapError f = returned a ↔ x = returned a := by
  cases x <;> simp [mapError]

@[simp] theorem mapError_ended {ε' : Type*} {f : ε → ε'} {x : Outcome ε α} :
    (x.mapError f).Ended ↔ x.Ended := by
  cases x <;> simp [mapError, Ended]

theorem exists_mapError_eq_raised {ε' : Type*} {f : ε → ε'} {x : Outcome ε α} :
    (∃ e, x.mapError f = raised e) ↔ ∃ e, x = raised e := by
  cases x <;> simp [mapError]

/-! ## Loops -/

/-- A loop whose steps all return computes the plain fold. -/
theorem foldlM_eq_returned {f : β → α → Outcome ε β} {g : β → α → β} {l : List α}
    (h : ∀ a ∈ l, ∀ b, f b a = returned (g b a)) (b : β) :
    l.foldlM f b = returned (l.foldl g b) := by
  induction l generalizing b with
  | nil => rfl
  | cons a l ih =>
      rw [List.foldlM_cons, h a (by simp), returned_bind, List.foldl_cons]
      exact ih (fun a' ha' => h a' (by simp [ha'])) _

/-- A loop with a step that always raises raises, if the other steps return or raise. -/
theorem foldlM_raised {P : ε → Prop} {f : β → α → Outcome ε β} {l : List α}
    (hstep : ∀ a ∈ l, ∀ b, (∃ b', f b a = returned b') ∨ ∃ e, P e ∧ f b a = raised e)
    (hbad : ∃ a ∈ l, ∀ b, ∃ e, P e ∧ f b a = raised e) (b : β) :
    ∃ e, P e ∧ l.foldlM f b = raised e := by
  induction l generalizing b with
  | nil => simp at hbad
  | cons a l ih =>
      rw [List.foldlM_cons]
      rcases hstep a (by simp) b with ⟨b', hb'⟩ | ⟨e, he, hraised⟩
      · rw [hb', returned_bind]
        refine ih (fun a' ha' => hstep a' (by simp [ha'])) ?_ b'
        obtain ⟨a', ha', hall⟩ := hbad
        rcases List.mem_cons.mp ha' with rfl | ha'
        · obtain ⟨e, _, hraised⟩ := hall b
          rw [hb'] at hraised
          cases hraised
        · exact ⟨a', ha', hall⟩
      · exact ⟨e, he, by rw [hraised, raised_bind]⟩

/-- A loop that has returned lists what its steps returned. -/
theorem mem_of_mapM_eq_returned {f : α → Outcome ε β} {l : List α} {r : List β}
    (h : l.mapM f = returned r) :
    (∀ a ∈ l, ∃ b, f a = returned b) ∧ ∀ b, b ∈ r ↔ ∃ a ∈ l, f a = returned b := by
  induction l generalizing r with
  | nil =>
      obtain rfl := returned.inj h
      simp
  | cons a l ih =>
      rw [List.mapM_cons] at h
      obtain ⟨b, hb, h⟩ := bind_eq_returned.mp h
      obtain ⟨r', hr', h⟩ := bind_eq_returned.mp h
      obtain rfl := returned.inj h
      obtain ⟨hall, hmem⟩ := ih hr'
      refine ⟨List.forall_mem_cons.mpr ⟨⟨b, hb⟩, hall⟩, fun b' => ?_⟩
      simp only [List.mem_cons, hmem, exists_eq_or_imp, hb, returned.injEq]
      exact or_congr_left eq_comm

/-- A loop whose steps are known where they return, once it has returned. -/
theorem map_of_mapM_eq_returned {γ : Type*} {f : α → Outcome ε β} {g : β → γ} {g' : α → γ}
    {l : List α} {r : List β} (hstep : ∀ a ∈ l, ∀ b, f a = returned b → g b = g' a)
    (h : l.mapM f = returned r) : r.map g = l.map g' := by
  induction l generalizing r with
  | nil =>
      obtain rfl := returned.inj h
      rfl
  | cons a l ih =>
      rw [List.mapM_cons] at h
      obtain ⟨b, hb, h⟩ := bind_eq_returned.mp h
      obtain ⟨r', hr', h⟩ := bind_eq_returned.mp h
      obtain rfl := returned.inj h
      rw [List.map_cons, List.map_cons, hstep a (by simp) b hb,
        ih (fun a' ha' => hstep a' (by simp [ha'])) hr']

/-- A fold whose steps are known where they return, once it has returned. -/
theorem eq_foldl_of_foldlM_eq_returned {f : β → α → Outcome ε β} {g : β → α → β} {l : List α}
    (hstep : ∀ a ∈ l, ∀ b b', f b a = returned b' → b' = g b a) {b r : β}
    (h : l.foldlM f b = returned r) : r = l.foldl g b := by
  induction l generalizing b with
  | nil => exact (returned.inj h).symm
  | cons a l ih =>
      rw [List.foldlM_cons] at h
      obtain ⟨b', hb', h⟩ := bind_eq_returned.mp h
      obtain rfl := hstep a (by simp) b b' hb'
      exact ih (fun a' ha' => hstep a' (by simp [ha'])) h

theorem mapM_eq_returned {f : α → Outcome ε β} {g : α → β} {l : List α}
    (h : ∀ a ∈ l, f a = returned (g a)) : l.mapM f = returned (l.map g) := by
  induction l with
  | nil => rfl
  | cons a l ih =>
      rw [List.mapM_cons, h a (by simp), ih fun a' ha' => h a' (by simp [ha'])]
      rfl

theorem mapM_ne_raised {f : α → Outcome ε β} {l : List α} (h : ∀ a ∈ l, ∀ e, f a ≠ raised e)
    (e : ε) : l.mapM f ≠ raised e := by
  induction l with
  | nil => simp
  | cons a l ih =>
      rw [List.mapM_cons]
      intro hraised
      rcases bind_eq_raised.mp hraised with hraised | ⟨b, _, hraised⟩
      · exact h a (by simp) e hraised
      · rcases bind_eq_raised.mp hraised with hraised | ⟨r, _, hraised⟩
        · exact ih (fun a' ha' => h a' (by simp [ha'])) hraised
        · simp at hraised

/-- If no step raises, a loop over all of `l` ends exactly when every step does. -/
theorem mapM_ended_iff {f : α → Outcome ε β} {l : List α} (h : ∀ a ∈ l, ∀ e, f a ≠ raised e) :
    (l.mapM f).Ended ↔ ∀ a ∈ l, (f a).Ended := by
  induction l with
  | nil => simp [Ended]
  | cons a l ih =>
      rw [List.mapM_cons, List.forall_mem_cons, ← ih fun a' ha' => h a' (by simp [ha'])]
      cases ha : f a with
      | running => simp [Ended]
      | raised e => exact absurd ha (h a (by simp) e)
      | returned b =>
          rw [returned_bind, bind_ended]
          simp [Ended]

theorem mapM_ended {f : α → Outcome ε β} {l : List α} (h : ∀ a ∈ l, (f a).Ended) :
    (l.mapM f).Ended := by
  induction l with
  | nil => simp [Ended]
  | cons a l ih =>
      rw [List.mapM_cons, bind_ended]
      refine ⟨h a (by simp), fun b _ => ?_⟩
      rw [bind_ended]
      exact ⟨ih fun a' ha' => h a' (by simp [ha']), fun _ _ => by simp [Ended]⟩

/-- A loop that returns also returns on a permutation of its list. -/
theorem mapM_perm {f : α → Outcome ε β} {l l' : List α} (h : l.Perm l') {r : List β}
    (hr : l.mapM f = returned r) : ∃ r', l'.mapM f = returned r' ∧ r.Perm r' := by
  induction h generalizing r with
  | nil => exact ⟨r, hr, .refl r⟩
  | cons a _ ih =>
      rw [List.mapM_cons] at hr
      obtain ⟨b, hb, hr⟩ := bind_eq_returned.mp hr
      obtain ⟨s, hs, hr⟩ := bind_eq_returned.mp hr
      obtain rfl := returned.inj hr
      obtain ⟨s', hs', hperm⟩ := ih hs
      exact ⟨b :: s', by simp [List.mapM_cons, hb, hs'], hperm.cons b⟩
  | swap a a' l =>
      simp only [List.mapM_cons, bind_eq_returned, pure_eq, returned.injEq] at hr
      obtain ⟨b, hb, _, ⟨b', hb', s, hs, rfl⟩, rfl⟩ := hr
      exact ⟨b' :: b :: s, by simp [List.mapM_cons, hb, hb', hs], .swap b' b s⟩
  | trans _ _ ih ih' =>
      obtain ⟨s, hs, hperm⟩ := ih hr
      obtain ⟨s', hs', hperm'⟩ := ih' hs
      exact ⟨s', hs', hperm.trans hperm'⟩

/-- Fuel that suffices for each element suffices for the whole list. -/
theorem exists_fuel_forall {P : α → ℕ → Prop} (hmono : ∀ a m n, m ≤ n → P a m → P a n)
    {l : List α} (h : ∀ a ∈ l, ∃ n, P a n) : ∃ n, ∀ a ∈ l, P a n := by
  induction l with
  | nil => exact ⟨0, by simp⟩
  | cons a l ih =>
      obtain ⟨m, hm⟩ := h a (by simp)
      obtain ⟨n, hn⟩ := ih fun a' ha' => h a' (by simp [ha'])
      refine ⟨max m n, List.forall_mem_cons.mpr ⟨hmono a m _ (Nat.le_max_left m n) hm, ?_⟩⟩
      intro a' ha'
      exact hmono a' n _ (Nat.le_max_right m n) (hn a' ha')

end Outcome
