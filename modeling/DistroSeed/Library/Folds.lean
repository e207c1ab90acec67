import Mathlib.Data.List.Nodup

/-! Folds over a list without duplicates in which every step leaves a view of the state alone, or
every step but one. -/

namespace Folds

variable {α β γ : Type*} {step : β → α → β} (inv : β → Prop) (view : β → γ) {xs : List α}

theorem foldl_inv (hinv : ∀ x ∈ xs, ∀ b, inv b → inv (step b x)) {b : β} (h : inv b) :
    inv (xs.foldl step b) := by
  induction xs generalizing b with
  | nil => exact h
  | cons x xs ih =>
      exact ih (fun y hy => hinv y (List.mem_cons_of_mem x hy))
        (hinv x List.mem_cons_self b h)

/-- No step touches the view. -/
theorem foldl_frame (hinv : ∀ x ∈ xs, ∀ b, inv b → inv (step b x))
    (hframe : ∀ x ∈ xs, ∀ b, inv b → view (step b x) = view b) {b : β} (h : inv b) :
    view (xs.foldl step b) = view b := by
  induction xs generalizing b with
  | nil => rfl
  | cons x xs ih =>
      rw [List.foldl_cons, ih (fun y hy => hinv y (List.mem_cons_of_mem x hy))
        (fun y hy => hframe y (List.mem_cons_of_mem x hy)) (hinv x List.mem_cons_self b h),
        hframe x List.mem_cons_self b h]

/-- One step alone touches the view, in a state with the view of the start. -/
theorem foldl_frame_but (hnodup : xs.Nodup) {a : α} (ha : a ∈ xs)
    (hinv : ∀ x ∈ xs, ∀ b, inv b → inv (step b x))
    (hframe : ∀ x ∈ xs, x ≠ a → ∀ b, inv b → view (step b x) = view b) {b : β} (h : inv b) :
    ∃ b', inv b' ∧ view b' = view b ∧ view (xs.foldl step b) = view (step b' a) := by
  rcases List.append_of_mem ha with ⟨before, after, rfl⟩
  have hne : ∀ x ∈ before ++ after, x ≠ a := by
    intro x hx hxa
    rw [List.nodup_middle] at hnodup
    exact (List.nodup_cons.mp hnodup).1 (hxa ▸ hx)
  have hbefore : inv (before.foldl step b) :=
    foldl_inv inv (fun x hx => hinv x (List.mem_append_left _ hx)) h
  refine ⟨before.foldl step b, hbefore, ?_, ?_⟩
  · exact foldl_frame inv view (fun x hx => hinv x (List.mem_append_left _ hx))
      (fun x hx => hframe x (List.mem_append_left _ hx) (hne x (List.mem_append_left _ hx))) h
  · have hafter : ∀ x ∈ after, x ∈ before ++ a :: after := fun x hx => by simp [hx]
    rw [List.foldl_append, List.foldl_cons]
    exact foldl_frame inv view (fun x hx => hinv x (hafter x hx))
      (fun x hx => hframe x (hafter x hx) (hne x (List.mem_append_right _ hx)))
      (hinv a ha _ hbefore)

end Folds
