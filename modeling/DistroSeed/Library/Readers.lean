import Mathlib.Data.List.Basic

/-! Readers that take a text apart from the left, and readers of all lines of a text. -/

namespace Readers

variable {α β γ : Type*}

/-- A literal in front of a text is taken off. -/
theorem dropPrefix?_append [DecidableEq α] (literal rest : List α) :
    (literal ++ rest).dropPrefix? literal = some rest := by
  rw [List.dropPrefix?_eq_some_iff]
  exact ⟨literal, rfl, by simp⟩

theorem mapM_eq_some {f : α → Option β} {g : α → β} {l : List α} (h : ∀ a ∈ l, f a = some (g a)) :
    l.mapM f = some (l.map g) := by
  induction l with
  | nil => rfl
  | cons a l ih =>
      rw [List.mapM_cons, h a List.mem_cons_self,
        ih fun a' ha' => h a' (List.mem_cons_of_mem a ha')]
      rfl

theorem mapM_mapIdx_eq_some {f : ℕ → γ → α} {read : α → Option β} {g : ℕ → γ → β} {l : List γ}
    (h : ∀ i, ∀ c ∈ l, read (f i c) = some (g i c)) :
    (l.mapIdx f).mapM read = some (l.mapIdx g) := by
  induction l generalizing f g with
  | nil => rfl
  | cons c l ih =>
      rw [List.mapIdx_cons, List.mapIdx_cons, List.mapM_cons, h 0 c List.mem_cons_self,
        ih fun i c' hc' => h (i + 1) c' (List.mem_cons_of_mem c hc')]
      rfl

/-- A list that was read as a whole was read line by line. -/
theorem getElem?_of_mapM_eq_some {f : α → Option β} {l : List α} {r : List β}
    (h : l.mapM f = some r) (i : ℕ) : r[i]? = l[i]?.bind f := by
  induction l generalizing r i with
  | nil =>
      obtain rfl := Option.some.inj h
      rfl
  | cons a l ih =>
      rw [List.mapM_cons] at h
      cases ha : f a with
      | none => simp [ha] at h
      | some b =>
          cases hl : l.mapM f with
          | none => simp [ha, hl] at h
          | some r' =>
              rw [ha, hl] at h
              obtain rfl := Option.some.inj h
              cases i with
              | zero => simp [ha]
              | succ i => simpa using ih hl i

end Readers
