import Mathlib.Data.List.Basic
import Mathlib.Data.List.Infix

/-! Words and separators: where two ways to cut one list agree. -/

namespace Words

variable {α : Type*}

/-- A cut at a separator against a first word without separators. -/
theorem eq_or_of_first_word {sep : α} {w r z y : List α} (hw : sep ∉ w)
    (h : z ++ sep :: y = w ++ sep :: r) :
    (z = w ∧ y = r) ∨ ∃ z', z = w ++ sep :: z' ∧ z' ++ sep :: y = r := by
  rcases List.append_eq_append_iff.mp h with ⟨mid, hword, hrest⟩ | ⟨mid, hz, hrest⟩
  · cases mid with
    | nil => exact Or.inl ⟨by simpa using hword.symm, (List.cons.inj hrest).2⟩
    | cons c mid =>
        obtain ⟨rfl, _⟩ := List.cons.inj hrest
        exact absurd (by simp [hword]) hw
  · cases mid with
    | nil => exact Or.inl ⟨by simpa using hz, (List.cons.inj hrest).2.symm⟩
    | cons c mid =>
        obtain ⟨rfl, htail⟩ := List.cons.inj hrest
        exact Or.inr ⟨mid, hz, htail.symm⟩

/-- A cut at a separator against a last word without separators. -/
theorem exists_of_last_word {sep : α} {w z y a : List α} (hw : sep ∉ w)
    (h : z ++ sep :: y = a ++ w) : ∃ y', a = z ++ sep :: y' ∧ y = y' ++ w := by
  rcases List.append_eq_append_iff.mp h with ⟨mid, ha, hrest⟩ | ⟨mid, _, hrest⟩
  · cases mid with
    | nil => exact absurd (by rw [← show sep :: y = w from hrest]; simp) hw
    | cons c mid =>
        obtain ⟨rfl, htail⟩ := List.cons.inj hrest
        exact ⟨mid, ha, htail⟩
  · exact absurd (by rw [hrest]; simp) hw

/-- A cut at a separator against the last separator. -/
theorem eq_or_of_last_separator {sep : α} {w r z y : List α} (hr : sep ∉ r)
    (h : z ++ sep :: y = w ++ sep :: r) :
    (z = w ∧ y = r) ∨ ∃ y', w = z ++ sep :: y' ∧ y = y' ++ sep :: r := by
  rcases List.append_eq_append_iff.mp h with ⟨mid, hword, hrest⟩ | ⟨mid, hz, hrest⟩
  · cases mid with
    | nil => exact Or.inl ⟨by simpa using hword.symm, (List.cons.inj hrest).2⟩
    | cons c mid =>
        obtain ⟨rfl, htail⟩ := List.cons.inj hrest
        exact Or.inr ⟨mid, hword, htail⟩
  · cases mid with
    | nil => exact Or.inl ⟨by simpa using hz, (List.cons.inj hrest).2.symm⟩
    | cons c mid =>
        obtain ⟨rfl, htail⟩ := List.cons.inj hrest
        exact absurd (by simp [htail]) hr

/-- An occurrence of a word without `c` lies before or after a `c`. -/
theorem before_or_after {c : α} {m x y a b : List α} (hm : c ∉ m)
    (h : x ++ (m ++ y) = a ++ c :: b) :
    (∃ y', a = x ++ (m ++ y')) ∨ ∃ x', b = x' ++ (m ++ y) := by
  rcases List.append_eq_append_iff.mp h with ⟨mid, ha, hrest⟩ | ⟨mid, hx, hrest⟩
  · rcases List.append_eq_append_iff.mp hrest with ⟨mid', hmid, _⟩ | ⟨mid', hword, hafter⟩
    · exact Or.inl ⟨mid', by rw [ha, hmid]⟩
    · cases mid' with
      | nil => exact Or.inl ⟨[], by rw [ha, hword]; simp⟩
      | cons d mid' =>
          obtain ⟨rfl, _⟩ := List.cons.inj hafter
          exact absurd (by simp [hword]) hm
  · cases mid with
    | nil =>
        cases m with
        | nil => exact Or.inl ⟨[], by simpa using hx.symm⟩
        | cons d m =>
            obtain ⟨rfl, _⟩ := List.cons.inj hrest
            exact absurd (by simp) hm
    | cons d mid =>
        obtain ⟨_, htail⟩ := List.cons.inj hrest
        exact Or.inr ⟨mid, htail⟩

end Words
