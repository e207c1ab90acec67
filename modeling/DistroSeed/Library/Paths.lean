import Mathlib.Data.List.DropRight

/-! Directories as the names on the way down from the root, the ways that lead from one to another,
and texts that list names between separators. -/

namespace Paths

variable {α : Type*}

/-! ## Ways -/

/-- From a directory some levels up, where the root lies above itself, and then down. -/
def follow (dir : List α) (way : ℕ × List α) : List α := dir.rdrop way.1 ++ way.2

@[simp] theorem follow_zero (dir names : List α) : follow dir (0, names) = dir ++ names := by
  simp [follow]

theorem rdrop_append_rtake (dir : List α) (n : ℕ) : dir.rdrop n ++ dir.rtake n = dir :=
  List.take_append_drop _ dir

theorem dropLast_rdrop (dir : List α) (n : ℕ) : (dir.rdrop n).dropLast = dir.rdrop (n + 1) := by
  rw [List.dropLast_eq_take, List.rdrop, List.rdrop, List.take_take, List.length_take]
  congr 1
  omega

section Relative

variable [DecidableEq α]

/-- How many names two directories have in common, from the root on. -/
def commonLength : List α → List α → ℕ
  | a :: as, b :: bs => if a = b then commonLength as bs + 1 else 0
  | _, _ => 0

/-- The shortest way from one directory to another. -/
def wayTo (start target : List α) : ℕ × List α :=
  (start.length - commonLength start target, target.drop (commonLength start target))

@[simp] theorem commonLength_nil_left (target : List α) : commonLength [] target = 0 := by
  simp [commonLength]

theorem commonLength_le (start target : List α) :
    commonLength start target ≤ start.length ∧ commonLength start target ≤ target.length := by
  induction start generalizing target with
  | nil => simp
  | cons a start ih =>
      cases target with
      | nil => simp [commonLength]
      | cons b target =>
          by_cases hab : a = b
          · simpa [commonLength, hab] using ih target
          · simp [commonLength, hab]

theorem commonLength_append (dir start target : List α) :
    commonLength (dir ++ start) (dir ++ target) = dir.length + commonLength start target := by
  induction dir with
  | nil => simp
  | cons a dir ih => simp [commonLength, ih, Nat.add_right_comm]

theorem wayTo_append (dir start target : List α) :
    wayTo (dir ++ start) (dir ++ target) = wayTo start target := by
  rw [wayTo, wayTo, commonLength_append, List.length_append, Nat.add_sub_add_left,
    List.drop_append, List.drop_of_length_le (Nat.le_add_right _ _), List.nil_append,
    Nat.add_sub_cancel_left]

/-- The way back is as long as what was left upwards, but for the names that lead down again where
one came from. -/
theorem wayTo_follow (dir : List α) (way : ℕ × List α) :
    wayTo dir (follow dir way) = wayTo (dir.rtake way.1) way.2 := by
  calc wayTo dir (follow dir way)
      = wayTo (dir.rdrop way.1 ++ dir.rtake way.1) (follow dir way) := by rw [rdrop_append_rtake]
    _ = wayTo (dir.rtake way.1) way.2 := wayTo_append _ _ _

theorem wayTo_eq_iff {start start' target : List α} :
    wayTo start target = wayTo start' target ↔ start.length = start'.length ∧
      commonLength start target = commonLength start' target := by
  have hle := commonLength_le start target
  have hle' := commonLength_le start' target
  constructor
  · intro h
    obtain ⟨hups, hnames⟩ := Prod.mk.inj h
    have hlength := congrArg List.length hnames
    rw [List.length_drop, List.length_drop] at hlength
    omega
  · rintro ⟨hlength, hcommon⟩
    rw [wayTo, wayTo, hlength, hcommon]

/-- A way is as good from one directory as from another: it leaves equally many levels of both, and
equally many of its names lead down again where it came from. -/
def SameWay (way : ℕ × List α) (dir dir' : List α) : Prop :=
  (dir.rtake way.1).length = (dir'.rtake way.1).length ∧
    commonLength (dir.rtake way.1) way.2 = commonLength (dir'.rtake way.1) way.2

theorem wayTo_follow_eq_iff {dir dir' : List α} {way : ℕ × List α} :
    wayTo dir (follow dir way) = wayTo dir' (follow dir' way) ↔ SameWay way dir dir' := by
  rw [wayTo_follow, wayTo_follow, wayTo_eq_iff, SameWay]

/-- A way that stays below is the same from everywhere. -/
theorem sameWay_of_below {way : ℕ × List α} (h : way.1 = 0) (dir dir' : List α) :
    SameWay way dir dir' := by
  simp [SameWay, h]

end Relative

/-! ## Names in a text -/

theorem intercalate_concat {sep : α} {parts : List (List α)} (h : parts ≠ []) (last : List α) :
    [sep].intercalate (parts ++ [last]) = [sep].intercalate parts ++ sep :: last := by
  induction parts with
  | nil => exact absurd rfl h
  | cons part parts ih =>
      by_cases hparts : parts = []
      · subst hparts
        simp
      · rw [List.cons_append, List.intercalate_cons_of_ne_nil (by simp), ih hparts,
          List.intercalate_cons_of_ne_nil hparts]
        simp

section Names

variable [DecidableEq α] {sep : α}

/-- The names in a text; nothing between two separators is no name. -/
def names (sep : α) (text : List α) : List (List α) := (text.splitOn sep).filter (· ≠ [])

@[simp] theorem names_nil : names sep [] = [] := by
  simp [names]

theorem names_append (before behind : List α) :
    names sep (before ++ sep :: behind) = names sep before ++ names sep behind := by
  rw [names, List.splitOn_append_cons_self, List.filter_append, names, names]

@[simp] theorem names_cons (text : List α) : names sep (sep :: text) = names sep text := by
  have h : names sep ([] ++ sep :: text) = names sep [] ++ names sep text := names_append [] text
  simpa using h

theorem names_replicate_append (n : ℕ) (text : List α) :
    names sep (List.replicate n sep ++ text) = names sep text := by
  induction n with
  | zero => rfl
  | succ n ih => rw [List.replicate_succ, List.cons_append, names_cons, ih]

theorem names_rdropWhile (text : List α) :
    names sep (text.rdropWhile (· = sep)) = names sep text := by
  induction text using List.reverseRecOn with
  | nil => rfl
  | append_singleton text c ih =>
      by_cases hc : c = sep
      · subst hc
        rw [List.rdropWhile_concat_pos _ _ _ (by simp), ih, names_append, names_nil,
          List.append_nil]
      · rw [List.rdropWhile_concat_neg _ _ _ (by simpa using hc)]

/-- A name that can be read back from a text. -/
def IsName (sep : α) (name : List α) : Prop := name ≠ [] ∧ sep ∉ name

instance (name : List α) : Decidable (IsName sep name) := inferInstanceAs (Decidable (_ ∧ _))

theorem names_intercalate {parts : List (List α)} (h : ∀ name ∈ parts, IsName sep name) :
    names sep ([sep].intercalate parts) = parts := by
  by_cases hparts : parts = []
  · subst hparts
    rfl
  · rw [names, List.splitOn_intercalate sep (fun name hname => (h name hname).2) hparts,
      List.filter_eq_self]
    exact fun name hname => by simpa using (h name hname).1

theorem isName_of_mem_names {text name : List α} (h : name ∈ names sep text) : IsName sep name := by
  obtain ⟨hmem, hne⟩ := List.mem_filter.mp h
  refine ⟨by simpa using hne, ?_⟩
  -- by induction on the text: a character ends a part or is put in front of the first one
  clear hne h
  induction text generalizing name with
  | nil =>
      rw [List.splitOn_nil, List.mem_singleton] at hmem
      simp [hmem]
  | cons c text ih =>
      rw [List.splitOn_cons_eq_if_modifyHead] at hmem
      by_cases hc : c = sep
      · rw [if_pos (beq_iff_eq.mpr hc)] at hmem
        rcases List.mem_cons.mp hmem with rfl | hmem
        · exact List.not_mem_nil
        · exact ih hmem
      · rw [if_neg (by simpa using hc)] at hmem
        obtain ⟨first, rest, hsplit⟩ := List.exists_cons_of_ne_nil (List.splitOn_ne_nil sep text)
        rw [hsplit, List.modifyHead_cons] at hmem
        rw [hsplit] at ih
        rcases List.mem_cons.mp hmem with rfl | hmem
        · simpa [Ne.symm hc] using ih List.mem_cons_self
        · exact ih (List.mem_cons_of_mem _ hmem)

end Names

end Paths
