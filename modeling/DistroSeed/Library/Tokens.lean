import Mathlib.Data.List.Induction
import Mathlib.Data.List.TakeWhile

/-! The words of a text: its longest parts without separators. -/

namespace Tokens

variable {α β : Type*}

/-- A word that has ended, if it has begun. -/
def flush (current : List α) : List (List α) := if current.isEmpty then [] else [current]

/-- The words of a text behind the beginning of a word. -/
def wordsFrom (isSep : α → Bool) : List α → List α → List (List α)
  | current, [] => flush current
  | current, c :: rest =>
      if isSep c then flush current ++ wordsFrom isSep [] rest
      else wordsFrom isSep (current ++ [c]) rest

def words (isSep : α → Bool) (text : List α) : List (List α) := wordsFrom isSep [] text

variable {isSep : α → Bool} {c : α} {w x y text : List α}

@[simp] theorem flush_nil : flush ([] : List α) = [] := rfl

theorem flush_of_ne_nil (h : w ≠ []) : flush w = [w] := by
  simp [flush, h]

@[simp] theorem words_nil : words isSep [] = [] := rfl

/-! ## Separators -/

theorem wordsFrom_cons_of_sep (h : isSep c) (w y : List α) :
    wordsFrom isSep w (c :: y) = flush w ++ words isSep y := by
  rw [wordsFrom, if_pos h, words]

theorem words_cons_of_sep (h : isSep c) (y : List α) : words isSep (c :: y) = words isSep y := by
  rw [words, wordsFrom_cons_of_sep h, flush_nil, List.nil_append]

/-- At a separator the words fall into two. -/
theorem wordsFrom_append_cons (h : isSep c) (w x y : List α) :
    wordsFrom isSep w (x ++ c :: y) = wordsFrom isSep w x ++ words isSep y := by
  induction x generalizing w with
  | nil => exact wordsFrom_cons_of_sep h w y
  | cons d x ih =>
      rw [List.cons_append, wordsFrom, wordsFrom]
      split_ifs
      · rw [ih, List.append_assoc]
      · rw [ih]

theorem words_append_cons (h : isSep c) (x y : List α) :
    words isSep (x ++ c :: y) = words isSep x ++ words isSep y := wordsFrom_append_cons h [] x y

/-- What has no separator is one word. -/
theorem wordsFrom_append_of_forall (h : ∀ c ∈ x, ¬ isSep c) (w y : List α) :
    wordsFrom isSep w (x ++ y) = wordsFrom isSep (w ++ x) y := by
  induction x generalizing w with
  | nil => simp
  | cons c x ih =>
      rw [List.cons_append, wordsFrom, if_neg (h c (by simp)), ih fun d hd => h d (by simp [hd])]
      simp

theorem words_of_forall (h : ∀ c ∈ x, ¬ isSep c) : words isSep x = flush x := by
  have hword := wordsFrom_append_of_forall h [] []
  rwa [List.append_nil, List.nil_append] at hword

/-- A word is not empty and has no separators. -/
theorem spec_of_mem_wordsFrom (hw : ∀ c ∈ w, ¬ isSep c) {v : List α}
    (h : v ∈ wordsFrom isSep w text) : v ≠ [] ∧ ∀ c ∈ v, ¬ isSep c := by
  have hflush : ∀ u : List α, (∀ c ∈ u, ¬ isSep c) → v ∈ flush u → v ≠ [] ∧ ∀ c ∈ v, ¬ isSep c := by
    intro u hu hmem
    by_cases hnil : u = []
    · simp [hnil] at hmem
    · rw [flush_of_ne_nil hnil, List.mem_singleton] at hmem
      exact ⟨hmem ▸ hnil, hmem ▸ hu⟩
  induction text generalizing w with
  | nil => exact hflush w hw h
  | cons c text ih =>
      rw [wordsFrom] at h
      split_ifs at h with hc
      · rcases List.mem_append.mp h with h | h
        · exact hflush w hw h
        · exact ih (by simp) h
      · refine ih ?_ h
        intro d hd
        rcases List.mem_append.mp hd with hd | hd
        · exact hw d hd
        · rwa [List.mem_singleton.mp hd]

theorem spec_of_mem_words {v : List α} (h : v ∈ words isSep text) :
    v ≠ [] ∧ ∀ c ∈ v, ¬ isSep c := spec_of_mem_wordsFrom (by simp) h

theorem mem_of_mem_wordsFrom {v : List α} (h : v ∈ wordsFrom isSep w text) :
    ∀ c ∈ v, c ∈ w ∨ c ∈ text := by
  have hflush : ∀ u : List α, v ∈ flush u → v = u := by
    intro u hmem
    by_cases hnil : u = []
    · simp [hnil] at hmem
    · rwa [flush_of_ne_nil hnil, List.mem_singleton] at hmem
  induction text generalizing w with
  | nil =>
      obtain rfl := hflush w h
      exact fun c hc => Or.inl hc
  | cons d text ih =>
      rw [wordsFrom] at h
      intro c hc
      split_ifs at h
      · rcases List.mem_append.mp h with h | h
        · obtain rfl := hflush w h
          exact Or.inl hc
        · rcases ih h c hc with hnil | htext
          · cases hnil
          · exact Or.inr (List.mem_cons_of_mem d htext)
      · rcases ih h c hc with hmem | htext
        · rcases List.mem_append.mp hmem with hmem | hmem
          · exact Or.inl hmem
          · exact Or.inr (by simp [List.mem_singleton.mp hmem])
        · exact Or.inr (List.mem_cons_of_mem d htext)

theorem mem_of_mem_words {v : List α} (h : v ∈ words isSep text) : ∀ c ∈ v, c ∈ text := by
  intro c hc
  rcases mem_of_mem_wordsFrom h c hc with hnil | htext
  · cases hnil
  · exact htext

/-- The word around a character that is no separator, with the words behind it. -/
theorem exists_wordsFrom_append_cons (hc : ¬ isSep c) (w x y : List α) :
    ∃ front u, wordsFrom isSep w (x ++ c :: y) = front ++
      (u ++ c :: y.takeWhile (!isSep ·)) :: words isSep (y.dropWhile (!isSep ·)) := by
  induction x generalizing w with
  | nil =>
      refine ⟨[], w, ?_⟩
      have htake : ∀ d ∈ y.takeWhile (!isSep ·), ¬ isSep d := by
        intro d hd
        simpa using List.mem_takeWhile_imp hd
      have hword : wordsFrom isSep (w ++ [c]) y =
          wordsFrom isSep (w ++ [c] ++ y.takeWhile (!isSep ·)) (y.dropWhile (!isSep ·)) := by
        rw [← wordsFrom_append_of_forall htake, List.takeWhile_append_dropWhile]
      have hflush : flush (w ++ c :: y.takeWhile (!isSep ·)) = [w ++ c :: y.takeWhile (!isSep ·)] :=
        flush_of_ne_nil (by simp)
      rw [List.nil_append, wordsFrom, if_neg hc, hword, List.append_assoc, List.singleton_append]
      cases hdrop : y.dropWhile (!isSep ·) with
      | nil => exact hflush
      | cons d rest =>
          have hhead := List.head?_dropWhile_not (!isSep ·) y
          rw [hdrop] at hhead
          have hd : isSep d := by simpa using hhead
          rw [wordsFrom_cons_of_sep hd, hflush, words_cons_of_sep hd]
          rfl
  | cons d x ih =>
      rw [List.cons_append, wordsFrom]
      split_ifs
      · obtain ⟨front, u, heq⟩ := ih []
        exact ⟨flush w ++ front, u, by rw [heq, List.append_assoc]⟩
      · exact ih (w ++ [d])

/-- A text without words consists of separators. -/
theorem forall_sep_of_words_eq_nil (h : words isSep text = []) : ∀ c ∈ text, isSep c := by
  intro c hc
  obtain ⟨x, y, rfl⟩ := List.append_of_mem hc
  by_contra hsep
  obtain ⟨front, u, heq⟩ := exists_wordsFrom_append_cons hsep [] x y
  rw [words, heq] at h
  simp at h

/-! ## Two texts in a row -/

/-- The words of two texts in a row are those of each where a separator stands between them. -/
theorem words_append_of_startsSep (h : ∀ c ∈ y.head?, isSep c) (x : List α) :
    words isSep (x ++ y) = words isSep x ++ words isSep y := by
  cases y with
  | nil => simp
  | cons c y =>
      have hc : isSep c := h c rfl
      rw [words_append_cons hc, words_cons_of_sep hc]

theorem words_append_of_endsSep (h : ∀ c ∈ x.getLast?, isSep c) (y : List α) :
    words isSep (x ++ y) = words isSep x ++ words isSep y := by
  induction x using List.reverseRecOn with
  | nil => simp
  | append_singleton x c _ =>
      have hc : isSep c := h c (by simp)
      rw [List.append_assoc, List.singleton_append, words_append_cons hc, words_append_cons hc,
        words_nil, List.append_nil]

theorem length_wordsFrom_congr (hw : w ≠ []) {v : List α} (hv : v ≠ []) (y : List α) :
    (wordsFrom isSep w y).length = (wordsFrom isSep v y).length := by
  induction y generalizing w v with
  | nil => simp [wordsFrom, flush, hw, hv]
  | cons c y ih =>
      rw [wordsFrom, wordsFrom]
      split_ifs
      · simp [flush, hw, hv]
      · exact ih (by simp) (by simp)

/-- Without a separator between them, a word is lost. -/
theorem length_wordsFrom_append (hx : x ≠ []) (hlast : ∀ c ∈ x.getLast?, ¬ isSep c) (hy : y ≠ [])
    (hhead : ∀ c ∈ y.head?, ¬ isSep c) (w : List α) :
    (wordsFrom isSep w (x ++ y)).length + 1 =
      (wordsFrom isSep w x).length + (words isSep y).length := by
  induction x generalizing w with
  | nil => exact absurd rfl hx
  | cons c x ih =>
      by_cases hnil : x = []
      · subst hnil
        have hc : ¬ isSep c := hlast c rfl
        obtain ⟨d, y, rfl⟩ := List.exists_cons_of_ne_nil hy
        have hd : ¬ isSep d := hhead d rfl
        rw [words, List.singleton_append, wordsFrom, if_neg hc, wordsFrom, if_neg hd, wordsFrom,
          if_neg hc, wordsFrom, wordsFrom, if_neg hd, flush_of_ne_nil (by simp),
          length_wordsFrom_congr (v := [] ++ [d]) (by simp) (by simp), List.length_singleton]
        exact Nat.add_comm _ _
      · have hih := ih hnil fun d hd => hlast d (by rwa [List.getLast?_cons_of_ne_nil hnil])
        rw [List.cons_append, wordsFrom, wordsFrom]
        split_ifs
        · have hrest := hih []
          rw [List.length_append, List.length_append]
          omega
        · exact hih (w ++ [c])

/-- When the words of two texts in a row are those of each: one of the two texts begins or ends
with a separator on its side, or has no words there. -/
theorem words_append_iff (x y : List α) :
    words isSep (x ++ y) = words isSep x ++ words isSep y ↔
      (∀ c ∈ x.getLast?, isSep c) ∨ ∀ c ∈ y.head?, isSep c := by
  constructor
  · intro h
    by_contra hneither
    obtain ⟨hlast, hhead⟩ := not_or.mp hneither
    simp only [not_forall] at hlast hhead
    obtain ⟨c, hc, hsepc⟩ := hlast
    obtain ⟨d, hd, hsepd⟩ := hhead
    have hlength : (wordsFrom isSep [] (x ++ y)).length + 1 =
        (wordsFrom isSep [] x).length + (words isSep y).length := length_wordsFrom_append
      (by rintro rfl; cases hc) (fun e he => by rwa [Option.mem_unique he hc])
      (by rintro rfl; cases hd) (fun e he => by rwa [Option.mem_unique he hd]) []
    have heq := congrArg List.length h
    rw [List.length_append] at heq
    change (words isSep (x ++ y)).length + 1 = (words isSep x).length + (words isSep y).length
      at hlength
    omega
  · rintro (h | h)
    · exact words_append_of_endsSep h y
    · exact words_append_of_startsSep h x

/-- Separators behind a text do not matter. -/
theorem words_append_of_forall_sep (h : ∀ c ∈ y, isSep c) (x : List α) :
    words isSep (x ++ y) = words isSep x := by
  induction y using List.reverseRecOn with
  | nil => simp
  | append_singleton y c ih =>
      rw [← List.append_assoc, words_append_cons (h c (by simp)), words_nil, List.append_nil]
      exact ih fun d hd => h d (by simp [hd])

theorem words_intercalate (h : isSep c) (lines : List (List α)) :
    words isSep ([c].intercalate lines) = lines.flatMap (words isSep) := by
  induction lines with
  | nil => rfl
  | cons line lines ih =>
      cases lines with
      | nil => simp
      | cons next lines =>
          rw [List.intercalate_cons_cons, List.append_assoc, List.singleton_append,
            words_append_cons h, ih]
          rfl

/-! ## Rewriting a text -/

/-- Characters may be replaced as long as separators stay separators. -/
theorem wordsFrom_map {isSep' : α → Bool} {f : α → α} (hsep : ∀ c, isSep c → isSep' (f c))
    (hother : ∀ c, ¬ isSep c → f c = c ∧ ¬ isSep' c) (w text : List α) :
    wordsFrom isSep' w (text.map f) = wordsFrom isSep w text := by
  induction text generalizing w with
  | nil => rfl
  | cons c text ih =>
      rw [List.map_cons, wordsFrom, wordsFrom]
      by_cases hc : isSep c
      · rw [if_pos hc, if_pos (hsep c hc), ih]
      · rw [if_neg hc, (hother c hc).1, if_neg (hother c hc).2, ih]

/-- Characters that are no separators may be left out; words may vanish. -/
theorem wordsFrom_filter {p : α → Bool} (hp : ∀ c, isSep c → p c) (w text : List α) :
    wordsFrom isSep (w.filter p) (text.filter p) =
      ((wordsFrom isSep w text).map (List.filter p)).filter (!·.isEmpty) := by
  have hflush : ∀ u : List α,
      flush (u.filter p) = ((flush u).map (List.filter p)).filter (!·.isEmpty) := by
    intro u
    by_cases hu : u = []
    · simp [hu]
    · by_cases hfilter : u.filter p = []
      · rw [flush_of_ne_nil hu, List.map_singleton, hfilter]
        rfl
      · rw [flush_of_ne_nil hu, flush_of_ne_nil hfilter]
        simp [-List.filter_eq_nil_iff, hfilter]
  induction text generalizing w with
  | nil => exact hflush w
  | cons c text ih =>
      by_cases hc : isSep c
      · have hrest := ih []
        rw [List.filter_cons_of_pos (hp c hc), wordsFrom, if_pos hc, wordsFrom, if_pos hc,
          List.map_append, List.filter_append, ← hflush, ← hrest, List.filter_nil]
      · by_cases hpc : p c
        · have hrest := ih (w ++ [c])
          rw [List.filter_append, List.filter_cons_of_pos hpc, List.filter_nil] at hrest
          rw [List.filter_cons_of_pos hpc, wordsFrom, if_neg hc, wordsFrom, if_neg hc, hrest]
        · have hrest := ih (w ++ [c])
          rw [List.filter_append, List.filter_cons_of_neg hpc, List.filter_nil, List.append_nil]
            at hrest
          rw [List.filter_cons_of_neg hpc, wordsFrom, if_neg hc, hrest]

/-! ## Parts between separators -/

theorem mem_of_mem_splitOn [DecidableEq α] {sep a : α} {part : List α}
    (hpart : part ∈ text.splitOn sep) (ha : a ∈ part) : a ∈ text := by
  have hmem : ∀ parts : List (List α), part ∈ parts → a ∈ [sep].intercalate parts := by
    intro parts hparts
    induction parts with
    | nil => cases hparts
    | cons first parts ih =>
        cases parts with
        | nil =>
            obtain rfl := List.mem_singleton.mp hparts
            simpa using ha
        | cons next parts =>
            rw [List.intercalate_cons_cons]
            rcases List.mem_cons.mp hparts with rfl | hparts
            · simp [ha]
            · exact List.mem_append_right _ (ih hparts)
  have hjoin := hmem _ hpart
  rwa [List.intercalate_splitOn] at hjoin

end Tokens
