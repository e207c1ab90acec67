import Mathlib.Data.List.Basic
import Mathlib.Data.List.Infix
import Mathlib.Data.List.TakeWhile

/-! Splitting a text into lines, each with the line break that ends it. A pair `cr lf`
is one break; what else breaks a line is a parameter. -/

namespace Lines

variable {α : Type*}

/-- The text from its lines. -/
def join (lines : List (List α × List α)) : List α :=
  lines.flatMap fun line => line.1 ++ line.2

/-- The text ends where a line ends. -/
def EndsLine (isBreak : α → Bool) (text : List α) : Prop :=
  text = [] ∨ ∃ c ∈ text.getLast?, isBreak c

@[simp] theorem join_nil : join ([] : List (List α × List α)) = [] := rfl

@[simp] theorem join_cons (line : List α × List α) (lines : List (List α × List α)) :
    join (line :: lines) = line.1 ++ line.2 ++ join lines := rfl

theorem endsLine_append_singleton {isBreak : α → Bool} {text : List α} {c : α}
    (h : isBreak c) : EndsLine isBreak (text ++ [c]) := Or.inr ⟨c, by simp, h⟩

theorem endsLine_append_cons_iff {isBreak : α → Bool} {c : α} (h : isBreak c) (x y : List α) :
    EndsLine isBreak (x ++ c :: y) ↔ EndsLine isBreak y := by
  cases y with
  | nil => exact iff_of_true (endsLine_append_singleton h) (Or.inl rfl)
  | cons d y => simp [EndsLine, List.getLast?_append, List.getLast?_cons]

/-- What stands behind the last line break. -/
def lastLine (isBreak : α → Bool) (text : List α) : List α :=
  (text.reverse.takeWhile (!isBreak ·)).reverse

/-- The text up to its last line break. -/
def beforeLastLine (isBreak : α → Bool) (text : List α) : List α :=
  (text.reverse.dropWhile (!isBreak ·)).reverse

theorem beforeLastLine_append_lastLine (isBreak : α → Bool) (text : List α) :
    beforeLastLine isBreak text ++ lastLine isBreak text = text := by
  rw [beforeLastLine, lastLine, ← List.reverse_append, List.takeWhile_append_dropWhile,
    List.reverse_reverse]

theorem endsLine_beforeLastLine (isBreak : α → Bool) (text : List α) :
    EndsLine isBreak (beforeLastLine isBreak text) := by
  cases hdrop : text.reverse.dropWhile (!isBreak ·) with
  | nil => exact Or.inl (by simp [beforeLastLine, hdrop])
  | cons c rest =>
      have hc : ¬ (!isBreak c) = true := by
        have hne : text.reverse.dropWhile (!isBreak ·) ≠ [] := by simp [hdrop]
        have := List.head_dropWhile_not (!isBreak ·) hne
        simpa [hdrop] using this
      exact Or.inr ⟨c, by simp [beforeLastLine, hdrop], by simpa using hc⟩

theorem not_break_of_mem_lastLine {isBreak : α → Bool} {text : List α} {c : α}
    (h : c ∈ lastLine isBreak text) : ¬ isBreak c := by
  have hmem : c ∈ text.reverse.takeWhile (!isBreak ·) := by simpa [lastLine] using h
  simpa using List.mem_takeWhile_imp hmem

/-- The last line is empty exactly if the text ends a line. -/
theorem lastLine_eq_nil_iff {isBreak : α → Bool} {text : List α} :
    lastLine isBreak text = [] ↔ EndsLine isBreak text := by
  constructor
  · intro h
    have hsplit := beforeLastLine_append_lastLine isBreak text
    rw [h, List.append_nil] at hsplit
    exact hsplit ▸ endsLine_beforeLastLine isBreak text
  · intro hcases
    rcases hcases with rfl | ⟨c, hc, hbreak⟩
    · rfl
    · obtain ⟨front, rfl⟩ := List.getLast?_eq_some_iff.mp hc
      simp [lastLine, hbreak]

variable [DecidableEq α]

/-- Put a character in front of a text that is already split. -/
def push (isBreak : α → Bool) (cr lf : α) (c : α) (lines : List (List α × List α)) :
    List (List α × List α) :=
  if isBreak c then
    match lines with
    | ([], [d]) :: rest => if c = cr ∧ d = lf then ([], [c, d]) :: rest else ([], [c]) :: lines
    | _ => ([], [c]) :: lines
  else
    match lines with
    | [] => [([c], [])]
    | (line, ending) :: rest => (c :: line, ending) :: rest

/-- The lines of a text, each as its characters and its line break. -/
def split (isBreak : α → Bool) (cr lf : α) (text : List α) : List (List α × List α) :=
  text.foldr (push isBreak cr lf) []

variable {isBreak : α → Bool} {cr lf : α}

@[simp] theorem split_nil : split isBreak cr lf [] = [] := rfl

@[simp] theorem split_cons (c : α) (text : List α) :
    split isBreak cr lf (c :: text) = push isBreak cr lf c (split isBreak cr lf text) := rfl

/-! ## One character in front -/

/-- The characters in front of the first line break, and what the split is in either case. -/
theorem push_cases (isBreak : α → Bool) (cr lf c : α) (lines : List (List α × List α)) :
    (isBreak c ∧ ∃ rest, lines = ([], [lf]) :: rest ∧ c = cr ∧
        push isBreak cr lf c lines = ([], [c, lf]) :: rest) ∨
      (isBreak c ∧ push isBreak cr lf c lines = ([], [c]) :: lines) ∨
      (¬ isBreak c ∧ lines = [] ∧ push isBreak cr lf c lines = [([c], [])]) ∨
      (¬ isBreak c ∧ ∃ line ending rest, lines = (line, ending) :: rest ∧
        push isBreak cr lf c lines = (c :: line, ending) :: rest) := by
  unfold push
  by_cases hc : isBreak c
  · rw [if_pos hc]
    split
    · rename_i d rest
      by_cases hcrlf : c = cr ∧ d = lf
      · obtain ⟨hcr, rfl⟩ := hcrlf
        exact Or.inl ⟨hc, rest, rfl, hcr, if_pos ⟨hcr, rfl⟩⟩
      · exact Or.inr (Or.inl ⟨hc, if_neg hcrlf⟩)
    · exact Or.inr (Or.inl ⟨hc, rfl⟩)
  · rw [if_neg hc]
    cases lines with
    | nil => exact Or.inr (Or.inr (Or.inl ⟨hc, rfl, rfl⟩))
    | cons line rest => exact Or.inr (Or.inr (Or.inr ⟨hc, line.1, line.2, rest, rfl, rfl⟩))

theorem push_of_not_break {c : α} (h : ¬ isBreak c) (line ending : List α)
    (rest : List (List α × List α)) :
    push isBreak cr lf c ((line, ending) :: rest) = (c :: line, ending) :: rest := by
  unfold push
  rw [if_neg h]

/-- A line break in front of a line that does not complete it to `cr lf`. -/
theorem push_of_break {c : α} (h : isBreak c) {lines : List (List α × List α)}
    (hlines : c = cr → ∀ rest, lines ≠ ([], [lf]) :: rest) :
    push isBreak cr lf c lines = ([], [c]) :: lines := by
  rcases push_cases isBreak cr lf c lines with
    ⟨_, rest, heq, hcr, _⟩ | ⟨_, hpush⟩ | ⟨hnot, _⟩ | ⟨hnot, _⟩
  · exact absurd heq (hlines hcr rest)
  · exact hpush
  · exact absurd h hnot
  · exact absurd h hnot

theorem push_append {c : α} {a : List (List α × List α)} (ha : a ≠ [])
    (b : List (List α × List α)) :
    push isBreak cr lf c (a ++ b) = push isBreak cr lf c a ++ b := by
  cases a with
  | nil => exact absurd rfl ha
  | cons line rest =>
      unfold push
      by_cases hc : isBreak c
      · rw [if_pos hc, if_pos hc]
        obtain ⟨line, ending⟩ := line
        cases line with
        | cons d line => rfl
        | nil =>
            match ending with
            | [] => rfl
            | [d] =>
                by_cases hcrlf : c = cr ∧ d = lf
                · simp [hcrlf]
                · simp [hcrlf]
            | d :: e :: ending => rfl
      · rw [if_neg hc, if_neg hc]
        rfl

theorem push_ne_nil (c : α) (lines : List (List α × List α)) :
    push isBreak cr lf c lines ≠ [] := by
  rcases push_cases isBreak cr lf c lines with
    ⟨_, _, _, _, h⟩ | ⟨_, h⟩ | ⟨_, _, h⟩ | ⟨_, _, _, _, _, h⟩ <;> simp [h]

/-! ## Whole texts -/

theorem join_split (isBreak : α → Bool) (cr lf : α) (text : List α) :
    join (split isBreak cr lf text) = text := by
  induction text with
  | nil => rfl
  | cons c text ih =>
      rw [split_cons]
      rcases push_cases isBreak cr lf c
        (split isBreak cr lf text) with
        ⟨_, rest, heq, _, hpush⟩ | ⟨_, hpush⟩ | ⟨_, heq, hpush⟩ | ⟨_, line, ending, rest, heq, hpush⟩
      · rw [heq] at ih
        rw [hpush, ← ih]
        rfl
      · rw [hpush, join_cons, ih]
        rfl
      · rw [heq] at ih
        rw [hpush, ← ih]
        rfl
      · rw [heq] at ih
        rw [hpush, ← ih]
        rfl

theorem foldr_push_append {a : List (List α × List α)} (ha : a ≠ [])
    (b : List (List α × List α)) (text : List α) :
    text.foldr (push isBreak cr lf) (a ++ b) = text.foldr (push isBreak cr lf) a ++ b := by
  induction text with
  | nil => rfl
  | cons c text ih =>
      have hne : text.foldr (push isBreak cr lf) a ≠ [] := by
        cases text with
        | nil => exact ha
        | cons d text => exact push_ne_nil d _
      rw [List.foldr_cons, ih, push_append hne, List.foldr_cons]

/-- Lines hold no line break, and line breaks nothing else. -/
theorem breaks_of_mem_split {text : List α} {line : List α × List α}
    (h : line ∈ split isBreak cr lf text) :
    (∀ c ∈ line.1, ¬ isBreak c) ∧ ∀ c ∈ line.2, isBreak c := by
  induction text generalizing line with
  | nil => cases h
  | cons c text ih =>
      rw [split_cons] at h
      rcases push_cases isBreak cr lf c (split isBreak cr lf text) with
        ⟨hc, rest, heq, _, hpush⟩ | ⟨hc, hpush⟩ | ⟨hc, _, hpush⟩ | ⟨hc, first, ending, rest, heq, hpush⟩
      · rw [hpush, List.mem_cons] at h
        rcases h with rfl | h
        · have hlf := (ih (heq ▸ List.mem_cons_self)).2 lf (by simp)
          simp [hc, hlf]
        · exact ih (heq ▸ List.mem_cons_of_mem _ h)
      · rw [hpush, List.mem_cons] at h
        rcases h with rfl | h
        · simp [hc]
        · exact ih h
      · rw [hpush, List.mem_singleton] at h
        simp [h, hc]
      · rw [hpush, List.mem_cons] at h
        rcases h with rfl | h
        · obtain ⟨hfirst, hending⟩ := ih (heq ▸ List.mem_cons_self)
          exact ⟨by simpa [hc] using hfirst, hending⟩
        · exact ih (heq ▸ List.mem_cons_of_mem _ h)

/-- After the end of a line the rest of the text is split on its own, unless the cut parts
a pair `cr lf`. -/
theorem split_append {x y : List α} (hx : EndsLine isBreak x)
    (hxy : cr ∈ x.getLast? → lf ∉ y.head?) :
    split isBreak cr lf (x ++ y) = split isBreak cr lf x ++ split isBreak cr lf y := by
  rcases hx with rfl | ⟨c, hc, hbreak⟩
  · rfl
  · obtain ⟨front, rfl⟩ := List.getLast?_eq_some_iff.mp hc
    have hfirst : push isBreak cr lf c (split isBreak cr lf y) =
        [([], [c])] ++ split isBreak cr lf y := by
      apply push_of_break hbreak
      intro hcr rest hy
      have hjoin := join_split isBreak cr lf y
      rw [hy] at hjoin
      apply hxy
      · simp [hcr]
      · simp [← hjoin]
    have hone : push isBreak cr lf c [] = [([], [c])] := push_of_break hbreak (by simp)
    simp only [split, List.foldr_append, List.foldr_cons, List.foldr_nil] at hfirst ⊢
    rw [hfirst, foldr_push_append (by simp), hone]

theorem foldr_push_line {line : List α} (hline : ∀ c ∈ line, ¬ isBreak c) (text ending : List α)
    (rest : List (List α × List α)) :
    line.foldr (push isBreak cr lf) ((text, ending) :: rest) = (line ++ text, ending) :: rest := by
  induction line with
  | nil => rfl
  | cons c line ih =>
      rw [List.foldr_cons, ih fun d hd => hline d (by simp [hd]),
        push_of_not_break (hline c (by simp))]
      rfl

/-- One line with its line break. -/
theorem split_line {line : List α} (hline : ∀ c ∈ line, ¬ isBreak c) {c : α} (hc : isBreak c) :
    split isBreak cr lf (line ++ [c]) = [(line, [c])] := by
  have hone : push isBreak cr lf c [] = [([], [c])] := push_of_break hc (by simp)
  rw [split, List.foldr_append, List.foldr_cons, List.foldr_nil, hone,
    foldr_push_line hline, List.append_nil]

/-- One line without a line break. -/
theorem split_last_line {line : List α} (hline : ∀ c ∈ line, ¬ isBreak c) (hne : line ≠ []) :
    split isBreak cr lf line = [(line, [])] := by
  obtain ⟨front, c, rfl⟩ : ∃ front c, line = front ++ [c] :=
    ⟨line.dropLast, line.getLast hne, (List.dropLast_append_getLast hne).symm⟩
  have hone : push isBreak cr lf c [] = [([c], [])] := by
    unfold push
    rw [if_neg (hline c (by simp))]
  rw [split, List.foldr_append, List.foldr_cons, List.foldr_nil, hone,
    foldr_push_line fun d hd => hline d (by simp [hd])]

theorem exists_of_split_eq_cons {text : List α} {first : List α × List α}
    {rest : List (List α × List α)} (h : split isBreak cr lf text = first :: rest) :
    ∃ after, text = first.1 ++ after := by
  have hjoin := join_split isBreak cr lf text
  rw [h, join_cons] at hjoin
  exact ⟨first.2 ++ join rest, by rw [← hjoin, List.append_assoc]⟩

/-- The lines after the first one start behind a line break. -/
theorem exists_of_mem_rest {text : List α} {first line : List α × List α}
    {rest : List (List α × List α)} (h : split isBreak cr lf text = first :: rest)
    (hline : line ∈ rest) :
    ∃ before c after, text = before ++ c :: (line.1 ++ after) ∧ isBreak c := by
  induction text generalizing first rest with
  | nil => cases h
  | cons c text ih =>
      rw [split_cons] at h
      rcases push_cases isBreak cr lf c
        (split isBreak cr lf text) with
        ⟨_, rest', heq, _, hpush⟩ | ⟨hbreak, hpush⟩ | ⟨_, _, hpush⟩ | ⟨_, _, _, rest', heq, hpush⟩
      · obtain ⟨_, rfl⟩ := List.cons.inj (hpush.symm.trans h)
        obtain ⟨before, d, after, htext, hd⟩ := ih heq hline
        exact ⟨c :: before, d, after, by rw [htext]; rfl, hd⟩
      · obtain ⟨_, hrest⟩ := List.cons.inj (hpush.symm.trans h)
        cases hsplit : split isBreak cr lf text with
        | nil => simp [← hrest, hsplit] at hline
        | cons first' rest' =>
            rw [← hrest, hsplit, List.mem_cons] at hline
            rcases hline with rfl | hline
            · obtain ⟨after, htext⟩ := exists_of_split_eq_cons hsplit
              exact ⟨[], c, after, by rw [← htext]; rfl, hbreak⟩
            · obtain ⟨before, d, after, htext, hd⟩ := ih hsplit hline
              exact ⟨c :: before, d, after, by rw [htext]; rfl, hd⟩
      · obtain ⟨_, rfl⟩ := List.cons.inj (hpush.symm.trans h)
        cases hline
      · obtain ⟨_, rfl⟩ := List.cons.inj (hpush.symm.trans h)
        obtain ⟨before, d, after, htext, hd⟩ := ih heq hline
        exact ⟨c :: before, d, after, by rw [htext]; rfl, hd⟩

/-- Every line starts where the text starts or behind a line break. -/
theorem exists_of_mem_split {text : List α} {line : List α × List α}
    (h : line ∈ split isBreak cr lf text) :
    ∃ before after, text = before ++ line.1 ++ after ∧ EndsLine isBreak before := by
  cases hsplit : split isBreak cr lf text with
  | nil => simp [hsplit] at h
  | cons first rest =>
      rw [hsplit, List.mem_cons] at h
      rcases h with rfl | h
      · obtain ⟨after, htext⟩ := exists_of_split_eq_cons hsplit
        exact ⟨[], after, htext, Or.inl rfl⟩
      · obtain ⟨before, c, after, htext, hc⟩ := exists_of_mem_rest hsplit h
        exact ⟨before ++ [c], after, by simp [htext], endsLine_append_singleton hc⟩

end Lines
