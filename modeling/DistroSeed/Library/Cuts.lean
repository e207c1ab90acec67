import DistroSeed.Library.Lines

/-! Splitting a text into lines chunk by chunk: when it treats every character like splitting
the whole text does. -/

namespace Lines

variable {α : Type*}

/-! ## Cutting a list of chunks -/

/-- The first `n` characters of the chunks, cut where the chunks end, and the chunks that are
left. -/
def cutAt : ℕ → List (List α) → List (List α) × List (List α)
  | 0, chunks => ([], chunks)
  | _ + 1, [] => ([], [])
  | n + 1, chunk :: chunks =>
      if chunk.length ≤ n + 1 then
        (chunk :: (cutAt (n + 1 - chunk.length) chunks).1, (cutAt (n + 1 - chunk.length) chunks).2)
      else ([chunk.take (n + 1)], chunk.drop (n + 1) :: chunks)

/-- Only one chunk is parted, and only if the cut falls inside of it. -/
structure Cut (n : ℕ) (chunks pieces rest : List (List α)) : Prop where
  length : pieces.flatten.length = n
  flatten : pieces.flatten ++ rest.flatten = chunks.flatten
  pieces_ne : ∀ piece ∈ pieces, piece ≠ []
  rest_ne : ∀ chunk ∈ rest, chunk ≠ []
  parted : chunks = pieces ++ rest ∨ ∃ front u v back, u ≠ [] ∧ v ≠ [] ∧
    pieces = front ++ [u] ∧ rest = v :: back ∧ chunks = front ++ (u ++ v) :: back

theorem cut_cutAt {n : ℕ} {chunks : List (List α)} (hne : ∀ chunk ∈ chunks, chunk ≠ [])
    (hn : n ≤ chunks.flatten.length) : Cut n chunks (cutAt n chunks).1 (cutAt n chunks).2 := by
  induction chunks generalizing n with
  | nil =>
      obtain rfl : n = 0 := by simpa using hn
      exact ⟨rfl, rfl, by simp [cutAt], by simp [cutAt], Or.inl rfl⟩
  | cons chunk chunks ih =>
      cases n with
      | zero => exact ⟨rfl, rfl, by simp [cutAt], by simpa [cutAt] using hne, Or.inl rfl⟩
      | succ n =>
          have hchunk : chunk ≠ [] := hne chunk (by simp)
          by_cases hlen : chunk.length ≤ n + 1
          · have hrest : n + 1 - chunk.length ≤ chunks.flatten.length := by
              rw [List.flatten_cons, List.length_append] at hn
              omega
            have hcut := ih (fun other h => hne other (by simp [h])) hrest
            rw [cutAt, if_pos hlen]
            refine ⟨?_, ?_, ?_, hcut.rest_ne, ?_⟩
            · rw [List.flatten_cons, List.length_append, hcut.length]
              omega
            · rw [List.flatten_cons, List.append_assoc, hcut.flatten, List.flatten_cons]
            · exact List.forall_mem_cons.mpr ⟨hchunk, hcut.pieces_ne⟩
            · rcases hcut.parted with h | ⟨front, u, v, back, hu, hv, hpieces, hleft, h⟩
              · exact Or.inl (congrArg (chunk :: ·) h)
              · refine Or.inr ⟨chunk :: front, u, v, back, hu, hv, ?_, hleft, ?_⟩
                · exact congrArg (chunk :: ·) hpieces
                · exact congrArg (chunk :: ·) h
          · have htake : chunk.take (n + 1) ≠ [] := by simp [hchunk]
            have hdrop : chunk.drop (n + 1) ≠ [] := by
              rw [Ne, List.drop_eq_nil_iff]
              exact hlen
            rw [cutAt, if_neg hlen]
            refine ⟨?_, ?_, by simpa using htake, ?_, ?_⟩
            · simp
              omega
            · simp [← List.append_assoc]
            · exact List.forall_mem_cons.mpr ⟨hdrop, fun other h => hne other (by simp [h])⟩
            · exact Or.inr ⟨[], _, _, chunks, htake, hdrop, rfl, rfl, by simp⟩

/-! ## Marked characters -/

variable [DecidableEq α]

/-- For every character of a text, what `p` says of its line. -/
def marks (isBreak : α → Bool) (cr lf : α) (p : List α → Bool) (text : List α) : List Bool :=
  (split isBreak cr lf text).flatMap fun line =>
    List.replicate (line.1 ++ line.2).length (p (line.1 ++ line.2))

/-- `p` says the same of a line and of every piece that the ends of the chunks cut it into. -/
def PiecesAgree (p : List α → Bool) : List (List α × List α) → List (List α) → Prop
  | [], _ => True
  | line :: lines, chunks =>
      (∀ piece ∈ (cutAt (line.1 ++ line.2).length chunks).1, p piece = p (line.1 ++ line.2)) ∧
        PiecesAgree p lines (cutAt (line.1 ++ line.2).length chunks).2

instance decidablePiecesAgree (p : List α → Bool) :
    (lines : List (List α × List α)) → (chunks : List (List α)) →
      Decidable (PiecesAgree p lines chunks)
  | [], _ => isTrue trivial
  | line :: lines, chunks =>
      haveI := decidablePiecesAgree p lines (cutAt (line.1 ++ line.2).length chunks).2
      inferInstanceAs (Decidable (_ ∧ _))

variable {isBreak : α → Bool} {cr lf : α}

/-! ## The first line -/

/-- What ends a line. -/
theorem ending_of_mem_split {text : List α} {line : List α × List α}
    (h : line ∈ split isBreak cr lf text) :
    line.2 = [] ∨ (∃ c, line.2 = [c]) ∨ line.2 = [cr, lf] := by
  induction text generalizing line with
  | nil => cases h
  | cons c text ih =>
      rw [split_cons] at h
      rcases push_cases isBreak cr lf c (split isBreak cr lf text) with
        ⟨_, rest, heq, hcr, hpush⟩ | ⟨_, hpush⟩ | ⟨_, _, hpush⟩ | ⟨_, first, ending, rest, heq, hpush⟩
      · rw [hpush, List.mem_cons] at h
        rcases h with rfl | h
        · exact Or.inr (Or.inr (by rw [hcr]))
        · exact ih (heq ▸ List.mem_cons_of_mem _ h)
      · rw [hpush, List.mem_cons] at h
        rcases h with rfl | h
        · exact Or.inr (Or.inl ⟨c, rfl⟩)
        · exact ih h
      · rw [hpush, List.mem_singleton] at h
        exact Or.inl (by rw [h])
      · rw [hpush, List.mem_cons] at h
        rcases h with rfl | h
        · have hfirst : (first, ending) ∈ split isBreak cr lf text := heq ▸ List.mem_cons_self
          simpa using ih hfirst
        · exact ih (heq ▸ List.mem_cons_of_mem _ h)

/-- One line that ends with the pair `cr lf`. -/
theorem split_line_pair {line : List α} (hline : ∀ c ∈ line, ¬ isBreak c) (hcr : isBreak cr)
    (hlf : isBreak lf) : split isBreak cr lf (line ++ [cr, lf]) = [(line, [cr, lf])] := by
  have hone : push isBreak cr lf lf [] = [([], [lf])] := push_of_break hlf (by simp)
  have htwo : push isBreak cr lf cr [([], [lf])] = [([], [cr, lf])] := by
    unfold push
    rw [if_pos hcr]
    simp
  rw [split, List.foldr_append, List.foldr_cons, List.foldr_cons, List.foldr_nil, hone, htwo,
    foldr_push_line hline, List.append_nil]

/-- Every part of a line is one line. -/
theorem exists_split_of_infix {text piece : List α} {line : List α × List α}
    (h : line ∈ split isBreak cr lf text) (hpiece : piece <:+: line.1 ++ line.2)
    (hne : piece ≠ []) : ∃ one, split isBreak cr lf piece = [one] := by
  obtain ⟨hline, hbreaks⟩ := breaks_of_mem_split h
  obtain ⟨body, ending, rfl, hbody, hending⟩ : ∃ body ending, piece = body ++ ending ∧
      (∀ c ∈ body, ¬ isBreak c) ∧ ending <:+: line.2 := by
    obtain ⟨before, after, hsplit⟩ := hpiece
    rw [List.append_assoc] at hsplit
    rcases List.append_eq_append_iff.mp hsplit with ⟨mid, hfront, hback⟩ | ⟨mid, _, hback⟩
    · rcases List.append_eq_append_iff.mp hback with ⟨tail, hmid, hafter⟩ | ⟨tail, hmid, htail⟩
      · refine ⟨piece, [], by simp, fun c hc => hline c ?_, List.nil_infix⟩
        rw [hfront, hmid]
        simp [hc]
      · refine ⟨mid, tail, hmid, fun c hc => hline c ?_, ⟨[], after, by simpa using htail.symm⟩⟩
        rw [hfront]
        simp [hc]
    · exact ⟨[], piece, rfl, by simp, ⟨mid, after, by rw [hback, List.append_assoc]⟩⟩
  have hmem : ∀ c ∈ ending, isBreak c := fun c hc => hbreaks c (hending.subset hc)
  have hlen : ending = [] ∨ (∃ c, ending = [c]) ∨ ending = [cr, lf] := by
    rcases ending_of_mem_split h with hnil | ⟨c, hone⟩ | hpair
    · exact Or.inl (List.infix_nil.mp (hnil ▸ hending))
    · rw [hone] at hending
      rcases ending with _ | ⟨d, _ | ⟨e, ending⟩⟩
      · exact Or.inl rfl
      · exact Or.inr (Or.inl ⟨d, rfl⟩)
      · have := hending.length_le
        simp at this
    · rw [hpair] at hending
      rcases ending with _ | ⟨d, _ | ⟨e, ending⟩⟩
      · exact Or.inl rfl
      · exact Or.inr (Or.inl ⟨d, rfl⟩)
      · exact Or.inr (Or.inr (hending.eq_of_length (Nat.le_antisymm hending.length_le (by simp))))
  rcases hlen with rfl | ⟨c, rfl⟩ | rfl
  · rw [List.append_nil] at hne ⊢
    exact ⟨_, split_last_line hbody hne⟩
  · exact ⟨_, split_line hbody (hmem c (by simp))⟩
  · exact ⟨_, split_line_pair hbody (hmem cr (by simp)) (hmem lf (by simp))⟩

/-- The text behind its first line. -/
structure AfterFirst (isBreak : α → Bool) (cr lf : α) (first : List α × List α)
    (rest : List (List α × List α)) : Prop where
  split_eq : split isBreak cr lf (join rest) = rest
  ends : rest ≠ [] → ∃ c ∈ first.2.getLast?, isBreak c
  apart : cr ∈ first.2.getLast? → lf ∉ (join rest).head?

theorem afterFirst_of_split_eq_cons (hlf : isBreak lf) (hcrlf : cr ≠ lf) {text : List α}
    {first : List α × List α} {rest : List (List α × List α)}
    (h : split isBreak cr lf text = first :: rest) : AfterFirst isBreak cr lf first rest := by
  induction text generalizing first rest with
  | nil => cases h
  | cons c text ih =>
      rw [split_cons] at h
      rcases push_cases isBreak cr lf c (split isBreak cr lf text) with
        ⟨_, rest', heq, _, hpush⟩ | ⟨hc, hpush⟩ | ⟨_, _, hpush⟩ | ⟨_, _, _, rest', heq, hpush⟩
      · obtain ⟨rfl, rfl⟩ := List.cons.inj (hpush.symm.trans h)
        have hafter := ih heq
        exact ⟨hafter.split_eq, fun _ => ⟨lf, by simp, hlf⟩, by simpa using hafter.apart⟩
      · obtain ⟨rfl, rfl⟩ := List.cons.inj (hpush.symm.trans h)
        have hjoin := join_split isBreak cr lf text
        refine ⟨by rw [hjoin], fun _ => ⟨c, by simp, hc⟩, fun hcr hhead => ?_⟩
        obtain rfl : c = cr := by simpa using hcr
        rw [hjoin] at hhead
        obtain ⟨after, rfl⟩ := List.head?_eq_some_iff.mp hhead
        -- a line feed behind the carriage return would belong to the same line break
        have hfeed : split isBreak c lf (lf :: after) = ([], [lf]) :: split isBreak c lf after := by
          rw [split_cons]
          exact push_of_break hlf fun heq => absurd heq.symm hcrlf
        rw [hfeed] at hpush
        unfold push at hpush
        rw [if_pos hc] at hpush
        simp at hpush
      · obtain ⟨rfl, rfl⟩ := List.cons.inj (hpush.symm.trans h)
        exact ⟨by simp, by simp, by simp⟩
      · obtain ⟨rfl, rfl⟩ := List.cons.inj (hpush.symm.trans h)
        have hafter := ih heq
        exact ⟨hafter.split_eq, hafter.ends, hafter.apart⟩

/-! ## Marking chunk by chunk -/

variable {p : List α → Bool}

theorem marks_append {x y : List α} (hx : EndsLine isBreak x) (hxy : cr ∈ x.getLast? → lf ∉ y.head?) :
    marks isBreak cr lf p (x ++ y) = marks isBreak cr lf p x ++ marks isBreak cr lf p y := by
  rw [marks, split_append hx hxy, List.flatMap_append]
  rfl

/-- A text of one line. -/
theorem marks_of_split_eq_singleton {text : List α} {line : List α × List α}
    (h : split isBreak cr lf text = [line]) :
    marks isBreak cr lf p text = List.replicate text.length (p text) := by
  have hjoin := join_split isBreak cr lf text
  rw [h, join_cons, join_nil, List.append_nil] at hjoin
  rw [marks, h, hjoin.symm]
  simp

omit [DecidableEq α] in
theorem flatMap_replicate_eq_iff {pieces : List (List α)} (hne : ∀ piece ∈ pieces, piece ≠ [])
    (b : Bool) :
    (pieces.flatMap fun piece => List.replicate piece.length (p piece)) =
      List.replicate pieces.flatten.length b ↔ ∀ piece ∈ pieces, p piece = b := by
  rw [List.eq_replicate_iff]
  constructor
  · intro h piece hpiece
    apply h.2
    refine List.mem_flatMap.mpr ⟨piece, hpiece, List.mem_replicate.mpr ⟨?_, rfl⟩⟩
    simpa using hne piece hpiece
  · intro h
    refine ⟨by simp [List.length_flatMap, List.length_flatten], fun c hc => ?_⟩
    obtain ⟨piece, hpiece, hmem⟩ := List.mem_flatMap.mp hc
    rw [List.eq_of_mem_replicate hmem]
    exact h piece hpiece

/-- A chunk that is parted is parted where the line ends, so its marks are those of its parts. -/
private theorem flatMap_marks_cut {line : List α × List α} {rest : List (List α × List α)}
    (hafter : AfterFirst isBreak cr lf line rest) {n : ℕ} {chunks pieces left : List (List α)}
    (hcut : Cut n chunks pieces left) (hpieces : pieces.flatten = line.1 ++ line.2)
    (hleft : left.flatten = join rest) :
    chunks.flatMap (marks isBreak cr lf p) =
      pieces.flatMap (marks isBreak cr lf p) ++ left.flatMap (marks isBreak cr lf p) := by
  rcases hcut.parted with h | ⟨front, u, v, back, hu, hv, rfl, rfl, rfl⟩
  · rw [h, List.flatMap_append]
  · have hrest : rest ≠ [] := by
      rintro rfl
      simp [hv] at hleft
    have hlast : line.2.getLast? = u.getLast? := by
      have hending : line.2 ≠ [] := by
        rintro hnil
        obtain ⟨c, hc, _⟩ := hafter.ends hrest
        simp [hnil] at hc
      have hboth := congrArg List.getLast? hpieces
      rw [List.flatten_append, List.flatten_singleton, List.getLast?_append_of_ne_nil _ hu,
        List.getLast?_append_of_ne_nil _ hending] at hboth
      exact hboth.symm
    have huv : marks isBreak cr lf p (u ++ v) =
        marks isBreak cr lf p u ++ marks isBreak cr lf p v := by
      apply marks_append
      · exact Or.inr (hlast ▸ hafter.ends hrest)
      · intro hcr hlfv
        apply hafter.apart (hlast ▸ hcr)
        rw [← hleft, List.flatten_cons, List.head?_append_of_ne_nil _ hv]
        exact hlfv
    simp [huv]

/-- A piece of one line is one line to the chunk that it lies in. -/
private theorem flatMap_marks_pieces {text : List α} {line : List α × List α}
    {pieces : List (List α)} (hline : line ∈ split isBreak cr lf text)
    (hpieces : pieces.flatten = line.1 ++ line.2) (hne : ∀ piece ∈ pieces, piece ≠ []) :
    pieces.flatMap (marks isBreak cr lf p) =
      pieces.flatMap fun piece => List.replicate piece.length (p piece) := by
  refine List.flatMap_congr fun piece hpiece => ?_
  have hinfix : piece <:+: line.1 ++ line.2 := hpieces ▸ List.infix_of_mem_flatten hpiece
  obtain ⟨one, hone⟩ := exists_split_of_infix hline hinfix (hne piece hpiece)
  exact marks_of_split_eq_singleton hone

/-- The chunks are marked like the whole text exactly if the pieces agree with their lines. -/
theorem flatMap_marks_eq_iff (hlf : isBreak lf) (hcrlf : cr ≠ lf) {chunks : List (List α)}
    (hne : ∀ chunk ∈ chunks, chunk ≠ []) {lines : List (List α × List α)}
    (hlines : split isBreak cr lf chunks.flatten = lines) :
    chunks.flatMap (marks isBreak cr lf p) = marks isBreak cr lf p chunks.flatten ↔
      PiecesAgree p lines chunks := by
  induction lines generalizing chunks with
  | nil =>
      have hjoin := join_split isBreak cr lf chunks.flatten
      rw [hlines, join_nil] at hjoin
      have hnil : chunks = [] := by
        cases chunks with
        | nil => rfl
        | cons chunk chunks => simp [hne chunk (by simp)] at hjoin
      subst hnil
      exact iff_of_true rfl trivial
  | cons line rest ih =>
      have hafter := afterFirst_of_split_eq_cons hlf hcrlf hlines
      have hjoin := join_split isBreak cr lf chunks.flatten
      rw [hlines, join_cons] at hjoin
      have hn : (line.1 ++ line.2).length ≤ chunks.flatten.length := by
        rw [← hjoin]
        simp
      have hcut := cut_cutAt hne hn
      rw [PiecesAgree]
      generalize cutAt (line.1 ++ line.2).length chunks = cut at hcut ⊢
      obtain ⟨pieces, left⟩ := cut
      obtain ⟨hpieces, hleft⟩ : pieces.flatten = line.1 ++ line.2 ∧ left.flatten = join rest :=
        List.append_inj (hcut.flatten.trans hjoin.symm) hcut.length
      have hwhole : marks isBreak cr lf p chunks.flatten =
          List.replicate (line.1 ++ line.2).length (p (line.1 ++ line.2)) ++
            marks isBreak cr lf p left.flatten := by
        rw [marks, hlines, List.flatMap_cons, hleft, marks, hafter.split_eq]
      have hparts := flatMap_marks_cut (p := p) hafter hcut hpieces hleft
      have hone := flatMap_marks_pieces (p := p) (hlines ▸ List.mem_cons_self) hpieces
        hcut.pieces_ne
      have hlen : (pieces.flatMap (marks isBreak cr lf p)).length =
          (List.replicate (line.1 ++ line.2).length (p (line.1 ++ line.2))).length := by
        rw [hone, List.length_replicate, ← hpieces]
        simp [List.length_flatMap, List.length_flatten]
      rw [← flatMap_replicate_eq_iff hcut.pieces_ne, hcut.length, ← hone,
        ← ih hcut.rest_ne (by rw [hleft, hafter.split_eq]), hparts, hwhole]
      constructor
      · intro h
        exact List.append_inj h hlen
      · rintro ⟨hfirst, hrest⟩
        rw [hfirst, hrest]

/-! ## One cut -/

/-- A text that is cut in two has one line less than its two parts together: the last line of the
first part goes on, or its line break does. -/
def Joins (cr lf : α) (first second : List α × List α) : Prop :=
  first.2 = [] ∨ first.2 = [cr] ∧ second = ([], [lf])

instance (first second : List α × List α) : Decidable (Joins cr lf first second) :=
  inferInstanceAs (Decidable (_ ∨ _))

/-- No line is empty. -/
theorem ne_nil_of_mem_split {text : List α} {line : List α × List α}
    (h : line ∈ split isBreak cr lf text) : line.1 ++ line.2 ≠ [] := by
  induction text generalizing line with
  | nil => cases h
  | cons c text ih =>
      rw [split_cons] at h
      rcases push_cases isBreak cr lf c (split isBreak cr lf text) with
        ⟨_, rest, heq, _, hpush⟩ | ⟨_, hpush⟩ | ⟨_, _, hpush⟩ | ⟨_, first, ending, rest, heq, hpush⟩
      · rw [hpush, List.mem_cons] at h
        rcases h with rfl | h
        · simp
        · exact ih (heq ▸ List.mem_cons_of_mem _ h)
      · rw [hpush, List.mem_cons] at h
        rcases h with rfl | h
        · simp
        · exact ih h
      · rw [hpush, List.mem_singleton] at h
        simp [h]
      · rw [hpush, List.mem_cons] at h
        rcases h with rfl | h
        · simp
        · exact ih (heq ▸ List.mem_cons_of_mem _ h)

/-- A character in front of a line that is not just the rest of a line break. -/
private theorem push_cons_of_length {c : α} {line : List α × List α}
    (hline : 2 ≤ (line.1 ++ line.2).length) (rest : List (List α × List α)) :
    push isBreak cr lf c (line :: rest) =
      if isBreak c then ([], [c]) :: line :: rest else (c :: line.1, line.2) :: rest := by
  by_cases hc : isBreak c
  · rw [if_pos hc]
    apply push_of_break hc
    rintro _ other heq
    obtain ⟨rfl, _⟩ := List.cons.inj heq
    simp at hline
  · rw [if_neg hc]
    exact push_of_not_break hc line.1 line.2 rest

private theorem eq_of_singleton_eq_concat {β : Type*} {b b' : β} {bs : List β}
    (h : [b] = bs ++ [b']) : bs = [] ∧ b' = b := by
  have hconcat : [] ++ [b] = bs ++ [b'] := h
  obtain ⟨rfl, rfl⟩ := List.append_singleton_inj.mp hconcat
  exact ⟨rfl, rfl⟩

/-- A cut behind the first character. -/
private theorem push_append_of_joins {c : α} {before after : List (List α × List α)}
    {first second : List α × List α} (hx : push isBreak cr lf c [] = before ++ [first])
    (hjoins : Joins cr lf first second) :
    ∃ line, line.1 ++ line.2 = first.1 ++ first.2 ++ (second.1 ++ second.2) ∧
      push isBreak cr lf c (second :: after) = before ++ line :: after := by
  by_cases hc : isBreak c
  · rw [push_of_break hc (by simp)] at hx
    obtain ⟨rfl, rfl⟩ := eq_of_singleton_eq_concat hx
    obtain ⟨hcr, rfl⟩ := hjoins.resolve_left (by simp)
    obtain rfl := List.singleton_inj.mp hcr
    refine ⟨([], [c, lf]), rfl, ?_⟩
    unfold push
    rw [if_pos hc]
    simp
  · have hone : push isBreak cr lf c [] = [([c], [])] := by
      unfold push
      rw [if_neg hc]
    rw [hone] at hx
    obtain ⟨rfl, rfl⟩ := eq_of_singleton_eq_concat hx
    exact ⟨(c :: second.1, second.2), rfl, push_of_not_break hc second.1 second.2 after⟩

/-- A character in front of a single line that is cut further behind. -/
private theorem push_single_of_joins {c : α} {before : List (List α × List α)}
    {first first' second : List α × List α}
    (hx : push isBreak cr lf c [first'] = before ++ [first]) (hjoins : Joins cr lf first second)
    (hfirst : first'.1 ++ first'.2 ≠ []) (hsecond : second.1 ++ second.2 ≠ []) :
    Joins cr lf first' second ∧
      ∀ line after, line.1 ++ line.2 = first'.1 ++ first'.2 ++ (second.1 ++ second.2) →
        ∃ line', line'.1 ++ line'.2 = first.1 ++ first.2 ++ (second.1 ++ second.2) ∧
          push isBreak cr lf c (line :: after) = before ++ line' :: after := by
  have hlength : 2 ≤ (first'.1 ++ first'.2 ++ (second.1 ++ second.2)).length := by
    rw [List.length_append]
    have := List.length_pos_iff.mpr hfirst
    have := List.length_pos_iff.mpr hsecond
    omega
  rcases push_cases isBreak cr lf c [first'] with
    ⟨_, rest, heq, _, hpush⟩ | ⟨hc, hpush⟩ | ⟨_, hnil, _⟩ | ⟨hc, text, ending, rest, heq, hpush⟩
  · -- the first part ends with a whole line break
    obtain ⟨_, rfl⟩ := List.cons.inj heq
    obtain ⟨_, rfl⟩ := eq_of_singleton_eq_concat (hpush.symm.trans hx)
    simp [Joins] at hjoins
  · have hx : [([], [c])] ++ [first'] = before ++ [first] := hpush.symm.trans hx
    obtain ⟨rfl, rfl⟩ := List.append_singleton_inj.mp hx
    refine ⟨hjoins, fun line after htext => ⟨line, htext, ?_⟩⟩
    rw [push_cons_of_length (htext ▸ hlength), if_pos hc]
    rfl
  · cases hnil
  · obtain ⟨rfl, rfl⟩ := List.cons.inj heq
    obtain ⟨rfl, rfl⟩ := eq_of_singleton_eq_concat (hpush.symm.trans hx)
    refine ⟨hjoins, fun line after htext =>
      ⟨(c :: line.1, line.2), congrArg (c :: ·) htext, ?_⟩⟩
    rw [push_cons_of_length (htext ▸ hlength), if_neg hc]
    rfl

/-- Where the cut parts a line, the two parts of the line are the only lines that change. -/
theorem split_append_of_joins {x y : List α} {before after : List (List α × List α)}
    {first second : List α × List α} (hx : split isBreak cr lf x = before ++ [first])
    (hy : split isBreak cr lf y = second :: after) (hjoins : Joins cr lf first second) :
    ∃ line, line.1 ++ line.2 = first.1 ++ first.2 ++ (second.1 ++ second.2) ∧
      split isBreak cr lf (x ++ y) = before ++ line :: after := by
  have hsecond : second.1 ++ second.2 ≠ [] := ne_nil_of_mem_split (hy ▸ List.mem_cons_self)
  induction x generalizing before first with
  | nil => simp at hx
  | cons c x ih =>
      rw [List.cons_append, split_cons]
      rw [split_cons] at hx
      rcases List.eq_nil_or_concat' (split isBreak cr lf x) with hnil | ⟨before', first', hsplit⟩
      · obtain rfl : x = [] := by
          rw [← join_split isBreak cr lf x, hnil, join_nil]
        rw [List.nil_append, hy]
        exact push_append_of_joins hx hjoins
      · by_cases hbefore : before' = []
        · subst hbefore
          have hone : split isBreak cr lf x = [first'] := hsplit
          rw [hone] at hx
          have hfirst : first'.1 ++ first'.2 ≠ [] := ne_nil_of_mem_split (hone ▸ List.mem_cons_self)
          obtain ⟨hjoins', hpush⟩ := push_single_of_joins hx hjoins hfirst hsecond
          obtain ⟨line, htext, hline⟩ := ih hsplit hjoins'
          rw [hline, List.nil_append]
          exact hpush line after htext
        · rw [hsplit, push_append hbefore] at hx
          obtain ⟨rfl, rfl⟩ := List.append_singleton_inj.mp hx
          obtain ⟨line, htext, hline⟩ := ih hsplit hjoins
          exact ⟨line, htext, by rw [hline, push_append hbefore]⟩

/-- Where it does not, no line changes. -/
theorem split_append_of_not_joins (hlf : isBreak lf) (hcrlf : cr ≠ lf) {x y : List α}
    (h : ∀ first ∈ (split isBreak cr lf x).getLast?, ∀ second ∈ (split isBreak cr lf y).head?,
      ¬ Joins cr lf first second) :
    split isBreak cr lf (x ++ y) = split isBreak cr lf x ++ split isBreak cr lf y := by
  cases y with
  | nil => simp
  | cons d y =>
      rcases List.eq_nil_or_concat' (split isBreak cr lf x) with hnil | ⟨before, first, hsplit⟩
      · have hx := join_split isBreak cr lf x
        rw [hnil, join_nil] at hx
        rw [← hx]
        rfl
      · have hne : push isBreak cr lf d (split isBreak cr lf y) ≠ [] := push_ne_nil d _
        obtain ⟨second, after, hy⟩ := List.exists_cons_of_ne_nil hne
        have hjoins := h first (by simp [hsplit]) second (by rw [split_cons, hy]; rfl)
        obtain ⟨hfirst, hpair⟩ := not_or.mp hjoins
        have hmem : first ∈ split isBreak cr lf x := by simp [hsplit]
        have htext : x = join before ++ first.1 ++ first.2 := by
          rw [← join_split isBreak cr lf x, hsplit]
          simp [join]
        have hlast : x.getLast? = first.2.getLast? := by
          rw [htext, List.getLast?_append_of_ne_nil _ hfirst]
        apply split_append
        · obtain ⟨c, hc⟩ := Option.ne_none_iff_exists'.mp (mt List.getLast?_eq_none_iff.mp hfirst)
          exact Or.inr ⟨c, hlast ▸ hc, (breaks_of_mem_split hmem).2 c (List.mem_of_getLast? hc)⟩
        · intro hcr hd
          obtain rfl : d = lf := by simpa using hd
          rw [push_of_break hlf fun heq => absurd heq.symm hcrlf] at hy
          obtain ⟨rfl, _⟩ := List.cons.inj hy
          rw [hlast] at hcr
          rcases ending_of_mem_split hmem with hnil | ⟨c, hone⟩ | htwo
          · exact hfirst hnil
          · obtain rfl : c = cr := by simpa [hone] using hcr
            exact hpair ⟨hone, rfl⟩
          · rw [htwo] at hcr
            exact hcrlf (by simpa using hcr.symm)

end Lines
