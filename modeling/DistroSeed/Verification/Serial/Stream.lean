import DistroSeed.Library.Words
import DistroSeed.Model.SerialAgent

/-! The end marker of a command occurs in its stream once: at the end line. -/

namespace DistroSeed

open PyText

/-- The digits that `uuid4().hex` consists of. -/
def IsHex (b : UInt8) : Prop :=
  (48 ≤ b.toNat ∧ b.toNat ≤ 57) ∨ (97 ≤ b.toNat ∧ b.toNat ≤ 102)

instance (b : UInt8) : Decidable (IsHex b) := inferInstanceAs (Decidable (_ ∨ _))

/-- The stream of a command up to its end line. -/
def beforeEnd (token : Token) (output : Bytes) (status : UInt8) : Bytes :=
  beginLine token ++ output ++ errLine token status

theorem runCommand_eq (token : Token) (output : Bytes) (status : UInt8) :
    runCommand token output status =
      beforeEnd token output status ++ (endMarker token ++ (decimal status.toNat ++ [10])) := by
  simp [runCommand, beforeEnd, endLine]

/-! ## The bytes of a token -/

namespace Token

variable (token : Token)

theorem printable : ∀ b ∈ token.bytes, 33 ≤ b.toNat ∧ b.toNat ≤ 126 := by
  intro b hmem
  rcases List.mem_append.mp hmem with hname | hhex
  · exact token.name_printable b hname
  · rcases List.mem_cons.mp hhex with rfl | hhex
    · decide
    · have := token.hex_digit b hhex
      omega

theorem notMem_of_not_printable {c : UInt8} (hc : c.toNat < 33) : c ∉ token.bytes := by
  intro hmem
  have := token.printable c hmem
  omega

/-- A token ends with hexadecimal digits. -/
theorem exists_suffix :
    ∃ front a b c, token.bytes = front ++ [a, b, c] ∧ IsHex a ∧ IsHex b ∧ IsHex c := by
  obtain ⟨front, last, hlast, hhex⟩ :
      ∃ front last, List.length last = 3 ∧ token.hex = front ++ last :=
    ⟨token.hex.take 9, token.hex.drop 9, by simp [token.hex_length], by simp⟩
  obtain ⟨a, b, c, rfl⟩ := List.length_eq_three.mp hlast
  refine ⟨token.name ++ 45 :: front, a, b, c, by simp [Token.bytes, hhex], ?_, ?_, ?_⟩
  · exact token.hex_digit a (by simp [hhex])
  · exact token.hex_digit b (by simp [hhex])
  · exact token.hex_digit c (by simp [hhex])

end Token

/-! ## Where the marker can end -/

/-- What ends with a token does not end with a word whose last byte is no digit. -/
theorem token_ne_of_last {token : Token} (x y word : Bytes)
    (hword : ∃ c ∈ word.getLast?, ¬ IsHex c) : x ++ token.bytes ≠ y ++ word := by
  intro h
  obtain ⟨c, hc, hnot⟩ := hword
  obtain ⟨front, a, b, d, htoken, _, _, hd⟩ := token.exists_suffix
  have hlast := congrArg List.getLast? h
  rw [htoken] at hlast
  simp [List.getLast?_append, Option.mem_def.mp hc] at hlast
  exact hnot (hlast ▸ hd)

theorem token_ne_failed {token : Token} (x y : Bytes) :
    x ++ token.bytes ≠ y ++ ascii "failed" := by
  intro h
  obtain ⟨front, a, b, d, htoken, ha, _, _⟩ := token.exists_suffix
  have hfailed : ascii "failed" = [102, 97, 105] ++ [108, 101, 100] := by decide
  rw [htoken, hfailed, ← List.append_assoc, ← List.append_assoc] at h
  obtain ⟨_, hlast⟩ := List.append_inj' h rfl
  obtain ⟨rfl, _⟩ := List.cons.inj hlast
  revert ha
  decide

/-- The words of the line on a failed command. -/
theorem errLine_words {token : Token} {status : UInt8} (h : status ≠ 0) :
    errLine token status = ascii "ERR" ++ 32 :: (ascii "task" ++ 32 :: (token.bytes ++ 32 ::
      (ascii "failed" ++ 32 :: (ascii "with" ++ 32 :: (ascii "status" ++ 32 ::
        (decimal status.toNat ++ [10])))))) := by
  have h1 : ascii "ERR task " = ascii "ERR" ++ 32 :: (ascii "task" ++ [32]) := by decide
  have h2 : ascii " failed with status " =
      32 :: (ascii "failed" ++ 32 :: (ascii "with" ++ 32 :: (ascii "status" ++ [32]))) := by
    decide
  rw [errLine, if_pos h, h1, h2]
  simp

theorem blank_notMem_decimal (status : UInt8) : (32 : UInt8) ∉ decimal status.toNat := by
  intro hmem
  have := digit_of_mem_decimal (UInt8.toNat_lt status) 32 hmem
  revert this
  decide

theorem endMarker_eq (token : Token) :
    endMarker token = ascii "__DS_END__" ++ 32 :: (token.bytes ++ [32]) := by
  have h : ascii "__DS_END__ " = ascii "__DS_END__" ++ [32] := by decide
  rw [endMarker, h]
  simp

/-- A cut at a blank of the line on the failure, whose words are `w` and those of `r`. -/
theorem cut_cases {output w r z y : Bytes} (hw : (32 : UInt8) ∉ w)
    (h : z ++ 32 :: y = output ++ (w ++ 32 :: r)) :
    (∃ y', output = z ++ 32 :: y') ∨ z = output ++ w ∨
      ∃ z', z = output ++ w ++ 32 :: z' ∧ z' ++ 32 :: y = r := by
  rw [← List.append_assoc] at h
  rcases List.append_eq_append_iff.mp h with ⟨mid, hfront, hrest⟩ | ⟨mid, hz, hrest⟩
  · cases mid with
    | nil => exact Or.inr (Or.inl (by simpa using hfront.symm))
    | cons c mid =>
        obtain ⟨rfl, _⟩ := List.cons.inj hrest
        obtain ⟨y', houtput, _⟩ := Words.exists_of_last_word hw hfront.symm
        exact Or.inl ⟨y', houtput⟩
  · cases mid with
    | nil => exact Or.inr (Or.inl (by simpa using hz))
    | cons c mid =>
        obtain ⟨rfl, htail⟩ := List.cons.inj hrest
        exact Or.inr (Or.inr ⟨mid, hz, htail.symm⟩)

/-- The marker does not begin in the output and end in the line on the failure. -/
theorem not_infix_errLine {token : Token} {output : Bytes} {status : UInt8}
    (ho : ¬ endMarker token <:+: output) :
    ¬ endMarker token <:+: output ++ errLine token status := by
  by_cases hstatus : status = 0
  · simpa [errLine, hstatus] using ho
  · intro hinfix
    obtain ⟨x, y, h⟩ := hinfix
    have hblank : (32 : UInt8) ∉ token.bytes := token.notMem_of_not_printable (by decide)
    -- the marker ends with a blank, so it ends at one of the blanks of the line
    have hcut : (x ++ (ascii "__DS_END__" ++ [32]) ++ token.bytes) ++ 32 :: y =
        output ++ errLine token status := by
      rw [← h, endMarker_eq]
      simp
    rw [errLine_words hstatus] at hcut
    let front := x ++ (ascii "__DS_END__" ++ [32])
    rcases cut_cases (by decide) hcut with ⟨y', houtput⟩ | hz | ⟨z₁, hz, hcut₁⟩
    · apply ho
      refine ⟨x, y', ?_⟩
      rw [houtput, endMarker_eq]
      simp
    · exact token_ne_of_last _ _ _ (by decide) hz
    rcases Words.eq_or_of_first_word (by decide) hcut₁ with ⟨rfl, _⟩ | ⟨z₂, rfl, hcut₂⟩
    · exact token_ne_of_last front (output ++ ascii "ERR" ++ [32]) (ascii "task") (by decide)
        (by simpa [front] using hz)
    rcases Words.eq_or_of_first_word hblank hcut₂ with ⟨rfl, _⟩ | ⟨z₃, rfl, hcut₃⟩
    · have hbefore : x ++ (ascii "__DS_END__" ++ [32]) =
          output ++ ascii "ERR" ++ 32 :: (ascii "task" ++ [32]) :=
        List.append_cancel_right (by simpa using hz)
      have hend : ascii "__DS_END__" ++ [32] = ascii "__DS_END_" ++ [95, 32] := by decide
      have htask : ascii "ERR" ++ 32 :: (ascii "task" ++ [32]) =
          ascii "ERR tas" ++ [107, 32] := by decide
      rw [List.append_assoc, hend, htask, ← List.append_assoc, ← List.append_assoc] at hbefore
      obtain ⟨_, hlast⟩ := List.append_inj' hbefore rfl
      revert hlast
      decide
    rcases Words.eq_or_of_first_word (by decide) hcut₃ with ⟨rfl, _⟩ | ⟨z₄, rfl, hcut₄⟩
    · exact token_ne_failed front (output ++ ascii "ERR" ++ 32 :: (ascii "task" ++ 32 ::
        (token.bytes ++ [32]))) (by simpa [front] using hz)
    rcases Words.eq_or_of_first_word (by decide) hcut₄ with ⟨rfl, _⟩ | ⟨z₅, rfl, hcut₅⟩
    · exact token_ne_of_last front (output ++ ascii "ERR" ++ 32 :: (ascii "task" ++ 32 ::
        (token.bytes ++ 32 :: (ascii "failed" ++ [32])))) (ascii "with") (by decide)
        (by simpa [front] using hz)
    rcases Words.eq_or_of_first_word (by decide) hcut₅ with ⟨rfl, _⟩ | ⟨z₆, rfl, hcut₆⟩
    · exact token_ne_of_last front (output ++ ascii "ERR" ++ 32 :: (ascii "task" ++ 32 ::
        (token.bytes ++ 32 :: (ascii "failed" ++ 32 :: (ascii "with" ++ [32])))))
        (ascii "status") (by decide) (by simpa [front] using hz)
    have hmem : (32 : UInt8) ∈ decimal status.toNat ++ [10] := by
      rw [← hcut₆]
      simp
    simp [blank_notMem_decimal] at hmem

/-! ## The stream -/

/-- The begin line has one blank, the marker two. -/
theorem not_infix_beginLine (token : Token) :
    ¬ endMarker token <:+: ascii "__DS_BEGIN__ " ++ token.bytes := by
  intro hinfix
  have hblank : token.bytes.count 32 = 0 :=
    List.count_eq_zero.mpr (token.notMem_of_not_printable (by decide))
  have hcount := hinfix.sublist.count_le 32
  have hbegin : (ascii "__DS_BEGIN__ ").count 32 = 1 := by decide
  have hend : (ascii "__DS_END__ ").count 32 = 1 := by decide
  simp only [endMarker, List.count_append, hblank, hbegin, hend] at hcount
  revert hcount
  decide

theorem break_notMem_endMarker (token : Token) : (10 : UInt8) ∉ endMarker token := by
  have htoken : (10 : UInt8) ∉ token.bytes := token.notMem_of_not_printable (by decide)
  have hend : (10 : UInt8) ∉ ascii "__DS_END__ " := by decide
  simp [endMarker, htoken, hend]

theorem not_infix_beforeEnd {token : Token} {output : Bytes} {status : UInt8}
    (ho : ¬ endMarker token <:+: output) :
    ¬ endMarker token <:+: beforeEnd token output status := by
  intro hinfix
  obtain ⟨x, y, h⟩ := hinfix
  have hcut : x ++ (endMarker token ++ y) =
      (ascii "__DS_BEGIN__ " ++ token.bytes) ++ 10 :: (output ++ errLine token status) := by
    rw [← List.append_assoc, h, beforeEnd, beginLine]
    simp
  rcases Words.before_or_after (break_notMem_endMarker token) hcut with ⟨y', hy⟩ | ⟨x', hx⟩
  · exact not_infix_beginLine token ⟨x, y', by rw [hy, List.append_assoc]⟩
  · exact not_infix_errLine ho ⟨x', y, by rw [hx, List.append_assoc]⟩

/-- Where the marker occurs in the stream, the end line starts. -/
theorem eq_beforeEnd_of_marker {token : Token} {output : Bytes} {status : UInt8}
    (ho : ¬ endMarker token <:+: output) {rest x y : Bytes} (hrest : (32 : UInt8) ∉ rest)
    (h : beforeEnd token output status ++ (endMarker token ++ rest) =
      x ++ (endMarker token ++ y)) :
    x = beforeEnd token output status := by
  have hblank : (32 : UInt8) ∉ token.bytes := token.notMem_of_not_printable (by decide)
  have hend : (32 : UInt8) ∉ ascii "__DS_END__" := by decide
  let front := ascii "__DS_END__" ++ 32 :: token.bytes
  have hmarker : endMarker token = front ++ [32] := by
    rw [endMarker_eq]
    simp [front]
  have hcut : (x ++ front) ++ 32 :: y = (beforeEnd token output status ++ front) ++ 32 :: rest := by
    rw [hmarker] at h
    simpa using h.symm
  rcases Words.eq_or_of_last_separator hrest hcut with ⟨hx, _⟩ | ⟨y₁, hy₁, _⟩
  · exact List.append_cancel_right hx
  -- otherwise the marker ends before the last blank of the end line
  have hcut₁ : (x ++ front) ++ 32 :: y₁ =
      (beforeEnd token output status ++ ascii "__DS_END__") ++ 32 :: token.bytes := by
    rw [← hy₁]
    simp [front]
  rcases Words.eq_or_of_last_separator hblank hcut₁ with ⟨hx, _⟩ | ⟨y₂, hy₂, _⟩
  · exfalso
    exact token_ne_of_last (x ++ ascii "__DS_END__" ++ [32]) _ (ascii "__DS_END__") (by decide)
      (by simpa [front] using hx)
  obtain ⟨y₃, hy₃, _⟩ := Words.exists_of_last_word hend hy₂.symm
  have hnot : ¬ endMarker token <:+: beforeEnd token output status := not_infix_beforeEnd ho
  exfalso
  apply hnot
  refine ⟨x, y₃, ?_⟩
  rw [hy₃, hmarker]
  simp

end DistroSeed
