import DistroSeed.Verification.Serial.Strip

/-! How `_run_agent_script` reads the status from what it received. -/

namespace DistroSeed

open PyText Lines Utf8

/-! ## Where the end line starts -/

theorem beforeEnd_eq (token : Token) (output : Bytes) (status : UInt8) :
    beforeEnd token output status =
      (ascii "__DS_BEGIN__ " ++ token.bytes) ++ 10 :: (output ++ errLine token status) := by
  simp [beforeEnd, beginLine]

/-- The line on a failure starts with a letter and ends where a line ends. -/
theorem exists_errLine_eq (token : Token) {status : UInt8} (h : status ≠ 0) :
    ∃ text, errLine token status = ascii "ERR" ++ (text ++ [10]) ∧
      ∀ b ∈ text, 32 ≤ b.toNat ∧ b.toNat ≤ 126 := by
  refine ⟨ascii " task " ++ token.bytes ++ ascii " failed with status " ++ decimal status.toNat,
    ?_, ?_⟩
  · have herr : ascii "ERR task " = ascii "ERR" ++ ascii " task " := by decide
    rw [errLine, if_pos h, herr]
    simp
  · intro b hmem
    have hdigit := digit_of_mem_decimal (UInt8.toNat_lt status) b
    have htoken := token.printable b
    have htask : between 32 126 (ascii " task ") := by decide
    have hfailed : between 32 126 (ascii " failed with status ") := by decide
    rcases List.mem_append.mp hmem with hmem | hmem
    · rcases List.mem_append.mp hmem with hmem | hmem
      · rcases List.mem_append.mp hmem with hmem | hmem
        · exact between_iff.mp htask b hmem
        · have := htoken hmem
          omega
      · exact between_iff.mp hfailed b hmem
    · have := hdigit hmem
      omega

theorem endsLine_beforeEnd_iff (token : Token) (output : Bytes) (status : UInt8) :
    EndsLine isByteBreak (beforeEnd token output status) ↔
      status ≠ 0 ∨ EndsLine isByteBreak output := by
  rw [beforeEnd_eq, endsLine_append_cons_iff (by decide)]
  by_cases hstatus : status = 0
  · simp [errLine, hstatus]
  · obtain ⟨text, herr, _⟩ := exists_errLine_eq token hstatus
    rw [herr, ← List.append_assoc, ← List.append_assoc]
    exact iff_of_true (endsLine_append_singleton (by decide)) (Or.inl hstatus)

theorem endsLine_decode_beforeEnd_iff (token : Token) (output : Bytes) (status : UInt8) :
    EndsLine isTextBreak (decode (beforeEnd token output status)) ↔
      status ≠ 0 ∨ EndsLine isTextBreak (decode output) := by
  rw [beforeEnd_eq, decode_append_cons (by decide), endsLine_append_cons_iff (by decide)]
  by_cases hstatus : status = 0
  · simp [errLine, hstatus]
  · obtain ⟨text, herr, _⟩ := exists_errLine_eq token hstatus
    rw [herr, ← List.append_assoc, ← List.append_assoc, decode_append_cons (by decide)]
    exact iff_of_true (endsLine_append_singleton (by decide)) (Or.inl hstatus)

/-- A line of bytes ends where a line of the decoded text ends. -/
theorem endsLine_decode {text : Bytes} (h : EndsLine isByteBreak text) :
    EndsLine isTextBreak (decode text) := by
  rcases h with rfl | ⟨c, hc, hbreak⟩
  · exact Or.inl rfl
  · obtain ⟨front, rfl⟩ := List.getLast?_eq_some_iff.mp hc
    have hcases : c = 10 ∨ c = 13 := by simpa [isByteBreak] using hbreak
    have hascii : Ascii c := by rcases hcases with rfl | rfl <;> decide
    rw [decode_append_cons hascii]
    apply endsLine_append_singleton
    rcases hcases with rfl | rfl <;> decide

/-! ## The end line -/

theorem endMarker_printable {token : Token} :
    ∀ b ∈ endMarker token, 32 ≤ b.toNat ∧ b.toNat ≤ 126 := by
  intro b hmem
  have hend : between 32 126 (ascii "__DS_END__ ") := by decide
  rcases List.mem_append.mp hmem with hmem | hmem
  · rcases List.mem_append.mp hmem with hmem | hmem
    · exact between_iff.mp hend b hmem
    · have := token.printable b hmem
      omega
  · rw [List.mem_singleton.mp hmem]
    decide

theorem ascii_of_printable {text : Bytes} (h : ∀ b ∈ text, 32 ≤ b.toNat ∧ b.toNat ≤ 126) :
    ∀ b ∈ text, Ascii b := by
  intro b hmem
  have := h b hmem
  unfold Ascii
  omega

theorem not_isByteBreak_of_printable {b : UInt8} (h : 32 ≤ b.toNat) : ¬ isByteBreak b := by
  intro hbreak
  have hcases : b = 10 ∨ b = 13 := by simpa [isByteBreak] using hbreak
  rcases hcases with rfl | rfl <;> exact absurd h (by decide)

theorem not_isTextBreak_of_printable {c : ℕ} (h : 32 ≤ c ∧ c ≤ 126) : ¬ isTextBreak c := by
  intro hbreak
  simp only [isTextBreak, List.mem_cons, decide_eq_true_eq] at hbreak
  simp at hbreak
  omega

/-- What is received of the end line behind the marker: digits, and maybe the line feed. -/
structure IsTail (digits ending : Bytes) : Prop where
  digit : ∀ b ∈ digits, 48 ≤ b.toNat ∧ b.toNat ≤ 57
  ending : ending = [] ∨ ending = [10]

namespace IsTail

variable {digits ending : Bytes}

theorem printable (h : IsTail digits ending) (token : Token) :
    ∀ b ∈ endMarker token ++ digits, 32 ≤ b.toNat ∧ b.toNat ≤ 126 := by
  intro b hmem
  rcases List.mem_append.mp hmem with hmem | hmem
  · exact endMarker_printable b hmem
  · have := h.digit b hmem
    omega

theorem blank_notMem (h : IsTail digits ending) : (32 : UInt8) ∉ digits ++ ending := by
  intro hmem
  rcases List.mem_append.mp hmem with hmem | hmem
  · have := h.digit 32 hmem
    revert this
    decide
  · rcases h.ending with rfl | rfl
    · cases hmem
    · revert hmem
      decide

theorem textLines_end (h : IsTail digits ending) (token : Token) :
    textLines ((endMarker token ++ (digits ++ ending)).map UInt8.toNat) =
      [((endMarker token ++ digits).map UInt8.toNat, ending.map UInt8.toNat)] := by
  have hline : ∀ c ∈ (endMarker token ++ digits).map UInt8.toNat, ¬ isTextBreak c := by
    intro c hc
    obtain ⟨b, hb, rfl⟩ := List.mem_map.mp hc
    exact not_isTextBreak_of_printable (h.printable token b hb)
  rw [← List.append_assoc, List.map_append]
  rcases h.ending with rfl | rfl
  · rw [List.map_nil, List.append_nil]
    exact split_last_line hline (by simp [endMarker])
  · exact split_line hline (by decide)

end IsTail

theorem findEndLine_append {marker : List ℕ} {x y line ending : List ℕ}
    (hlines : textLines (x ++ y) = textLines x ++ [(line, ending)])
    (hline : marker.isPrefixOf line) : findEndLine marker (x ++ y) = line := by
  rw [findEndLine, hlines, List.map_append, List.foldl_append]
  exact if_pos hline

theorem findEndLine_eq_nil {marker text : List ℕ}
    (h : ∀ line ∈ textLines text, ¬ marker.isPrefixOf line.1) : findEndLine marker text = [] := by
  have hkeep : ∀ (lines : List (List ℕ)) (found : List ℕ),
      (∀ line ∈ lines, ¬ marker.isPrefixOf line) →
      lines.foldl (fun found line => if marker.isPrefixOf line then line else found) found =
        found := by
    intro lines found hlines
    induction lines with
    | nil => rfl
    | cons line lines ih =>
        rw [List.foldl_cons, if_neg (hlines line (by simp))]
        exact ih fun other hother => hlines other (by simp [hother])
  apply hkeep
  intro line hline
  obtain ⟨pair, hpair, rfl⟩ := List.mem_map.mp hline
  exact h pair hpair

theorem rsplitLast_append {sep : ℕ} (x : List ℕ) {y : List ℕ} (hy : sep ∉ y) :
    rsplitLast sep (x ++ sep :: y) = some y := by
  have htake : (x ++ sep :: y).reverse.takeWhile (· ≠ sep) = y.reverse := by
    rw [List.reverse_append, List.reverse_cons, List.append_assoc, List.takeWhile_append_of_pos]
    · simp
    · intro c hc
      have : c ≠ sep := by
        intro heq
        subst heq
        exact hy (by simpa using hc)
      simpa using this
  rw [rsplitLast, if_pos (by simp), htake, List.reverse_reverse]

/-! ## The two outcomes -/

/-- Where the marker starts a line, the digits behind it are the status. -/
theorem parseOutput_of_endsLine (token : Token) {x digits ending : Bytes}
    (h : IsTail digits ending) (hx : EndsLine isTextBreak (decode x)) :
    parseOutput token (x ++ (endMarker token ++ (digits ++ ending))) =
      match toInt (digits.map UInt8.toNat) with
      | none => .raised .valueError
      | some status => .returned (status,
          stripProtocolLines (x ++ (endMarker token ++ (digits ++ ending)))) := by
  have hascii : ∀ b ∈ endMarker token ++ (digits ++ ending), Ascii b := by
    intro b hmem
    rw [← List.append_assoc] at hmem
    rcases List.mem_append.mp hmem with hmem | hmem
    · exact ascii_of_printable (h.printable token) b hmem
    · rcases h.ending with rfl | rfl
      · cases hmem
      · rw [List.mem_singleton.mp hmem]
        decide
  have hfirst : endMarker token = 95 :: (endMarker token).tail := rfl
  have hlines : textLines (decode x ++ (endMarker token ++ (digits ++ ending)).map UInt8.toNat) =
      textLines (decode x) ++
        [((endMarker token ++ digits).map UInt8.toNat, ending.map UInt8.toNat)] := by
    rw [← h.textLines_end token]
    apply split_append hx
    intro _
    rw [hfirst]
    simp
  have hfind : findEndLine ((endMarker token).map UInt8.toNat)
      (decode (x ++ (endMarker token ++ (digits ++ ending)))) =
        (endMarker token ++ digits).map UInt8.toNat := by
    rw [decode_append_ascii x hascii]
    apply findEndLine_append hlines
    rw [List.isPrefixOf_iff_prefix, List.map_append]
    exact List.prefix_append _ _
  have hcons : ∃ c rest, (endMarker token ++ digits).map UInt8.toNat = c :: rest :=
    ⟨95, (((endMarker token).tail ++ digits).map UInt8.toNat), by rw [hfirst]; rfl⟩
  have hfield : rsplitLast 32 ((endMarker token ++ digits).map UInt8.toNat) =
      some (digits.map UInt8.toNat) := by
    have hblank : 32 ∉ digits.map UInt8.toNat := by
      intro hmem
      obtain ⟨b, hb, hb32⟩ := List.mem_map.mp hmem
      have := h.digit b hb
      omega
    rw [endMarker, List.append_assoc, List.map_append]
    exact rsplitLast_append _ hblank
  obtain ⟨c, rest, hcons⟩ := hcons
  rw [parseOutput, hfind]
  simp only [hcons] at hfield ⊢
  generalize rsplitLast 32 (c :: rest) = field at hfield ⊢
  subst hfield
  rfl

/-- Where the marker stands in a line, there is no line that starts with it. -/
theorem parseOutput_of_not_endsLine {token : Token} {output : Bytes} {status : UInt8}
    (ho : ¬ endMarker token <:+: output) {digits ending : Bytes} (h : IsTail digits ending)
    (hx : ¬ EndsLine isTextBreak (decode (beforeEnd token output status))) :
    parseOutput token (beforeEnd token output status ++ (endMarker token ++ (digits ++ ending))) =
      .raised (.vmError "VM command ended without a status marker") := by
  have hnone : findEndLine ((endMarker token).map UInt8.toNat)
      (decode (beforeEnd token output status ++ (endMarker token ++ (digits ++ ending)))) = [] := by
    apply findEndLine_eq_nil
    intro line hline hmarker
    obtain ⟨before, after, htext, hends⟩ := exists_of_mem_split hline
    obtain ⟨rest, hrest⟩ := List.isPrefixOf_iff_prefix.mp hmarker
    have htext' : decode (beforeEnd token output status ++
        (endMarker token ++ (digits ++ ending))) =
          before ++ ((endMarker token).map UInt8.toNat ++ (rest ++ after)) := by
      rw [htext, ← hrest]
      simp
    obtain ⟨x, y, hbytes, hbefore, _⟩ := exists_of_decode_eq (by simp [endMarker])
      (ascii_of_printable endMarker_printable) htext'
    have hx' := eq_beforeEnd_of_marker ho h.blank_notMem hbytes
    rw [hx'] at hbefore
    exact hx (hbefore ▸ hends)
  rw [parseOutput, hnone]

end DistroSeed
