import DistroSeed.Verification.Serial.Chunks

/-! When the status and the output that are read are those of the command. -/

namespace DistroSeed

open PyText Lines Utf8

/-! ## Lines that look like framing -/

/-- A text does not begin to look like framing through what follows it. -/
theorem exists_drop_of_prefix_append {word x y : Bytes} (h : word <+: x ++ y)
    (hx : ¬ word <+: x) : ∃ k < word.length, k = x.length ∧ word.drop k <+: y := by
  obtain ⟨rest, hrest⟩ := h
  rcases List.append_eq_append_iff.mp hrest with ⟨mid, hmid, _⟩ | ⟨mid, hmid, hy⟩
  · exact absurd ⟨mid, hmid.symm⟩ hx
  · have hne : mid ≠ [] := by
      intro heq
      subst heq
      exact hx ⟨[], by simp [hmid]⟩
    refine ⟨x.length, ?_, rfl, ?_⟩
    · rw [hmid, List.length_append]
      have := List.length_pos_of_ne_nil hne
      omega
    · rw [hmid, List.drop_left]
      exact ⟨rest, hy.symm⟩

theorem startsProtocol_iff {text : Bytes} :
    startsProtocol text ↔ ascii "__DS_BEGIN__ " <+: text ∨ ascii "__DS_END__ " <+: text := by
  simp [startsProtocol]

/-- The agent's own lines do not complete a line of the script to one that looks like framing. -/
theorem not_startsProtocol_append {line text : Bytes} (hline : ¬ startsProtocol line)
    (htext : text.take 3 = ascii "ERR" ∨ line ≠ [] ∧ text.take 3 = ascii "__D") :
    ¬ startsProtocol (line ++ text) := by
  have hwords : ∀ word ∈ [ascii "__DS_BEGIN__ ", ascii "__DS_END__ "], ∀ k < word.length,
      ¬ (word.drop k).take 3 <+: ascii "ERR" ∧
        (0 < k → ¬ (word.drop k).take 3 <+: ascii "__D") := by decide
  have hword : ∀ word ∈ [ascii "__DS_BEGIN__ ", ascii "__DS_END__ "], ¬ word <+: line →
      ¬ word <+: line ++ text := by
    intro word hmem hnot hprefix
    obtain ⟨k, hk, hlength, hdrop⟩ := exists_drop_of_prefix_append hprefix hnot
    have htake := hdrop.take 3
    rcases htext with herr | ⟨hne, hend⟩
    · exact (hwords word hmem k hk).1 (herr ▸ htake)
    · have hpos := List.length_pos_of_ne_nil hne
      exact (hwords word hmem k hk).2 (hlength ▸ hpos) (hend ▸ htake)
  rw [startsProtocol_iff, not_or] at hline ⊢
  exact ⟨hword _ (by simp) hline.1, hword _ (by simp) hline.2⟩

/-! ## The lines of the script -/

theorem byteLines_eq (text : Bytes) :
    byteLines text =
      byteLines (beforeLastLine isByteBreak text) ++ byteLines (lastLine isByteBreak text) := by
  conv_lhs => rw [← beforeLastLine_append_lastLine isByteBreak text]
  apply byteLines_append (endsLine_beforeLastLine _ _)
  intro _ hmem
  exact not_break_of_mem_lastLine (List.mem_of_mem_head? hmem) (by decide)

namespace Plain

variable {text : Bytes}

theorem beforeLastLine (h : Plain text) : Plain (beforeLastLine isByteBreak text) := by
  intro line hline
  apply h line
  rw [byteLines_eq]
  exact List.mem_append_left _ hline

theorem lastLine (h : Plain text) : ¬ startsProtocol (lastLine isByteBreak text) := by
  by_cases hne : Lines.lastLine isByteBreak text = []
  · rw [hne]
    decide
  · have hlast : byteLines (Lines.lastLine isByteBreak text) =
        [(Lines.lastLine isByteBreak text, [])] :=
      split_last_line (fun c hc => not_break_of_mem_lastLine hc) hne
    apply h (Lines.lastLine isByteBreak text, [])
    rw [byteLines_eq, hlast]
    exact List.mem_append_right _ (by simp)

/-- The last line of the script and what the agent writes behind it. -/
theorem stripProtocolLines_append (h : Plain text) {line : Bytes} {c : UInt8}
    (hline : ∀ b ∈ line, ¬ isByteBreak b) (hc : isByteBreak c)
    (hstarts : line.take 3 = ascii "ERR" ∨
      Lines.lastLine isByteBreak text ≠ [] ∧ line.take 3 = ascii "__D") :
    stripProtocolLines (text ++ (line ++ [c])) = text ++ (line ++ [c]) := by
  have hall : ∀ b ∈ Lines.lastLine isByteBreak text ++ line, ¬ isByteBreak b := by
    intro b hb
    rcases List.mem_append.mp hb with hb | hb
    · exact not_break_of_mem_lastLine hb
    · exact hline b hb
  have hsplit : text ++ (line ++ [c]) = Lines.beforeLastLine isByteBreak text ++
      (Lines.lastLine isByteBreak text ++ line ++ [c]) := by
    conv_lhs => rw [← beforeLastLine_append_lastLine isByteBreak text]
    simp
  have hne : Lines.lastLine isByteBreak text ++ line ≠ [] := by
    rcases hstarts with herr | ⟨hlast, _⟩
    · intro hnil
      rw [(List.append_eq_nil_iff.mp hnil).2] at herr
      revert herr
      decide
    · exact List.append_ne_nil_of_left_ne_nil hlast _
  have hcut : 13 ∈ (Lines.beforeLastLine isByteBreak text).getLast? →
      10 ∉ (Lines.lastLine isByteBreak text ++ line ++ [c]).head? := by
    intro _ hmem
    rw [List.head?_append_of_ne_nil _ hne] at hmem
    exact hall 10 (List.mem_of_mem_head? hmem) (by decide)
  rw [hsplit, DistroSeed.stripProtocolLines_append (endsLine_beforeLastLine _ _) hcut,
    stripProtocolLines_of_plain h.beforeLastLine, stripProtocolLines_line hall hc,
    if_neg (not_startsProtocol_append h.lastLine hstarts)]

end Plain

/-! ## The stream of a command -/

section Stream

variable (token : Token)

theorem stripProtocolLines_beginLine (rest : Bytes) :
    stripProtocolLines (beginLine token ++ rest) = stripProtocolLines rest := by
  have hline : ∀ b ∈ ascii "__DS_BEGIN__ " ++ token.bytes, ¬ isByteBreak b := by
    intro b hb
    have hbegin : between 32 126 (ascii "__DS_BEGIN__ ") := by decide
    apply not_isByteBreak_of_printable
    rcases List.mem_append.mp hb with hb | hb
    · exact (between_iff.mp hbegin b hb).1
    · have := token.printable b hb
      omega
  have hstarts : startsProtocol (ascii "__DS_BEGIN__ " ++ token.bytes) :=
    startsProtocol_iff.mpr (Or.inl (List.prefix_append _ _))
  have hends : EndsLine isByteBreak (beginLine token) := endsLine_append_singleton (by decide)
  rw [stripProtocolLines_append hends (by simp [beginLine]), beginLine,
    stripProtocolLines_line hline (by decide), if_pos hstarts, List.nil_append]

theorem endLine_eq (status : UInt8) :
    ∃ line, endLine token status = line ++ [10] ∧ (∀ b ∈ line, ¬ isByteBreak b) ∧
      line.take 3 = ascii "__D" ∧ startsProtocol line := by
  refine ⟨endMarker token ++ decimal status.toNat, rfl, fun b hb => ?_, rfl, ?_⟩
  · exact not_isByteBreak_of_printable ((isTail_decimal status (Or.inl rfl)).printable token b hb).1
  · rw [startsProtocol_iff, endMarker, List.append_assoc, List.append_assoc]
    exact Or.inr (List.prefix_append _ _)

theorem errLine_eq {status : UInt8} (h : status ≠ 0) :
    ∃ line, errLine token status = line ++ [10] ∧ (∀ b ∈ line, ¬ isByteBreak b) ∧
      line.take 3 = ascii "ERR" := by
  obtain ⟨text, herr, htext⟩ := exists_errLine_eq token h
  refine ⟨ascii "ERR" ++ text, by simp [herr], fun b hb => ?_, rfl⟩
  have hword : between 32 126 (ascii "ERR") := by decide
  apply not_isByteBreak_of_printable
  rcases List.mem_append.mp hb with hb | hb
  · exact (between_iff.mp hword b hb).1
  · exact (htext b hb).1

variable {token} {output : Bytes} {status : UInt8}

/-- Where the end line is a line of its own, the framing and nothing else is dropped. -/
theorem stripProtocolLines_runCommand (hplain : Plain output)
    (h : status ≠ 0 ∨ EndsLine isByteBreak output) :
    stripProtocolLines (runCommand token output status) = output ++ errLine token status := by
  have hown : stripProtocolLines (output ++ errLine token status) =
      output ++ errLine token status := by
    by_cases hstatus : status = 0
    · simpa [errLine, hstatus] using stripProtocolLines_of_plain hplain
    · obtain ⟨line, herr, hline, hstarts⟩ := errLine_eq token hstatus
      rw [herr]
      exact hplain.stripProtocolLines_append hline (by decide) (Or.inl hstarts)
  have hends : EndsLine isByteBreak (output ++ errLine token status) := by
    by_cases hstatus : status = 0
    · simpa [errLine, hstatus] using h
    · obtain ⟨line, herr, _⟩ := errLine_eq token hstatus
      rw [herr, ← List.append_assoc]
      exact endsLine_append_singleton (by decide)
  obtain ⟨line, hend, hline, hword, hstarts⟩ := endLine_eq token status
  have hcut : 13 ∈ (output ++ errLine token status).getLast? →
      10 ∉ (endLine token status).head? := by
    have hhead : (endLine token status).head? = some 95 := rfl
    simp [hhead]
  rw [runCommand, List.append_assoc, List.append_assoc, stripProtocolLines_beginLine,
    ← List.append_assoc, stripProtocolLines_append hends hcut, hown, hend,
    stripProtocolLines_line hline (by decide), if_pos hstarts, List.append_nil]

/-- Otherwise the end line is left in the output. -/
theorem stripProtocolLines_runCommand_of_not_endsLine (hplain : Plain output)
    (h : ¬ EndsLine isByteBreak output) :
    stripProtocolLines (runCommand token output 0) = output ++ endLine token 0 := by
  obtain ⟨line, hend, hline, hstarts, _⟩ := endLine_eq token 0
  have herr : errLine token 0 = [] := if_neg (by decide)
  have hlast : lastLine isByteBreak output ≠ [] := fun hnil => h (lastLine_eq_nil_iff.mp hnil)
  rw [runCommand, herr, List.append_nil, List.append_assoc, stripProtocolLines_beginLine, hend]
  exact hplain.stripProtocolLines_append hline (by decide) (Or.inr ⟨hlast, hstarts⟩)

/-! ## The result -/

theorem stripProtocolLines_of_parseOutput {data stripped : Bytes} {n : ℤ}
    (h : parseOutput token data = .returned (n, stripped)) :
    stripped = stripProtocolLines data := by
  unfold parseOutput at h
  split at h
  · cases h
  · split at h
    · cases h
    · split at h
      · cases h
      · simp only [Outcome.returned.injEq, Prod.mk.injEq] at h
        exact h.2.symm

variable (token) (output) (status)

/-- Once all of the stream of a command is received, the status and the script's own output are
returned if and only if the command failed or its output ends where a line ends. -/
theorem runAgentScript_faithful_iff (hplain : Plain output) {chunks : List Bytes}
    (hne : ∀ chunk ∈ chunks, chunk ≠ []) (hflat : chunks.flatten = runCommand token output status)
    (hall : ∀ front ∈ chunks.inits, front ≠ chunks → ¬ endMarker token <:+: front.flatten) :
    runAgentScript token chunks =
        .returned ((status.toNat : ℤ), output ++ errLine token status) ↔
      status ≠ 0 ∨ EndsLine isByteBreak output := by
  have hmarker : endMarker token <:+: chunks.flatten :=
    hflat ▸ endMarker_infix_runCommand token output status
  obtain ⟨front, back, rfl, hstop, hrun⟩ := exists_runAgentScript_eq token hne hmarker
  have hback : back = [] := by
    by_contra hback
    have hproper : front ≠ front ++ back := by simpa using hback
    exact hall front (by simp) hproper (by simpa using hstop.found)
  subst hback
  rw [List.append_nil] at hflat hrun ⊢
  rw [hrun, hflat]
  constructor
  · intro h
    by_contra hnot
    obtain ⟨hstatus, hends⟩ := not_or.mp hnot
    obtain rfl : status = 0 := not_not.mp hstatus
    have hstripped := stripProtocolLines_of_parseOutput h
    rw [stripProtocolLines_runCommand_of_not_endsLine hplain hends] at hstripped
    have herr : errLine token 0 = [] := if_neg (by decide)
    have hlength := congrArg List.length (List.append_cancel_left hstripped)
    simp [herr, endLine] at hlength
  · intro h
    have hx : EndsLine isTextBreak (decode (beforeEnd token output status)) :=
      endsLine_decode ((endsLine_beforeEnd_iff token output status).mpr h)
    rw [runCommand_eq, parseOutput_of_status hx (Or.inr rfl), ← runCommand_eq,
      stripProtocolLines_runCommand hplain h]

end Stream

instance (text : Bytes) : Decidable (Plain text) :=
  inferInstanceAs (Decidable (∀ line ∈ byteLines text, _))

/-- The output `abc` without a line feed, of a command that failed. -/
theorem runAgentScript_faithful_iff_trueToken :
    let stream := runCommand trueToken (ascii "abc") 3
    runAgentScript trueToken [stream.take 40, stream.drop 40] =
      .returned (3, ascii "abc" ++ errLine trueToken 3) :=
  (runAgentScript_faithful_iff trueToken (ascii "abc") 3 (by decide +kernel) (by decide +kernel)
    (by decide +kernel) (by decide +kernel)).mpr (Or.inl (by decide))

/-- The output `abc` without a line feed, of a command that succeeded. -/
theorem runAgentScript_unfaithful :
    Plain (ascii "abc") ∧
      runAgentScript trueToken [runCommand trueToken (ascii "abc") 0] =
        .raised (.vmError "VM command ended without a status marker") := by
  decide +kernel

end DistroSeed
