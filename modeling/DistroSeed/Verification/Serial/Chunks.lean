import Mathlib.Data.List.Infix
import DistroSeed.Verification.Serial.Parse

/-! When the chunks in which a stream arrives decide the status that is read from it. -/

namespace DistroSeed

open PyText Lines Utf8

/-! ## `_read_until` -/

/-- The chunks after which the marker is in the data for the first time. -/
structure StopsAt (marker data : Bytes) (front : List Bytes) : Prop where
  found : marker <:+: data ++ front.flatten
  first : ∀ before after, front = before ++ after → after ≠ [] →
    ¬ marker <:+: data ++ before.flatten

theorem stopsAt_singleton {marker data chunk : Bytes} (hdata : ¬ marker <:+: data)
    (h : marker <:+: data ++ chunk) : StopsAt marker data [chunk] := by
  refine ⟨by simpa using h, fun before after hsplit hafter => ?_⟩
  cases before with
  | nil => simpa using hdata
  | cons c before =>
      obtain ⟨_, hrest⟩ := List.cons.inj hsplit
      exact absurd (List.append_eq_nil_iff.mp hrest.symm).2 hafter

theorem StopsAt.cons {marker data chunk : Bytes} {front : List Bytes} (hdata : ¬ marker <:+: data)
    (h : StopsAt marker (data ++ chunk) front) : StopsAt marker data (chunk :: front) := by
  refine ⟨by simpa using h.found, fun before after hsplit hafter => ?_⟩
  cases before with
  | nil => simpa using hdata
  | cons c before =>
      obtain ⟨rfl, hrest⟩ := List.cons.inj hsplit
      simpa using h.first before after hrest hafter

theorem readUntil_of_found {marker data chunk : Bytes} (log : Bool) (hne : chunk ≠ [])
    (consoleLog : Bytes) (chunks : List Bytes) (h : marker <:+: data ++ chunk) :
    readUntil [marker] log data consoleLog (chunk :: chunks) =
      .returned ⟨data ++ chunk, marker,
        consoleLog ++ if log then stripProtocolLines chunk else []⟩ := by
  have hfind : [marker].find? (· <:+: data ++ chunk) = some marker := by simp [h]
  rw [readUntil, if_neg hne]
  simp only [hfind]
  cases log <;> simp

theorem readUntil_of_not_found {marker data chunk : Bytes} (log : Bool) (hne : chunk ≠ [])
    (consoleLog : Bytes) (chunks : List Bytes) (h : ¬ marker <:+: data ++ chunk) :
    readUntil [marker] log data consoleLog (chunk :: chunks) =
      readUntil [marker] log (data ++ chunk)
        (consoleLog ++ if log then stripProtocolLines chunk else []) chunks := by
  have hfind : [marker].find? (· <:+: data ++ chunk) = none := by simp [h]
  rw [readUntil, if_neg hne]
  simp only [hfind]
  cases log <;> simp

/-- What `_read_until` returns is the shortest front of the chunks that has the marker. -/
theorem readUntil_spec {marker : Bytes} (log : Bool) {chunks : List Bytes}
    (hchunks : ∀ chunk ∈ chunks, chunk ≠ []) {data : Bytes} (consoleLog : Bytes)
    (hdata : ¬ marker <:+: data) (hmarker : marker <:+: data ++ chunks.flatten) :
    ∃ front back consoleLog', chunks = front ++ back ∧ StopsAt marker data front ∧
      readUntil [marker] log data consoleLog chunks =
        .returned ⟨data ++ front.flatten, marker, consoleLog'⟩ := by
  induction chunks generalizing data consoleLog with
  | nil => exact absurd (by simpa using hmarker) hdata
  | cons chunk chunks ih =>
      have hne : chunk ≠ [] := hchunks chunk (by simp)
      by_cases hfound : marker <:+: data ++ chunk
      · refine ⟨[chunk], chunks, consoleLog ++ if log then stripProtocolLines chunk else [], rfl,
          stopsAt_singleton hdata hfound, ?_⟩
        simpa using readUntil_of_found log hne consoleLog chunks hfound
      · obtain ⟨front, back, consoleLog', hsplit, hstop, hread⟩ :=
          ih (fun other hother => hchunks other (by simp [hother]))
            (consoleLog ++ if log then stripProtocolLines chunk else []) hfound
            (by simpa using hmarker)
        refine ⟨chunk :: front, back, consoleLog', by rw [hsplit]; rfl, hstop.cons hdata, ?_⟩
        rw [readUntil_of_not_found log hne consoleLog chunks hfound, hread]
        simp

/-- `_run_agent_script` parses the shortest front of the chunks that has the end marker. -/
theorem exists_runAgentScript_eq (token : Token) {chunks : List Bytes}
    (hchunks : ∀ chunk ∈ chunks, chunk ≠ [])
    (hmarker : endMarker token <:+: chunks.flatten) :
    ∃ front back, chunks = front ++ back ∧ StopsAt (endMarker token) [] front ∧
      runAgentScript token chunks = parseOutput token front.flatten := by
  have hnil : ¬ endMarker token <:+: [] := by simp [endMarker]
  obtain ⟨front, back, consoleLog, hsplit, hstop, hread⟩ :=
    readUntil_spec true hchunks [] hnil (by simpa using hmarker)
  refine ⟨front, back, hsplit, hstop, ?_⟩
  rw [runAgentScript, hread]
  rfl

theorem endMarker_infix_runCommand (token : Token) (output : Bytes) (status : UInt8) :
    endMarker token <:+: runCommand token output status :=
  ⟨beforeEnd token output status, decimal status.toNat ++ [10], by simp [runCommand_eq]⟩

theorem runAgentScript_singleton {token : Token} {data : Bytes}
    (hmarker : endMarker token <:+: data) :
    runAgentScript token [data] = parseOutput token data := by
  have hne : data ≠ [] := by
    intro heq
    subst heq
    simp [endMarker] at hmarker
  rw [runAgentScript, readUntil_of_found true hne [] [] hmarker]
  rfl

/-! ## What is received of the end line -/

/-- The length of the stream up to the end marker, with it. -/
def markerEnd (token : Token) (output : Bytes) (status : UInt8) : ℕ :=
  (beforeEnd token output status ++ endMarker token).length

/-- The length of the stream up to the status, with it. -/
def statusEnd (token : Token) (output : Bytes) (status : UInt8) : ℕ :=
  markerEnd token output status + (decimal status.toNat).length

/-- The line of bytes that holds the status. -/
def statusLine (token : Token) (output : Bytes) (status : UInt8) : Bytes :=
  lastLine isByteBreak (beforeEnd token output status) ++
    (endMarker token ++ decimal status.toNat)

theorem isTail_decimal (status : UInt8) {ending : Bytes} (h : ending = [] ∨ ending = [10]) :
    IsTail (decimal status.toNat) ending :=
  ⟨digit_of_mem_decimal (UInt8.toNat_lt status), h⟩

theorem isTail_take (status : UInt8) (j : ℕ) : IsTail ((decimal status.toNat).take j) [] :=
  ⟨fun b hb => (isTail_decimal status (Or.inl rfl)).digit b (List.mem_of_mem_take hb), Or.inl rfl⟩

/-- The digits and the line feed of an end line, cut anywhere. -/
theorem tail_cases {digits tail rest : Bytes} (h : tail ++ rest = digits ++ [10]) :
    (tail = digits ++ [10]) ∨ tail = digits ∨ ∃ j < digits.length, tail = digits.take j := by
  rcases List.append_eq_append_iff.mp h with ⟨mid, hdigits, _⟩ | ⟨mid, htail, hfeed⟩
  · cases mid with
    | nil => exact Or.inr (Or.inl (by simpa using hdigits.symm))
    | cons c mid =>
        refine Or.inr (Or.inr ⟨tail.length, ?_, ?_⟩)
        · rw [hdigits]
          simp
        · rw [hdigits]
          simp
  · cases mid with
    | nil => exact Or.inr (Or.inl (by simpa using htail))
    | cons c mid =>
        obtain ⟨rfl, hnil⟩ := List.cons.inj hfeed
        have hmid : mid = [] := (List.append_eq_nil_iff.mp hnil.symm).1
        exact Or.inl (by rw [htail, hmid])

theorem exists_isTail {status : UInt8} {tail rest : Bytes}
    (h : tail ++ rest = decimal status.toNat ++ [10]) :
    ∃ digits ending, IsTail digits ending ∧ tail = digits ++ ending := by
  rcases tail_cases h with rfl | rfl | ⟨j, _, rfl⟩
  · exact ⟨_, _, isTail_decimal status (Or.inr rfl), rfl⟩
  · exact ⟨_, _, isTail_decimal status (Or.inl rfl), by simp⟩
  · exact ⟨_, _, isTail_take status j, by simp⟩

/-- What stands behind the marker in a front of the stream that has it. -/
theorem exists_tail {token : Token} {output : Bytes} {status : UInt8}
    (ho : ¬ endMarker token <:+: output) {data rest : Bytes}
    (hdata : data ++ rest = runCommand token output status) (hmarker : endMarker token <:+: data) :
    ∃ tail, data = beforeEnd token output status ++ (endMarker token ++ tail) ∧
      tail ++ rest = decimal status.toNat ++ [10] := by
  obtain ⟨x, y, rfl⟩ := hmarker
  have hstream : beforeEnd token output status ++
      (endMarker token ++ (decimal status.toNat ++ [10])) = x ++ (endMarker token ++ (y ++ rest)) := by
    rw [← runCommand_eq, ← hdata]
    simp
  obtain rfl := eq_beforeEnd_of_marker ho (isTail_decimal status (Or.inr rfl)).blank_notMem hstream
  exact ⟨y, by simp, (List.append_cancel_left (List.append_cancel_left hstream)).symm⟩

/-- A front of the stream as long as the marker reaches has the marker. -/
theorem length_lt_markerEnd {token : Token} {output : Bytes} {status : UInt8} {data rest : Bytes}
    (hdata : data ++ rest = runCommand token output status)
    (hmarker : ¬ endMarker token <:+: data) : data.length < markerEnd token output status := by
  by_contra hlen
  have hfront : beforeEnd token output status ++ endMarker token <+: data := by
    have hmarkerEnd : beforeEnd token output status ++ endMarker token <+:
        runCommand token output status := ⟨decimal status.toNat ++ [10], by simp [runCommand_eq]⟩
    exact List.prefix_of_prefix_length_le hmarkerEnd ⟨rest, hdata⟩ (Nat.le_of_not_lt hlen)
  obtain ⟨tail, rfl⟩ := hfront
  exact hmarker ⟨beforeEnd token output status, tail, rfl⟩

/-! ## What is parsed -/

theorem toInt_decimal (status : UInt8) :
    toInt ((decimal status.toNat).map UInt8.toNat) = some (status.toNat : ℤ) :=
  (decimal_spec status.toNat (UInt8.toNat_lt status)).2.2

section Parsed

variable {token : Token} {output : Bytes} {status : UInt8}

/-- The whole number behind the marker is the status. -/
theorem parseOutput_of_status (hx : EndsLine isTextBreak (decode (beforeEnd token output status)))
    {ending : Bytes} (hending : ending = [] ∨ ending = [10]) :
    parseOutput token (beforeEnd token output status ++
      (endMarker token ++ (decimal status.toNat ++ ending))) =
      .returned ((status.toNat : ℤ), stripProtocolLines (beforeEnd token output status ++
        (endMarker token ++ (decimal status.toNat ++ ending)))) := by
  rw [parseOutput_of_endsLine token (isTail_decimal status hending) hx, toInt_decimal]

/-- A part of the number is a different status or none. -/
theorem parseOutput_of_take (hx : EndsLine isTextBreak (decode (beforeEnd token output status)))
    {j : ℕ} (hj : j < (decimal status.toNat).length) (stripped : Bytes) :
    parseOutput token (beforeEnd token output status ++
      (endMarker token ++ (decimal status.toNat).take j)) ≠
      .returned ((status.toNat : ℤ), stripped) := by
  have hparse := parseOutput_of_endsLine token (isTail_take status j) hx
  rw [List.append_nil] at hparse
  have hvalue := toInt_take_decimal status.toNat (UInt8.toNat_lt status) j hj
  rw [hparse]
  intro h
  cases hint : toInt (((decimal status.toNat).take j).map UInt8.toNat) with
  | none =>
      rw [hint] at h
      cases h
  | some n =>
      rw [hint] at h
      simp only [Outcome.returned.injEq, Prod.mk.injEq] at h
      exact hvalue (by rw [hint, h.1])

/-- Without its line feed the end line is stripped like with it if it is a line of its own. -/
theorem stripProtocolLines_status_iff :
    stripProtocolLines (beforeEnd token output status ++
        (endMarker token ++ (decimal status.toNat ++ []))) =
      stripProtocolLines (beforeEnd token output status ++
        (endMarker token ++ (decimal status.toNat ++ [10]))) ↔
      isProtocolLine (statusLine token output status) := by
  have hline : ∀ c ∈ statusLine token output status, ¬ isByteBreak c := by
    intro c hc
    rcases List.mem_append.mp hc with hc | hc
    · exact not_break_of_mem_lastLine hc
    · have hprintable := (isTail_decimal status (Or.inl rfl)).printable token c hc
      exact not_isByteBreak_of_printable hprintable.1
  have hstarts : isProtocolLine (statusLine token output status) =
      startsProtocol (statusLine token output status) := isProtocolLine_of_line hline
  have hhead : 10 ∉ (statusLine token output status).head? := by
    intro hmem
    exact hline 10 (List.mem_of_mem_head? hmem) (by decide)
  have hsplit : ∀ ending, beforeEnd token output status ++
      (endMarker token ++ (decimal status.toNat ++ ending)) =
        beforeLastLine isByteBreak (beforeEnd token output status) ++
          (statusLine token output status ++ ending) := by
    intro ending
    conv_lhs => rw [← beforeLastLine_append_lastLine isByteBreak (beforeEnd token output status)]
    simp [statusLine]
  have hne : statusLine token output status ≠ [] := by simp [statusLine, endMarker]
  have hstrip : ∀ ending, stripProtocolLines
      (beforeLastLine isByteBreak (beforeEnd token output status) ++
        (statusLine token output status ++ ending)) =
      stripProtocolLines (beforeLastLine isByteBreak (beforeEnd token output status)) ++
        stripProtocolLines (statusLine token output status ++ ending) := by
    intro ending
    apply stripProtocolLines_append (endsLine_beforeLastLine _ _)
    intro _
    rwa [List.head?_append_of_ne_nil _ hne]
  rw [hsplit, hsplit, hstrip, hstrip, List.append_nil, stripProtocolLines_last hline,
    stripProtocolLines_line hline (by decide), hstarts]
  by_cases h : startsProtocol (statusLine token output status) <;> simp [h]

end Parsed

/-! ## Boundaries between chunks -/

/-- No chunk ends behind the marker and before the end of the status, and one ends between
the status and its line feed only if the line is dropped either way. -/
def BoundariesClear (token : Token) (output : Bytes) (status : UInt8)
    (chunks : List Bytes) : Prop :=
  ∀ front ∈ chunks.inits,
    front.flatten.length < markerEnd token output status ∨
      statusEnd token output status ≤ front.flatten.length ∧
        (front.flatten.length = statusEnd token output status →
          isProtocolLine (statusLine token output status))

instance (token : Token) (output : Bytes) (status : UInt8) (chunks : List Bytes) :
    Decidable (BoundariesClear token output status chunks) :=
  inferInstanceAs (Decidable (∀ front ∈ chunks.inits, _))

/-- Where the host stops reading decides. -/
theorem boundariesClear_iff {token : Token} {output : Bytes} {status : UInt8}
    {front back : List Bytes} (hne : ∀ chunk ∈ front ++ back, chunk ≠ [])
    (hflat : (front ++ back).flatten = runCommand token output status)
    (hstop : StopsAt (endMarker token) [] front)
    (hlen : markerEnd token output status ≤ front.flatten.length) :
    BoundariesClear token output status (front ++ back) ↔
      statusEnd token output status ≤ front.flatten.length ∧
        (front.flatten.length = statusEnd token output status →
          isProtocolLine (statusLine token output status)) := by
  constructor
  · intro h
    rcases h front (by simp) with hlt | hclear
    · exact absurd hlt (Nat.not_lt.mpr hlen)
    · exact hclear
  · intro hclear other hother
    obtain ⟨rest, hrest⟩ := (List.mem_inits other (front ++ back)).mp hother
    rcases List.append_eq_append_iff.mp hrest with ⟨mid, hfront, hback⟩ | ⟨mid, rfl, hmid⟩
    · by_cases hnil : mid = []
      · rw [hnil, List.append_nil] at hfront
        exact Or.inr (hfront ▸ hclear)
      · apply Or.inl
        have hnot := hstop.first other mid hfront hnil
        have hdata : other.flatten ++ rest.flatten = runCommand token output status := by
          rw [← hflat, ← hrest, List.flatten_append]
        exact length_lt_markerEnd hdata hnot
    · cases mid with
      | nil =>
          rw [List.append_nil]
          exact Or.inr hclear
      | cons chunk mid =>
          have hchunk : 0 < chunk.length := by
            apply List.length_pos_of_ne_nil
            exact hne chunk (by simp [hmid])
          have hlonger : front.flatten.length < (front ++ chunk :: mid).flatten.length := by
            rw [List.flatten_append, List.flatten_cons, List.length_append, List.length_append]
            omega
          refine Or.inr ⟨?_, fun heq => ?_⟩
          · exact Nat.le_trans hclear.1 (Nat.le_of_lt hlonger)
          · exact absurd heq (Nat.ne_of_gt (Nat.lt_of_le_of_lt hclear.1 hlonger))

/-! ## The result -/

section Result

variable (token : Token) (output : Bytes) (status : UInt8)

/-- The whole stream in one chunk. -/
theorem runAgentScript_stream :
    runAgentScript token [runCommand token output status] =
      parseOutput token (beforeEnd token output status ++
        (endMarker token ++ (decimal status.toNat ++ [10]))) := by
  rw [runAgentScript_singleton (endMarker_infix_runCommand token output status), runCommand_eq]

/-- The result does not depend on the chunks if the end marker starts no line anyway, or if no
chunk ends within the status or right behind it. -/
theorem runAgentScript_chunks_iff (ho : ¬ endMarker token <:+: output) {chunks : List Bytes}
    (hne : ∀ chunk ∈ chunks, chunk ≠ []) (hflat : chunks.flatten = runCommand token output status) :
    runAgentScript token chunks = runAgentScript token [runCommand token output status] ↔
      ¬ (status ≠ 0 ∨ EndsLine isTextBreak (decode output)) ∨
        BoundariesClear token output status chunks := by
  have hmarker : endMarker token <:+: chunks.flatten :=
    hflat ▸ endMarker_infix_runCommand token output status
  obtain ⟨front, back, rfl, hstop, hrun⟩ := exists_runAgentScript_eq token hne hmarker
  have hdata : front.flatten ++ back.flatten = runCommand token output status := by
    rw [← List.flatten_append, hflat]
  obtain ⟨tail, hfront, htail⟩ := exists_tail ho hdata (by simpa using hstop.found)
  have hlen : front.flatten.length = markerEnd token output status + tail.length := by
    rw [hfront, ← List.append_assoc, List.length_append, markerEnd]
  have hstatusEnd : statusEnd token output status =
      markerEnd token output status + (decimal status.toNat).length := rfl
  rw [hrun, runAgentScript_stream, ← endsLine_decode_beforeEnd_iff token output status,
    boundariesClear_iff hne hflat hstop (by omega), hlen, hstatusEnd, hfront]
  by_cases hx : EndsLine isTextBreak (decode (beforeEnd token output status))
  · rw [or_iff_right (not_not_intro hx)]
    rcases tail_cases htail with rfl | rfl | ⟨j, hj, rfl⟩
    · -- the chunk with the marker reaches behind the line feed
      refine iff_of_true rfl ⟨?_, fun heq => ?_⟩
      · simp
      · simp at heq
    · -- it ends between the status and the line feed
      have hnil := parseOutput_of_status hx (Or.inl rfl)
      rw [parseOutput_of_status hx (Or.inr rfl)]
      rw [List.append_nil] at hnil
      rw [hnil]
      simp only [Outcome.returned.injEq, Prod.mk.injEq, true_and]
      rw [← stripProtocolLines_status_iff, List.append_nil]
      simp
    · -- it ends within the status
      rw [parseOutput_of_status hx (Or.inr rfl)]
      refine iff_of_false (parseOutput_of_take hx hj _) fun hclear => ?_
      have hshort := hclear.1
      rw [List.length_take] at hshort
      omega
  · rw [parseOutput_of_not_endsLine ho (isTail_decimal status (Or.inr rfl)) hx]
    obtain ⟨digits, ending, hdigits, rfl⟩ := exists_isTail htail
    exact iff_of_true (parseOutput_of_not_endsLine ho hdigits hx) (Or.inl hx)

end Result

/-- The token of a command `true`. -/
def trueToken : Token where
  name := ascii "true"
  hex := ascii "012345678901"
  name_printable := between_iff.mp (by decide)
  hex_length := by decide
  hex_digit := fun b hb => Or.inl (between_iff.mp (show between 48 57 _ by decide) b hb)

/-- A command that prints nothing and exits with 12, in chunks that end within the begin line
and within the line on the failure. -/
theorem runAgentScript_chunks_iff_trueToken :
    let stream := runCommand trueToken [] 12
    runAgentScript trueToken [stream.take 5, (stream.drop 5).take 60, stream.drop 65] =
      runAgentScript trueToken [stream] :=
  (runAgentScript_chunks_iff trueToken [] 12 (by decide +kernel) (by decide +kernel)
    (by decide +kernel)).mpr (Or.inr (by decide +kernel))

/-- The status 12 is read as 1 if a chunk ends between its digits. -/
theorem runAgentScript_chunks_status :
    let stream := runCommand trueToken [] 12
    let k := statusEnd trueToken [] 12 - 1
    let chunks := [stream.take k, stream.drop k]
    ¬ endMarker trueToken <:+: [] ∧ (∀ chunk ∈ chunks, chunk ≠ []) ∧ chunks.flatten = stream ∧
      runAgentScript trueToken [stream] = .returned (12, errLine trueToken 12) ∧
      runAgentScript trueToken chunks = .returned (1, errLine trueToken 12) := by
  decide +kernel

end DistroSeed
