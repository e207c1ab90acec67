import DistroSeed.Library.Cuts
import DistroSeed.Verification.Serial.Chunks

/-! When `_interactive_script` leaves its loop with the command, and what it has shown then. -/

namespace DistroSeed

open PyText

/-! ## What a chunk shows -/

/-- For every byte of a chunk, whether `_strip_protocol_lines` keeps it. -/
def kept (chunk : Bytes) : List Bool := Lines.marks isByteBreak 13 10 (!isProtocolLine ·) chunk

/-- The bytes that are marked. -/
def selected (text : Bytes) (flags : List Bool) : Bytes :=
  ((text.zip flags).filter Prod.snd).map Prod.fst

theorem selected_append {x : Bytes} {flags : List Bool} (h : x.length = flags.length) (y : Bytes)
    (more : List Bool) : selected (x ++ y) (flags ++ more) = selected x flags ++ selected y more := by
  rw [selected, List.zip_append h, List.filter_append, List.map_append]
  rfl

theorem selected_replicate (text : Bytes) (b : Bool) :
    selected text (List.replicate text.length b) = if b then text else [] := by
  induction text with
  | nil => cases b <;> rfl
  | cons c text ih =>
      cases b with
      | false => simpa [selected, List.replicate_succ] using ih
      | true => simpa [selected, List.replicate_succ] using ih

/-- Lines marked one by one. -/
theorem selected_join (lines : List (Bytes × Bytes)) :
    selected (Lines.join lines) (lines.flatMap fun line =>
      List.replicate (line.1 ++ line.2).length (!isProtocolLine (line.1 ++ line.2))) =
      ((lines.map fun line => line.1 ++ line.2).filter (!isProtocolLine ·)).flatten := by
  induction lines with
  | nil => rfl
  | cons line lines ih =>
      rw [Lines.join_cons, List.flatMap_cons, selected_append (by simp), ih, selected_replicate]
      by_cases h : isProtocolLine (line.1 ++ line.2) <;> simp [h]

theorem stripProtocolLines_eq_selected (chunk : Bytes) :
    stripProtocolLines chunk = selected chunk (kept chunk) := by
  have hjoin : Lines.join (byteLines chunk) = chunk := Lines.join_split isByteBreak 13 10 chunk
  conv_rhs => rw [← hjoin]
  rw [stripProtocolLines, ← selected_join, hjoin]
  rfl

theorem length_kept (chunk : Bytes) : chunk.length = (kept chunk).length := by
  have hjoin : Lines.join (byteLines chunk) = chunk := Lines.join_split isByteBreak 13 10 chunk
  conv_lhs => rw [← hjoin]
  simp [kept, Lines.marks, Lines.join, byteLines, List.length_flatMap]

/-- Chunk by chunk, the bytes that are marked chunk by chunk. -/
theorem flatMap_stripProtocolLines (chunks : List Bytes) :
    chunks.flatMap stripProtocolLines = selected chunks.flatten (chunks.flatMap kept) := by
  induction chunks with
  | nil => rfl
  | cons chunk chunks ih =>
      rw [List.flatMap_cons, List.flatten_cons, List.flatMap_cons, selected_append (length_kept chunk),
        ih, stripProtocolLines_eq_selected]

/-! ## The run of the loop -/

/-- What the calls of `recv` have returned. -/
def socketChunks (events : List Ready) : List Bytes := events.filterMap Ready.socket

/-- The stream of the agent. -/
def agentStream (events : List Ready) : Bytes := (socketChunks events).flatten

/-- The event whose chunk completes the end marker. -/
structure Completes (token : Token) (front : List Ready) (ready : Ready) : Prop where
  before : ¬ endMarker token <:+: agentStream front
  after : endMarker token <:+: agentStream (front ++ [ready])

@[simp] theorem socketChunks_nil : socketChunks [] = [] := rfl

theorem flatMap_socketChunks_cons (ready : Ready) (events : List Ready) :
    (socketChunks (ready :: events)).flatMap stripProtocolLines =
      stripProtocolLines (ready.socket.getD []) ++
        (socketChunks events).flatMap stripProtocolLines := by
  cases h : ready.socket with
  | none => simp [socketChunks, h, show stripProtocolLines [] = [] from rfl]
  | some chunk => simp [socketChunks, h]

theorem infix_agentStream {ready : Ready} {events : List Ready} (h : ready ∈ events) :
    ready.socket.getD [] <:+: agentStream events := by
  cases hsocket : ready.socket with
  | none => exact List.nil_infix
  | some chunk => exact List.infix_of_mem_flatten (List.mem_filterMap.mpr ⟨ready, h, hsocket⟩)

variable {token : Token}

/-- The way out with the command. -/
theorem exists_of_commandEnded {events : List Ready} {shown sent : Bytes} {result : Interactive}
    (h : interactiveLoop token shown sent events = .returned result)
    (hexit : result.exit = .commandEnded) :
    ∃ front ready, events = front ++ ready :: result.unread ∧
      endMarker token <:+: ready.socket.getD [] ∧ (∀ other ∈ front, other.stdin ≠ some []) ∧
      result.shown = shown ++ (socketChunks (front ++ [ready])).flatMap stripProtocolLines := by
  induction events generalizing shown sent with
  | nil => cases h
  | cons ready events ih =>
      rw [interactiveLoop] at h
      split at h
      · obtain rfl := Outcome.returned.inj h
        cases hexit
      · split at h
        · rename_i hmarker
          obtain rfl := Outcome.returned.inj h
          refine ⟨[], ready, rfl, hmarker, by simp, ?_⟩
          rw [List.nil_append, flatMap_socketChunks_cons]
          simp
        · split at h
          · obtain rfl := Outcome.returned.inj h
            cases hexit
          · rename_i hstdin
            obtain ⟨front, last, hevents, hmarker, hopen, hshown⟩ := ih h
            refine ⟨ready :: front, last, by rw [hevents]; rfl, hmarker, ?_, ?_⟩
            · exact List.forall_mem_cons.mpr ⟨hstdin, hopen⟩
            · rw [hshown, List.cons_append, flatMap_socketChunks_cons, List.append_assoc]

/-- Up to a chunk that holds the marker the loop goes on, if nothing else ends it. -/
theorem interactiveLoop_of_marker {front : List Ready} {ready : Ready} (back : List Ready)
    (hsocket : ∀ other ∈ front ++ [ready], other.socket ≠ some [])
    (hbefore : ∀ other ∈ front, ¬ endMarker token <:+: other.socket.getD [])
    (hopen : ∀ other ∈ front, other.stdin ≠ some [])
    (hmarker : endMarker token <:+: ready.socket.getD []) (shown sent : Bytes) :
    ∃ result, interactiveLoop token shown sent (front ++ ready :: back) = .returned result ∧
      result.exit = .commandEnded ∧ result.unread = back := by
  induction front generalizing shown sent with
  | nil =>
      rw [List.nil_append, interactiveLoop, if_neg (hsocket ready (by simp)), if_pos hmarker]
      exact ⟨_, rfl, rfl, rfl⟩
  | cons first front ih =>
      rw [List.cons_append, interactiveLoop, if_neg (hsocket first (by simp)),
        if_neg (hbefore first (by simp)), if_neg (hopen first (by simp))]
      apply ih
      · exact fun other h => hsocket other (by simp at h; simp [h])
      · exact fun other h => hbefore other (by simp [h])
      · exact fun other h => hopen other (by simp [h])

/-! ## The end of the session -/

/-- The loop leaves with the event `ready`, and what it has shown is the stream up to there: the
bytes that are on no protocol line, and no others. -/
structure EndsWithCommand (token : Token) (front : List Ready) (ready : Ready)
    (back : List Ready) : Prop where
  leaves : ∃ result, interactiveLoop token [] [] (front ++ ready :: back) = .returned result ∧
    result.exit = .commandEnded ∧ result.unread = back ∧
    result.shown = stripProtocolLines (agentStream (front ++ [ready]))
  positions : (socketChunks (front ++ [ready])).flatMap kept = kept (agentStream (front ++ [ready]))

/-- The chunk holds all of the marker, stdin is open until then, and where a line of the stream
is cut, its pieces are protocol lines if and only if the line is. -/
structure CutsClear (token : Token) (front : List Ready) (ready : Ready) : Prop where
  marker : endMarker token <:+: ready.socket.getD []
  stdin : ∀ other ∈ front, other.stdin ≠ some []
  pieces : Lines.PiecesAgree (!isProtocolLine ·) (byteLines (agentStream (front ++ [ready])))
    (socketChunks (front ++ [ready]))

theorem kept_chunks_iff {events : List Ready} (hsocket : ∀ ready ∈ events, ready.socket ≠ some []) :
    (socketChunks events).flatMap kept = kept (agentStream events) ↔
      Lines.PiecesAgree (!isProtocolLine ·) (byteLines (agentStream events))
        (socketChunks events) := by
  have hne : ∀ chunk ∈ socketChunks events, chunk ≠ [] := by
    intro chunk hmem
    obtain ⟨ready, hready, hchunk⟩ := List.mem_filterMap.mp hmem
    rintro rfl
    exact hsocket ready hready hchunk
  have hlf : isByteBreak 10 := by decide
  have hcrlf : (13 : UInt8) ≠ 10 := by decide
  exact Lines.flatMap_marks_eq_iff (p := fun line => !isProtocolLine line) hlf hcrlf hne rfl

theorem exists_completes {events : List Ready} (h : endMarker token <:+: agentStream events) :
    ∃ front ready back, events = front ++ ready :: back ∧ Completes token front ready := by
  induction events using List.reverseRecOn with
  | nil =>
      have hlen := h.length_le
      simp [agentStream, endMarker, ascii] at hlen
  | append_singleton events last ih =>
      by_cases hearlier : endMarker token <:+: agentStream events
      · obtain ⟨front, ready, back, rfl, hcompletes⟩ := ih hearlier
        exact ⟨front, ready, back ++ [last], by simp, hcompletes⟩
      · exact ⟨events, last, [], rfl, hearlier, h⟩

theorem endsWithCommand_iff_cutsClear {front back : List Ready} {ready : Ready}
    (hsocket : ∀ other ∈ front ++ ready :: back, other.socket ≠ some [])
    (hcompletes : Completes token front ready) :
    EndsWithCommand token front ready back ↔ CutsClear token front ready := by
  have hsocket' : ∀ other ∈ front ++ [ready], other.socket ≠ some [] := by
    intro other h
    apply hsocket
    simp only [List.mem_append, List.mem_cons, List.not_mem_nil, or_false] at h ⊢
    exact h.imp_right Or.inl
  constructor
  · intro h
    obtain ⟨result, hrun, hexit, hunread, _⟩ := h.leaves
    obtain ⟨front', ready', hevents, hmarker, hopen, _⟩ := exists_of_commandEnded hrun hexit
    rw [hunread] at hevents
    obtain ⟨rfl, hlast⟩ := List.append_inj' hevents rfl
    obtain ⟨rfl, _⟩ := List.cons.inj hlast
    exact ⟨hmarker, hopen, (kept_chunks_iff hsocket').mp h.positions⟩
  · intro h
    have hpositions := (kept_chunks_iff hsocket').mpr h.pieces
    have hbefore : ∀ other ∈ front, ¬ endMarker token <:+: other.socket.getD [] :=
      fun other hmem hmarker => hcompletes.before (hmarker.trans (infix_agentStream hmem))
    obtain ⟨result, hrun, hexit, hunread⟩ :=
      interactiveLoop_of_marker back hsocket' hbefore h.stdin h.marker [] []
    refine ⟨⟨result, hrun, hexit, hunread, ?_⟩, hpositions⟩
    obtain ⟨front', ready', hevents, _, _, hshown⟩ := exists_of_commandEnded hrun hexit
    rw [hunread] at hevents
    obtain ⟨rfl, hlast⟩ := List.append_inj' hevents rfl
    obtain ⟨rfl, _⟩ := List.cons.inj hlast
    rw [hshown, List.nil_append, flatMap_stripProtocolLines, hpositions,
      stripProtocolLines_eq_selected]
    rfl

/-- A stream with the end line has a chunk that completes the marker, and there the session ends
as it should exactly if nothing is cut the wrong way. -/
theorem interactiveLoop_ends_iff {events : List Ready} {status : UInt8}
    (hsocket : ∀ ready ∈ events, ready.socket ≠ some [])
    (hstream : endLine token status <:+: agentStream events) :
    (∃ front ready back, events = front ++ ready :: back ∧ Completes token front ready) ∧
      ∀ front ready back, events = front ++ ready :: back → Completes token front ready →
        (EndsWithCommand token front ready back ↔ CutsClear token front ready) := by
  constructor
  · apply exists_completes
    refine List.IsInfix.trans ⟨[], decimal status.toNat ++ [10], ?_⟩ hstream
    simp [endLine]
  · rintro front ready back rfl hcompletes
    exact endsWithCommand_iff_cutsClear hsocket hcompletes

/-- Two lines of output in three chunks, with keys that are pressed meanwhile and afterwards. -/
theorem interactiveLoop_ends_iff_threeChunks :
    let stream := runCommand trueToken (ascii "one\ntwo\n") 0
    let k := (beginLine trueToken).length + 2
    let front : List Ready := [⟨some (stream.take k), none⟩, ⟨none, some [113]⟩,
      ⟨some ((stream.drop k).take 3), some [113, 10]⟩]
    EndsWithCommand trueToken front ⟨some (stream.drop (k + 3)), none⟩ [⟨none, some [10]⟩] := by
  intro stream k front
  have hchunks : let last : Ready := ⟨some (stream.drop (k + 3)), none⟩
      (∀ other ∈ front ++ last :: [⟨none, some [10]⟩], other.socket ≠ some []) ∧
      endLine trueToken 0 <:+: agentStream (front ++ last :: [⟨none, some [10]⟩]) ∧
      (¬ endMarker trueToken <:+: agentStream front ∧
        endMarker trueToken <:+: agentStream (front ++ [last])) ∧
      endMarker trueToken <:+: last.socket.getD [] ∧ (∀ other ∈ front, other.stdin ≠ some []) ∧
      Lines.PiecesAgree (!isProtocolLine ·) (byteLines (agentStream (front ++ [last])))
        (socketChunks (front ++ [last])) := by decide +kernel
  obtain ⟨hsocket, hstream, ⟨hbefore, hafter⟩, hmarker, hstdin, hpieces⟩ := hchunks
  exact ((interactiveLoop_ends_iff hsocket hstream).2 front _ _ rfl ⟨hbefore, hafter⟩).mpr
    ⟨hmarker, hstdin, hpieces⟩

/-- With the marker cut in two the loop waits on after the end of the command. -/
theorem interactiveLoop_waits_on_cut_marker :
    let stream := runCommand trueToken [] 0
    let k := (beginLine trueToken).length + 5
    let first : Ready := ⟨some (stream.take k), none⟩
    let second : Ready := ⟨some (stream.drop k), none⟩
    (∀ ready ∈ [first, second], ready.socket ≠ some []) ∧
      endLine trueToken 0 <:+: agentStream [first, second] ∧
      Completes trueToken [first] second ∧ interactiveLoop trueToken [] [] [first, second] = .running ∧
      ¬ EndsWithCommand trueToken [first] second [] := by
  intro stream k first second
  have hrun : (∀ ready ∈ [first, second], ready.socket ≠ some []) ∧
      endLine trueToken 0 <:+: agentStream [first, second] ∧
      ¬ endMarker trueToken <:+: agentStream [first] ∧
      interactiveLoop trueToken [] [] [first, second] = .running := by decide +kernel
  obtain ⟨hsocket, hstream, hbefore, hrunning⟩ := hrun
  refine ⟨hsocket, hstream, ⟨hbefore, ?_⟩, hrunning, fun h => ?_⟩
  · refine List.IsInfix.trans ⟨[], decimal 0 ++ [10], ?_⟩ hstream
    simp [endLine]
  · obtain ⟨result, hreturned, _⟩ := h.leaves
    have hnot : interactiveLoop trueToken [] [] ([first] ++ [second]) = .running := hrunning
    rw [hnot] at hreturned
    cases hreturned

end DistroSeed
