import DistroSeed.Model.SerialLoop
import Mathlib.Data.Bool.AllAny
import Mathlib.Data.List.TakeDrop

/-! A payload on its way to the agent: what the agent makes of the lines of `_send_payload`, and
what it makes of them behind an unfinished line. -/

namespace DistroSeed

open PyText

/-! ## Bytes of a line -/

/-- Bytes that neither end a line nor get lost in `read`. -/
def LineBytes (line : Bytes) : Prop := ∀ b ∈ line, b ≠ 10 ∧ b ≠ 0 ∧ b ≠ 13

theorem lineBytes_append {x y : Bytes} : LineBytes (x ++ y) ↔ LineBytes x ∧ LineBytes y := by
  exact List.forall_mem_append

theorem lineBytes_of_between {line : Bytes} (h : between 14 255 line) : LineBytes line := by
  intro b hb
  have hrange := between_iff.mp h b hb
  refine ⟨?_, ?_, ?_⟩ <;>
  · intro heq
    subst heq
    exact absurd hrange.1 (by decide)

theorem isTokenByte_range {b : UInt8} (h : isTokenByte b) : 45 ≤ b.toNat := by
  simp only [isTokenByte, Bool.or_eq_true, Bool.and_eq_true, decide_eq_true_eq] at h
  rcases h with (((h | h) | h) | rfl) | rfl
  · omega
  · omega
  · omega
  · decide
  · decide

/-- A token has no character that is special in a pattern. -/
theorem notMem_special_of_isTokenByte {b : UInt8} (h : isTokenByte b) : b ∉ ascii "*?[\\" := by
  have hspecial : ∀ c ∈ ascii "*?[\\", ¬ isTokenByte c := List.all_iff_forall_prop.mp (by decide)
  exact fun hmem => hspecial b hmem h

theorem lineBytes_token {token : Bytes} (h : ∀ b ∈ token, isTokenByte b) : LineBytes token := by
  intro b hb
  have hrange := isTokenByte_range (h b hb)
  refine ⟨?_, ?_, ?_⟩ <;>
  · intro heq
    subst heq
    exact absurd hrange (by decide)

theorem blank_notMem_token {token : Bytes} (h : ∀ b ∈ token, isTokenByte b) : 32 ∉ token := by
  intro hmem
  exact absurd (isTokenByte_range (h 32 hmem)) (by decide)

theorem stripCr_of_lineBytes {line : Bytes} (h : LineBytes line) : stripCr line = line := by
  apply if_neg
  intro hlast
  exact (h 13 (List.mem_of_getLast? hlast)).2.2 rfl

/-! ## Parsing -/

theorem parseLine_end (tools : AgentTools) (token : Bytes) :
    parseLine tools (ascii "RUNB64_END " ++ token) = .runB64End token := rfl

theorem parseLine_data (tools : AgentTools) {token : Bytes} (htoken : ∀ b ∈ token, isTokenByte b)
    (chunk : Bytes) :
    parseLine tools (ascii "RUNB64_DATA " ++ (token ++ 32 :: chunk)) = .runB64Data token chunk := by
  have hparse : parseLine tools (ascii "RUNB64_DATA " ++ (token ++ 32 :: chunk)) =
      parseData tools (token ++ 32 :: chunk) := rfl
  have hrest : token ++ 32 :: chunk = (token ++ [32]) ++ chunk := by simp
  have htake : (token ++ 32 :: chunk).takeWhile (· ≠ 32) = token := by
    rw [List.takeWhile_append_of_pos]
    · simp
    · intro b hb
      simpa using fun heq : b = 32 => blank_notMem_token htoken (heq ▸ hb)
  have hliteral : ∀ b ∈ token ++ [32], b ∉ ascii "*?[\\" := by
    intro b hb
    rcases List.mem_append.mp hb with hb | hb
    · exact notMem_special_of_isTokenByte (htoken b hb)
    · rw [List.mem_singleton.mp hb]
      decide
  rw [hparse, parseData, htake, tools.removePrefix_of_literal _ _ hliteral, hrest, if_pos (by simp),
    List.drop_left]

/-! ## Reading -/

namespace Agent

variable {tools : AgentTools} {a : Agent tools}

@[simp] theorem readAll_nil (a : Agent tools) : a.readAll [] = a := rfl

theorem readAll_append (a : Agent tools) (x y : Bytes) : a.readAll (x ++ y) = (a.readAll x).readAll y :=
  List.foldl_append

/-- What `read` keeps of bytes that do not end the line. -/
theorem readAll_of_no_feed {bytes : Bytes} (h : 10 ∉ bytes) (a : Agent tools) :
    a.readAll bytes = { a with line := a.line ++ bytes.filter (· ≠ 0) } := by
  induction bytes generalizing a with
  | nil => simp
  | cons b bytes ih =>
      rw [List.mem_cons, not_or] at h
      have hstep : a.readAll (b :: bytes) = (a.readByte b).readAll bytes := rfl
      rw [hstep, ih h.2, readByte, if_neg (Ne.symm h.1)]
      by_cases hb : b = 0 <;> simp [hb]

theorem readAll_line {line : Bytes} (h : LineBytes line) (a : Agent tools) :
    a.readAll (line ++ [10]) = handleLine (a.line ++ line) { a with line := [] } := by
  have hfeed : 10 ∉ line := fun hmem => (h 10 hmem).1 rfl
  have hfilter : line.filter (· ≠ 0) = line := by
    rw [List.filter_eq_self]
    intro b hb
    simpa using (h b hb).2.1
  rw [readAll_append, readAll_of_no_feed hfeed, hfilter]
  rfl

/-- A line that the agent reads from its start. -/
theorem readAll_line_of_nil {line : Bytes} (h : LineBytes line) (ha : a.line = []) {b : Agent tools}
    (hexec : a.execute (parseLine tools line) = some b) : a.readAll (line ++ [10]) = b := by
  have hself : ({ a with line := [] } : Agent tools) = a := by rw [← ha]
  rw [readAll_line h, ha, List.nil_append, hself, handleLine, stripCr_of_lineBytes h, hexec]
  rfl

/-! ## The lines of `_send_payload` -/

section Payload

variable {token : Bytes}

theorem readAll_ping (ha : a.line = []) : a.readAll (ascii "PING\n") = a.say "READY\n" := by
  have hping : ascii "PING\n" = ascii "PING" ++ [10] := by decide
  have hline : LineBytes (ascii "PING") := lineBytes_of_between (by decide)
  rw [hping]
  exact readAll_line_of_nil hline ha rfl

theorem readAll_begin (htoken : ∀ b ∈ token, isTokenByte b) (husable : tools.Usable token)
    (ha : a.line = []) :
    a.readAll (ascii "RUNB64_BEGIN " ++ token ++ [10]) =
      { a with files := Function.update a.files token none } := by
  have hline : LineBytes (ascii "RUNB64_BEGIN " ++ token) :=
    lineBytes_append.mpr ⟨lineBytes_of_between (by decide), lineBytes_token htoken⟩
  exact readAll_line_of_nil hline ha (if_pos husable.removes)

theorem readAll_dataLine (htoken : ∀ b ∈ token, isTokenByte b) (husable : tools.Usable token)
    {chunk : Bytes} (hchunk : LineBytes chunk) (ha : a.line = []) :
    a.readAll (dataLine token chunk) = { a with
      files := Function.update a.files token (some ((a.files token).getD [] ++ chunk)) } := by
  have hline : LineBytes (ascii "RUNB64_DATA " ++ (token ++ 32 :: chunk)) := by
    refine lineBytes_append.mpr ⟨lineBytes_of_between (by decide), ?_⟩
    refine lineBytes_append.mpr ⟨lineBytes_token htoken, ?_⟩
    intro b hb
    rcases List.mem_cons.mp hb with rfl | hb
    · decide
    · exact hchunk b hb
  have hdata : dataLine token chunk = ascii "RUNB64_DATA " ++ (token ++ 32 :: chunk) ++ [10] := by
    rw [dataLine, show ascii " " = [32] from rfl]
    simp only [List.append_assoc, List.cons_append, List.nil_append]
  rw [hdata]
  apply readAll_line_of_nil hline ha
  rw [parseLine_data tools htoken, execute, if_pos husable.writes]

/-- The lines with the data add up in the file of the token. -/
theorem readAll_dataLines (htoken : ∀ b ∈ token, isTokenByte b) (husable : tools.Usable token)
    {chunks : List Bytes} (hne : chunks ≠ []) (hchunks : ∀ chunk ∈ chunks, LineBytes chunk)
    (ha : a.line = []) :
    a.readAll (chunks.flatMap (dataLine token)) = { a with
      files := Function.update a.files token (some ((a.files token).getD [] ++ chunks.flatten)) } := by
  induction chunks generalizing a with
  | nil => exact absurd rfl hne
  | cons chunk chunks ih =>
      have hfirst := readAll_dataLine htoken husable (hchunks chunk List.mem_cons_self) ha
      rw [List.flatMap_cons, readAll_append, hfirst]
      by_cases hnil : chunks = []
      · subst hnil
        simp
      · have hrest := ih (a := { a with
            files := Function.update a.files token (some ((a.files token).getD [] ++ chunk)) })
          hnil (fun c hc => hchunks c (List.mem_cons_of_mem _ hc)) ha
        rw [hrest]
        simp

theorem flatten_slices (n k : ℕ) (l : Bytes) :
    ((List.range n).map fun i => (l.drop (k * i)).take k).flatten = l.take (k * n) := by
  induction n with
  | zero => simp
  | succ n ih =>
      rw [List.range_succ, List.map_append, List.flatten_append, ih, Nat.mul_succ, List.take_add]
      simp

theorem flatten_payloadChunks (encoded : Bytes) : (payloadChunks encoded).flatten = encoded := by
  rw [payloadChunks, flatten_slices, List.take_of_length_le]
  omega

/-- The lines behind `RUNB64_BEGIN` run one command, whose script is the payload. -/
theorem readAll_payloadLines (htoken : ∀ b ∈ token, isTokenByte b) (husable : tools.Usable token)
    {payload : Bytes} (hpayload : payload ≠ []) (ha : a.line = []) :
    a.readAll (payloadLines token (Base64.encode payload)) = { a with
      files := Function.update a.files token none
      events := a.events ++ [.run token payload] } := by
  have hchunks : ∀ chunk ∈ payloadChunks (Base64.encode payload), LineBytes chunk := by
    intro chunk hchunk b hb
    have hmem : b ∈ Base64.encode payload := by
      rw [← flatten_payloadChunks (Base64.encode payload)]
      exact List.mem_flatten.mpr ⟨chunk, hchunk, hb⟩
    have hrange := (Base64.inAlphabet_of_mem_encode b hmem).printable
    refine ⟨?_, ?_, ?_⟩ <;>
    · intro heq
      subst heq
      exact absurd hrange.1 (by decide)
  have hne : payloadChunks (Base64.encode payload) ≠ [] := by
    intro hnil
    have hflatten := flatten_payloadChunks (Base64.encode payload)
    rw [hnil] at hflatten
    exact hpayload (Base64.encode_eq_nil_iff.mp hflatten.symm)
  have hend : LineBytes (ascii "RUNB64_END " ++ token) :=
    lineBytes_append.mpr ⟨lineBytes_of_between (by decide), lineBytes_token htoken⟩
  rw [payloadLines, readAll_append, readAll_append a (ascii "RUNB64_BEGIN " ++ token ++ [10]),
    readAll_begin htoken husable ha]
  rw [readAll_dataLines (a := { a with files := Function.update a.files token none }) htoken husable
    hne hchunks ha]
  refine readAll_line_of_nil hend ?_ ?_
  · exact ha
  rw [parseLine_end, execute, runB64Command]
  simp [flatten_payloadChunks, tools.decode_encode]

end Payload

end Agent

/-! ## One payload -/

/-- The agent at the start of a line answers the `PING` and then runs exactly one command, whose
script is the payload. -/
theorem sendPayload_runs_payload {tools : AgentTools} {a : Agent tools} (ha : a.line = [])
    {token payload : Bytes} (htoken : ∀ b ∈ token, isTokenByte b) (husable : tools.Usable token)
    (hpayload : payload ≠ []) :
    a.readAll (sendPayload token (Base64.encode payload)) =
      { a with
        files := Function.update a.files token none
        events := a.events ++ [.echo (ascii "READY\n"), .run token payload] } := by
  rw [sendPayload, Agent.readAll_append, Agent.readAll_ping ha,
    Agent.readAll_payloadLines htoken husable hpayload (a := a.say "READY\n") ha]
  simp [Agent.say]

/-- What the tools do with names of one directory: at most 255 bytes, of which `ds-run.` and `.b64`
take eleven. -/
def standardTools : AgentTools where
  removes token := token.length ≤ 244
  writes token := 47 ∉ token ∧ token.length ≤ 244
  decode := Base64.decode
  removePrefix pattern text := if pattern.isPrefixOf text then text.drop pattern.length else text
  not_writes_of_slash token h := by simp [h]
  decode_encode := Base64.decode_encode
  removePrefix_of_literal _ _ _ := rfl

/-- An agent that has just started. -/
def freshAgent : Agent standardTools := ⟨[], fun _ => none, []⟩

/-- A file that an earlier session has left. -/
def staleAgent (token content : Bytes) : Agent standardTools :=
  { freshAgent with files := Function.update freshAgent.files token (some content) }

/-- A payload of two lines, and a file that is left over. -/
theorem sendPayload_runs_payload_twoLines :
    let token := ascii "true-012345678901"
    let payload := List.replicate 45001 10
    let a := staleAgent token (ascii "Cg==")
    (payloadChunks (Base64.encode payload)).length = 2 ∧ a.files token = some (ascii "Cg==") ∧
      a.readAll (sendPayload token (Base64.encode payload)) =
        { a with
          files := Function.update a.files token none
          events := a.events ++ [.echo (ascii "READY\n"), .run token payload] } := by
  intro token payload a
  have hstale : a.files token = some (ascii "Cg==") := by
    change Function.update freshAgent.files token (some (ascii "Cg==")) token = _
    rw [Function.update_self]
  refine ⟨?_, hstale, ?_⟩
  · rw [payloadChunks, List.length_map, List.length_range, Base64.length_encode,
      List.length_replicate]
  · refine sendPayload_runs_payload rfl (List.all_eq_true.mp (by decide)) ⟨by decide, by decide⟩ ?_
    rw [Ne, List.replicate_eq_nil_iff]
    decide

/-- Without data there is no file to decode: the agent ends and is started again. -/
theorem sendPayload_nil {tools : AgentTools} {a : Agent tools} (ha : a.line = []) {token : Bytes}
    (htoken : ∀ b ∈ token, isTokenByte b) (husable : tools.Usable token) :
    (a.readAll (sendPayload token (Base64.encode []))).events =
      a.events ++ [.echo (ascii "READY\n"), .echo (ascii "READY\n")] := by
  have hlines : payloadLines token (Base64.encode []) =
      ascii "RUNB64_BEGIN " ++ token ++ [10] ++ (ascii "RUNB64_END " ++ token ++ [10]) := by
    simp [payloadLines, payloadChunks, Base64.encode]
  have hend : LineBytes (ascii "RUNB64_END " ++ token) :=
    lineBytes_append.mpr ⟨lineBytes_of_between (by decide), lineBytes_token htoken⟩
  rw [sendPayload, Agent.readAll_append, Agent.readAll_ping ha, hlines, Agent.readAll_append,
    Agent.readAll_begin (a := a.say "READY\n") htoken husable ha, Agent.readAll_line hend]
  rw [Agent.handleLine, stripCr_of_lineBytes]
  · simp [Agent.say, ha, parseLine_end, Agent.execute, Agent.runB64Command, Agent.restart]
  · simpa [Agent.say, ha] using hend

theorem sendPayload_nil_runs_nothing :
    let token := ascii "true-012345678901"
    let events := (freshAgent.readAll (sendPayload token (Base64.encode []))).events
    ∀ event ∈ events, event = .echo (ascii "READY\n") := by
  intro token events
  have hevents : events = [.echo (ascii "READY\n"), .echo (ascii "READY\n")] :=
    sendPayload_nil rfl (List.all_eq_true.mp (by decide)) ⟨by decide, by decide⟩
  rw [hevents]
  simp

/-! ## Behind an unfinished line -/

/-- What the agent has of the line that it is reading. -/
def unfinishedLine (earlier : Bytes) : Bytes := (Lines.lastLine (· = 10) earlier).filter (· ≠ 0)

/-- The next session gets an answer to its `PING`, and its payload is the one command that its
lines run. -/
def SessionServed {tools : AgentTools} (a : Agent tools) (token payload : Bytes) : Prop :=
  ∃ events, (a.readAll (ascii "PING\n")).events = a.events ++ events ∧
    .echo (ascii "READY\n") ∈ events ∧
    (a.readAll (sendPayload token (Base64.encode payload))).events =
      (a.readAll (ascii "PING\n")).events ++ [.run token payload]

/-- The agent ends on the line. -/
def Agent.EndsOn {tools : AgentTools} (a : Agent tools) (line : Bytes) : Prop :=
  a.execute (parseLine tools (stripCr line)) = none

namespace Agent

variable {tools : AgentTools} {a : Agent tools}

theorem line_execute {command : AgentCommand} {b : Agent tools} (h : a.execute command = some b) :
    b.line = a.line := by
  cases command with
  | runB64Begin token =>
      rw [execute, Option.ite_none_right_eq_some] at h
      obtain rfl := Option.some.inj h.2
      rfl
  | runB64Data token payload =>
      rw [execute, Option.ite_none_right_eq_some] at h
      obtain rfl := Option.some.inj h.2
      rfl
  | runB64End token =>
      obtain ⟨script, _, rfl⟩ := Option.map_eq_some_iff.mp h
      rfl
  | ping =>
      obtain rfl := Option.some.inj h
      rfl
  | poweroff =>
      obtain rfl := Option.some.inj h
      rfl
  | unknown =>
      obtain rfl := Option.some.inj h
      rfl

theorem line_handleLine (line : Bytes) (ha : a.line = []) : (a.handleLine line).line = [] := by
  unfold handleLine
  cases hexec : a.execute (parseLine tools (stripCr line)) with
  | none => rfl
  | some b =>
      rw [Option.getD_some, line_execute hexec, ha]

/-- Behind the last line feed, only the bytes of the next line count. -/
theorem line_readAll (earlier : Bytes) (ha : a.line = []) :
    (a.readAll earlier).line = unfinishedLine earlier := by
  have hfeed : 10 ∉ Lines.lastLine (· = 10) earlier := by
    intro hmem
    simpa using Lines.not_break_of_mem_lastLine hmem
  have hbefore : (a.readAll (Lines.beforeLastLine (· = 10) earlier)).line = [] := by
    rcases Lines.endsLine_beforeLastLine (fun b : UInt8 => b = 10) earlier with hnil | ⟨c, hc, hbreak⟩
    · rw [hnil]
      exact ha
    · obtain ⟨front, hfront⟩ := List.getLast?_eq_some_iff.mp hc
      obtain rfl : c = 10 := by simpa using hbreak
      rw [hfront, readAll_append]
      exact line_handleLine _ rfl
  rw [← Lines.beforeLastLine_append_lastLine (fun b : UInt8 => b = 10) earlier, readAll_append,
    readAll_of_no_feed hfeed, hbefore, List.nil_append, Lines.beforeLastLine_append_lastLine]
  rfl

/-- Whether a branch fails does not depend on the line. -/
theorem execute_withLine_eq_none_iff {command : AgentCommand} {line : Bytes} :
    execute command ({ a with line } : Agent tools) = none ↔ a.execute command = none := by
  cases command <;> simp [execute, runB64Command]

/-- Which branches answer with `READY`. -/
theorem ready_notMem_of_execute {command : AgentCommand} {b : Agent tools} {events : List AgentEvent}
    (hcommand : command ≠ .ping) (hexec : a.execute command = some b)
    (hevents : b.events = a.events ++ events) : .echo (ascii "READY\n") ∉ events := by
  have hcancel : ∀ new : List AgentEvent, b.events = a.events ++ new → events = new := by
    intro new hnew
    exact List.append_cancel_left (hevents.symm.trans hnew)
  cases command with
  | ping => exact absurd rfl hcommand
  | runB64Begin token =>
      rw [execute, Option.ite_none_right_eq_some] at hexec
      obtain rfl := Option.some.inj hexec.2
      simp [hcancel [] (by simp)]
  | runB64Data token payload =>
      rw [execute, Option.ite_none_right_eq_some] at hexec
      obtain rfl := Option.some.inj hexec.2
      simp [hcancel [] (by simp)]
  | runB64End token =>
      obtain ⟨script, _, rfl⟩ := Option.map_eq_some_iff.mp hexec
      simp [hcancel [.run token script] rfl]
  | poweroff =>
      obtain rfl := Option.some.inj hexec
      rw [hcancel [.poweroff, .echo (ascii "BYE\n")] (by simp [say])]
      decide
  | unknown =>
      obtain rfl := Option.some.inj hexec
      rw [hcancel [.echo (ascii "ERR unknown command\n")] rfl]
      decide

end Agent

/-! ### The line in front of `PING` -/

theorem stripCr_append_ping (line : Bytes) : stripCr (line ++ ascii "PING") = line ++ ascii "PING" := by
  apply if_neg
  rw [List.getLast?_append, show (ascii "PING").getLast? = some 71 from rfl]
  simp

theorem parseLine_append_ping (tools : AgentTools) {line : Bytes} (h : line ≠ []) :
    parseLine tools (line ++ ascii "PING") ≠ .ping := by
  unfold parseLine
  split
  · simp
  split
  · simp [parseData]
  split
  · simp
  split
  · rename_i heq
    exact absurd (List.append_left_eq_self.mp heq) h
  split <;> simp

section Isolation

variable {tools : AgentTools} {a : Agent tools} {token payload : Bytes}

theorem readAll_ping_eq (a : Agent tools) : a.readAll (ascii "PING\n") =
    Agent.handleLine (a.line ++ ascii "PING") { a with line := [] } := by
  have hping : ascii "PING\n" = ascii "PING" ++ [10] := by decide
  rw [hping, Agent.readAll_line (lineBytes_of_between (by decide))]

/-- An agent that ends on the line greets the session when it is started again. -/
theorem readAll_ping_of_endsOn (h : a.EndsOn (a.line ++ ascii "PING")) :
    a.readAll (ascii "PING\n") = a.restart := by
  rw [readAll_ping_eq, Agent.handleLine, Agent.execute_withLine_eq_none_iff.mpr h]
  rfl

theorem sessionServed_of_answer (htoken : ∀ b ∈ token, isTokenByte b) (husable : tools.Usable token)
    (hpayload : payload ≠ []) {b : Agent tools} (hping : a.readAll (ascii "PING\n") = b)
    (hline : b.line = []) (hevents : b.events = a.events ++ [.echo (ascii "READY\n")]) :
    SessionServed a token payload := by
  refine ⟨[.echo (ascii "READY\n")], hping ▸ hevents, by simp, ?_⟩
  rw [sendPayload, Agent.readAll_append, hping,
    Agent.readAll_payloadLines htoken husable hpayload hline]

theorem not_sessionServed (hline : a.line ≠ []) (hends : ¬ a.EndsOn (a.line ++ ascii "PING")) :
    ¬ SessionServed a token payload := by
  intro hserved
  obtain ⟨events, hevents, hready, _⟩ := hserved
  have hstrip := stripCr_append_ping a.line
  cases hexec : Agent.execute (parseLine tools (a.line ++ ascii "PING")) { a with line := [] } with
  | none =>
      apply hends
      rw [Agent.EndsOn, hstrip]
      exact Agent.execute_withLine_eq_none_iff.mp hexec
  | some b =>
      rw [readAll_ping_eq, Agent.handleLine, hstrip, hexec, Option.getD_some] at hevents
      exact Agent.ready_notMem_of_execute (parseLine_append_ping tools hline) hexec hevents hready

end Isolation

end DistroSeed
