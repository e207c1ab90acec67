import DistroSeed.Model.ControlPort
import DistroSeed.Verification.Serial.Fidelity
import DistroSeed.Verification.Serial.Transport

/-! Calls of `_run_agent_script` over one control port: however the bytes are delayed and cut into
chunks, each call runs its own payload once and gets its own answer. -/

namespace DistroSeed

open PyText Lines Channels

/-! ## The agent's output -/

namespace Agent

variable {tools : AgentTools}

theorem exists_events_execute {a b : Agent tools} {command : AgentCommand}
    (h : a.execute command = some b) : ∃ new, b.events = a.events ++ new := by
  cases command with
  | runB64Begin token =>
      rw [execute, Option.ite_none_right_eq_some] at h
      obtain rfl := Option.some.inj h.2
      exact ⟨[], by simp⟩
  | runB64Data token payload =>
      rw [execute, Option.ite_none_right_eq_some] at h
      obtain rfl := Option.some.inj h.2
      exact ⟨[], by simp⟩
  | runB64End token =>
      rcases Option.map_eq_some_iff.mp h with ⟨script, _, rfl⟩
      exact ⟨_, rfl⟩
  | ping =>
      obtain rfl := Option.some.inj h
      exact ⟨_, rfl⟩
  | poweroff =>
      obtain rfl := Option.some.inj h
      exact ⟨[.poweroff, .echo (ascii "BYE\n")], by simp [say]⟩
  | unknown =>
      obtain rfl := Option.some.inj h
      exact ⟨_, rfl⟩

/-- What the agent has done it has done. -/
theorem exists_events_readByte (a : Agent tools) (b : UInt8) :
    ∃ new, (a.readByte b).events = a.events ++ new := by
  unfold readByte
  split
  · unfold handleLine
    cases hexec : execute (parseLine tools (stripCr a.line)) { a with line := [] } with
    | none => exact ⟨_, rfl⟩
    | some b => exact exists_events_execute (a := { a with line := [] }) hexec
  · split
    · exact ⟨[], by simp⟩
    · exact ⟨[], by simp⟩

end Agent

section Output

variable {tools : AgentTools} (exec : List AgentEvent → Bytes → Bytes × UInt8)

theorem portOutput_append (history events more : List AgentEvent) :
    portOutput exec history (events ++ more) =
      portOutput exec history events ++ portOutput exec (history ++ events) more := by
  induction events generalizing history with
  | nil => simp [portOutput]
  | cons event events ih =>
      rw [List.cons_append, portOutput, portOutput, ih, List.append_assoc, List.append_assoc]
      rfl

theorem commandRuns_append (history events more : List AgentEvent) :
    commandRuns exec history (events ++ more) =
      commandRuns exec history events ++ commandRuns exec (history ++ events) more := by
  induction events generalizing history with
  | nil => simp [commandRuns]
  | cons event events ih =>
      cases event with
      | echo line => simp [commandRuns, ih]
      | run token script => simp [commandRuns, ih]
      | poweroff => simp [commandRuns, ih]

/-- What the agent writes while it reads is the output of what it does meanwhile. -/
theorem exists_emitted_eq (a : Agent tools) (input : Bytes) :
    ∃ new, (a.readAll input).events = a.events ++ new ∧
      (portParty tools exec).emitted a input = portOutput exec a.events new := by
  induction input generalizing a with
  | nil => exact ⟨[], by simp [Agent.readAll], rfl⟩
  | cons b input ih =>
      rcases a.exists_events_readByte b with ⟨first, hfirst⟩
      rcases ih (a.readByte b) with ⟨rest, hrest, hemitted⟩
      refine ⟨first ++ rest, ?_, ?_⟩
      · rw [← List.append_assoc, ← hfirst, ← hrest]
        rfl
      · rw [Party.emitted_cons, portOutput_append, ← hfirst]
        change portOutput exec a.events ((a.readByte b).events.drop a.events.length) ++
          (portParty tools exec).emitted (a.readByte b) input = _
        rw [hemitted, hfirst, List.drop_left]

theorem emitted_eq {a : Agent tools} {input : Bytes} {new : List AgentEvent}
    (h : (a.readAll input).events = a.events ++ new) :
    (portParty tools exec).emitted a input = portOutput exec a.events new := by
  rcases exists_emitted_eq exec a input with ⟨other, hother, hemitted⟩
  rw [hemitted, List.append_cancel_left (hother.symm.trans h)]

theorem eventOutput_run (history : List AgentEvent) (token : Token) (script : Bytes) :
    eventOutput exec history (.run token.bytes script) =
      runCommand token (exec history script).1 (exec history script).2 := by
  simp [eventOutput, runCommand, beginLine, errLine, endLine, endMarker]

end Output

/-! ## What is left over from before -/

/-- Whole lines without an underscore. -/
structure Residue (bytes : Bytes) : Prop where
  plain : 95 ∉ bytes
  ends : EndsLine (· = 10) bytes

namespace Residue

theorem nil : Residue [] := ⟨by simp, Or.inl rfl⟩

theorem of_suffix {bytes suffix : Bytes} (h : Residue bytes) (hsuffix : suffix <:+ bytes) :
    Residue suffix := by
  refine ⟨fun hmem => h.plain (hsuffix.subset hmem), ?_⟩
  rcases hsuffix with ⟨front, rfl⟩
  cases suffix with
  | nil => exact Or.inl rfl
  | cons b suffix =>
      rcases h.ends with hnil | ⟨c, hc, hbreak⟩
      · simp at hnil
      · refine Or.inr ⟨c, ?_, hbreak⟩
        rwa [List.getLast?_append_of_ne_nil _ (by simp)] at hc

theorem append_ready {bytes : Bytes} (h : Residue bytes) : Residue (bytes ++ ascii "READY\n") := by
  refine ⟨fun hmem => ?_, ?_⟩
  · rcases List.mem_append.mp hmem with hmem | hmem
    · exact h.plain hmem
    · exact absurd hmem (by decide)
  · have hready : ascii "READY\n" = ascii "READY" ++ [10] := by decide
    rw [hready, ← List.append_assoc]
    exact endsLine_append_singleton (by decide)

/-- The marker of a command does not begin in what is left over. -/
theorem infix_append_iff {bytes rest : Bytes} (h : Residue bytes) (token : Token) :
    endMarker token <:+: bytes ++ rest ↔ endMarker token <:+: rest := by
  constructor
  · intro hinfix
    have hplain := h.plain
    clear h
    induction bytes with
    | nil => exact hinfix
    | cons b bytes ih =>
        rw [List.mem_cons, not_or] at hplain
        rcases List.infix_cons_iff.mp hinfix with hprefix | hinfix
        · rcases hprefix with ⟨more, hmore⟩
          exact absurd (List.cons.inj hmore).1 hplain.1
        · exact ih hinfix hplain.2
  · intro hinfix
    exact hinfix.trans (List.suffix_append bytes rest).isInfix

end Residue

/-! ## What the host waits for -/

/-- A token without special characters whose file can be used, and a script that does not print its
own end marker. -/
structure ScriptCall.Sound (tools : AgentTools) (exec : List AgentEvent → Bytes → Bytes × UInt8)
    (call : ScriptCall) : Prop where
  token : ∀ b ∈ call.token.bytes, isTokenByte b
  usable : tools.Usable call.token.bytes
  output : ∀ history, ¬ endMarker call.token <:+: (exec history call.payload).1

/-- The answer is that of the run, up to where the host has stopped reading the end line; in front
of it stands what was left over. -/
structure Answers (answer : ScriptAnswer) (run : CommandRun) : Prop where
  token : run.token = answer.call.token.bytes
  script : run.script = answer.call.payload
  received : ∃ residue tail rest, Residue residue ∧
    tail ++ rest = decimal run.status.toNat ++ [10] ∧
    answer.received = residue ++ (beforeEnd answer.call.token run.output run.status ++
      (endMarker answer.call.token ++ tail))

/-- The command of a call that is not over, and all that is still to come of it. -/
structure InHand (call : ScriptCall) (data coming : Bytes) (run : CommandRun) : Prop where
  token : run.token = call.token.bytes
  script : run.script = call.payload
  output : ¬ endMarker call.token <:+: run.output
  stream : ∃ residue, Residue residue ∧
    data ++ coming = residue ++ runCommand call.token run.output run.status

/-- What the host waits for is on its way. -/
def Expects (tools : AgentTools) (exec : List AgentEvent → Bytes → Bytes × UInt8) (coming : Bytes) :
    HostState → List CommandRun → Prop
  | .idle, runs => runs = [] ∧ Residue coming
  | .waitsReady call data, runs => runs = [] ∧ call.Sound tools exec ∧ ¬ ascii "READY\n" <:+: data ∧
      ascii "READY\n" <:+: data ++ coming ∧ Residue (data ++ coming)
  | .waitsEnd call data, runs => ¬ endMarker call.token <:+: data ∧
      ∃ run, runs = [run] ∧ InHand call data coming run

theorem ScriptCall.payload_ne_nil (call : ScriptCall) : call.payload ≠ [] := by
  apply encode?_ne_nil call.encoded
  simp [codePoints]

/-- Once the end marker has come, what is left over is the rest of the end line. -/
theorem InHand.answers {call : ScriptCall} {data coming : Bytes} {run : CommandRun}
    (h : InHand call data coming run) (hend : endMarker call.token <:+: data) :
    Answers ⟨call, data⟩ run ∧ Residue coming := by
  rcases h.stream with ⟨residue, hresidue, hstream⟩
  have hunderscore : 95 ∈ data := by
    apply hend.subset
    simp [endMarker, ascii]
  -- the host has received all of what was left over
  have hfront : ∃ front, data = residue ++ front ∧
      front ++ coming = runCommand call.token run.output run.status := by
    rcases List.append_eq_append_iff.mp hstream with ⟨mid, heq, _⟩ | ⟨mid, heq, hmid⟩
    · exact absurd (heq ▸ List.mem_append_left mid hunderscore) hresidue.plain
    · exact ⟨mid, heq, hmid.symm⟩
  rcases hfront with ⟨front, rfl, hfront⟩
  rw [hresidue.infix_append_iff] at hend
  rcases exists_tail h.output hfront hend with ⟨tail, rfl, htail⟩
  refine ⟨⟨h.token, h.script, residue, tail, coming, hresidue, htail, rfl⟩, ?_⟩
  have hline : Residue (decimal run.status.toNat ++ [10]) := by
    refine ⟨fun hmem => ?_, endsLine_append_singleton (by decide)⟩
    rcases List.mem_append.mp hmem with hmem | hmem
    · exact absurd (digit_of_mem_decimal (UInt8.toNat_lt run.status) 95 hmem) (by decide)
    · exact absurd hmem (by decide)
  exact hline.of_suffix ⟨tail, htail⟩

namespace ControlPort

section Served

variable {tools : AgentTools} (exec : List AgentEvent → Bytes → Bytes × UInt8)

/-- The agent once it has read all that is on its way. -/
def settled (s : ControlPort tools) : Agent tools := s.link.settled (portParty tools exec)

/-- What the host can still receive. -/
def inFlight (s : ControlPort tools) : Bytes := s.link.inFlight (portParty tools exec)

/-- The commands of the calls that are over, and of the one that is not. -/
structure Served (s : ControlPort tools) : Prop where
  line : (s.settled exec).line = []
  runs : ∃ runs inHand, commandRuns exec [] (s.settled exec).events = runs ++ inHand ∧
    List.Forall₂ Answers s.answers runs ∧ Expects tools exec (s.inFlight exec) s.host inHand

end Served

variable {tools : AgentTools} {exec : List AgentEvent → Bytes → Bytes × UInt8}
  {s s' : ControlPort tools}

theorem settled_write (bytes : Bytes) :
    (s.write bytes).settled exec = (s.settled exec).readAll bytes :=
  Link.settled_write bytes

theorem inFlight_write {bytes : Bytes} {new : List AgentEvent}
    (h : ((s.settled exec).readAll bytes).events = (s.settled exec).events ++ new) :
    (s.write bytes).inFlight exec =
      s.inFlight exec ++ portOutput exec (s.settled exec).events new := by
  rw [← emitted_eq exec h]
  exact Link.inFlight_write bytes

theorem take_append_inFlight_dropOutput (n : ℕ) :
    s.link.output.take n ++ (s.dropOutput n).inFlight exec = s.inFlight exec :=
  Link.inFlight_drop n

/-! ### Steps -/

theorem Served.guestReads (h : s.Served exec) (hstep : s.step exec .guestReads = some s') :
    s'.Served exec := by
  rcases Option.map_eq_some_iff.mp hstep with ⟨link, hlink, rfl⟩
  have hsettled : settled exec { s with link } = s.settled exec := Link.settled_read hlink
  have hflight : inFlight exec { s with link } = s.inFlight exec := Link.inFlight_read hlink
  refine ⟨?_, ?_⟩
  · rw [hsettled]
    exact h.line
  · rw [hsettled, hflight]
    exact h.runs

theorem Served.lost (h : s.Served exec) {n : ℕ} (hstep : s.step exec (.lost n) = some s') :
    s'.Served exec := by
  rcases h.runs with ⟨runs, inHand, hruns, hanswers, hexpects⟩
  cases hhost : s.host with
  | waitsReady call data => simp [step, hhost] at hstep
  | waitsEnd call data => simp [step, hhost] at hstep
  | idle =>
      rw [step, hhost] at hstep
      obtain rfl := Option.some.inj hstep
      rw [hhost] at hexpects
      refine ⟨h.line, runs, inHand, hruns, hanswers, ?_⟩
      change Expects tools exec ((s.dropOutput n).inFlight exec) s.host inHand
      rw [hhost]
      refine ⟨hexpects.1, hexpects.2.of_suffix ⟨s.link.output.take n, ?_⟩⟩
      exact take_append_inFlight_dropOutput n

theorem Served.hungUp (h : s.Served exec) (hstep : s.step exec .hungUp = some s') :
    s'.Served exec := by
  rcases h.runs with ⟨runs, inHand, hruns, hanswers, hexpects⟩
  cases hhost : s.host with
  | waitsReady call data => simp [step, hhost] at hstep
  | waitsEnd call data => simp [step, hhost] at hstep
  | idle =>
      cases hinput : s.link.input with
      | cons b input => simp [step, hhost, hinput] at hstep
      | nil =>
          simp only [step, hhost, hinput] at hstep
          obtain rfl := Option.some.inj hstep
          have hsettled : s.settled exec = s.link.party := by
            rw [settled, Link.settled, hinput, Party.settle_nil]
          have hflight : s.inFlight exec = s.link.output := Link.inFlight_of_read_all hinput
          rw [hhost] at hexpects
          rw [hsettled] at hruns
          refine ⟨rfl, runs, inHand, ?_, hanswers, ?_⟩
          · change commandRuns exec [] (s.link.party.events ++ [.echo (ascii "READY\n")]) = _
            rw [commandRuns_append, hruns]
            simp [commandRuns]
          · refine ⟨hexpects.1, ?_⟩
            change Residue (s.link.output ++ ascii "READY\n" ++ [])
            rw [List.append_nil, ← hflight]
            exact hexpects.2.append_ready

theorem Served.called (h : s.Served exec) {call : ScriptCall} (hcall : call.Sound tools exec)
    (hstep : s.step exec (.called call) = some s') : s'.Served exec := by
  rcases h.runs with ⟨runs, inHand, hruns, hanswers, hexpects⟩
  cases hhost : s.host with
  | waitsReady call data => simp [step, hhost] at hstep
  | waitsEnd call data => simp [step, hhost] at hstep
  | idle =>
      rw [step, hhost] at hstep
      obtain rfl := Option.some.inj hstep
      rw [hhost] at hexpects
      have hping : (s.settled exec).readAll (ascii "PING\n") = (s.settled exec).say "READY\n" :=
        Agent.readAll_ping h.line
      have hsettled : settled exec (write { s with host := .waitsReady call [] } (ascii "PING\n")) =
          (s.settled exec).say "READY\n" := by
        rw [← hping]
        exact settled_write _
      have hflight : inFlight exec (write { s with host := .waitsReady call [] } (ascii "PING\n")) =
          s.inFlight exec ++ ascii "READY\n" := by
        have hevents : ((s.settled exec).readAll (ascii "PING\n")).events =
            (s.settled exec).events ++ [.echo (ascii "READY\n")] := by
          rw [hping]
          rfl
        rw [inFlight_write (s := { s with host := .waitsReady call [] }) hevents]
        simp [portOutput, eventOutput, inFlight]
      refine ⟨?_, runs, inHand, ?_, hanswers, ?_⟩
      · rw [hsettled]
        exact h.line
      · rw [hsettled]
        change commandRuns exec [] ((s.settled exec).events ++ [.echo (ascii "READY\n")]) = _
        rw [commandRuns_append, hruns]
        simp [commandRuns]
      · rw [hflight]
        refine ⟨hexpects.1, hcall, by decide, ?_, hexpects.2.append_ready⟩
        exact (List.suffix_append _ _).isInfix

/-- `_send_payload` has its answer: the payload is on its way. -/
theorem Served.ready {s : ControlPort tools} {call : ScriptCall} {runs : List CommandRun}
    (hline : (s.settled exec).line = []) (hcall : call.Sound tools exec)
    (hruns : commandRuns exec [] (s.settled exec).events = runs)
    (hanswers : List.Forall₂ Answers s.answers runs) (hresidue : Residue (s.inFlight exec)) :
    (write { s with host := .waitsEnd call [] }
      (payloadLines call.token.bytes (Base64.encode call.payload))).Served exec := by
  let sent := write { s with host := .waitsEnd call [] }
    (payloadLines call.token.bytes (Base64.encode call.payload))
  let result := exec (s.settled exec).events call.payload
  have hread := Agent.readAll_payloadLines hcall.token hcall.usable call.payload_ne_nil hline
  have hsettled : sent.settled exec = (s.settled exec).readAll
      (payloadLines call.token.bytes (Base64.encode call.payload)) := settled_write _
  have hevents : ((s.settled exec).readAll
      (payloadLines call.token.bytes (Base64.encode call.payload))).events =
        (s.settled exec).events ++ [.run call.token.bytes call.payload] := by
    rw [hread]
  have hflight : sent.inFlight exec =
      s.inFlight exec ++ runCommand call.token result.1 result.2 := by
    have hwrite := inFlight_write (s := { s with host := .waitsEnd call [] }) hevents
    rw [portOutput, portOutput, List.append_nil] at hwrite
    rw [← eventOutput_run]
    exact hwrite
  refine ⟨?_, runs, [⟨call.token.bytes, call.payload, result.1, result.2⟩], ?_, hanswers, ?_⟩
  · change (sent.settled exec).line = []
    rw [hsettled, hread]
    exact hline
  · change commandRuns exec [] (sent.settled exec).events = _
    rw [hsettled, hevents, commandRuns_append, hruns]
    rfl
  · refine ⟨by simp [endMarker], _, rfl, rfl, rfl, hcall.output _, s.inFlight exec, hresidue, ?_⟩
    exact hflight

/-- The end marker has come: the call is over. -/
theorem Served.ended {s : ControlPort tools} {call : ScriptCall} {data : Bytes} {run : CommandRun}
    {runs : List CommandRun} (hline : (s.settled exec).line = [])
    (hruns : commandRuns exec [] (s.settled exec).events = runs ++ [run])
    (hanswers : List.Forall₂ Answers s.answers runs)
    (hrun : InHand call data (s.inFlight exec) run) (hend : endMarker call.token <:+: data) :
    Served exec { s with host := .idle, answers := s.answers ++ [⟨call, data⟩] } := by
  rcases hrun.answers hend with ⟨hanswer, hresidue⟩
  refine ⟨hline, runs ++ [run], [], by rw [List.append_nil]; exact hruns, ?_, rfl, hresidue⟩
  exact List.rel_append hanswers (.cons hanswer .nil)

theorem Served.hostReceives (h : s.Served exec) {n : ℕ}
    (hstep : s.step exec (.hostReceives n) = some s') : s'.Served exec := by
  rcases h.runs with ⟨runs, inHand, hruns, hanswers, hexpects⟩
  have htake : s.link.output.take n ++ (s.dropOutput n).inFlight exec = s.inFlight exec :=
    take_append_inFlight_dropOutput n
  simp only [step, Option.ite_none_right_eq_some] at hstep
  rcases hstep with ⟨_, hreceive⟩
  cases hhost : s.host with
  | idle => simp [receive, dropOutput, hhost] at hreceive
  | waitsReady call data =>
      rw [hhost] at hexpects
      rcases hexpects with ⟨rfl, hcall, hdata, hready, hresidue⟩
      rw [← htake, ← List.append_assoc] at hready hresidue
      simp only [receive, dropOutput, hhost] at hreceive
      split at hreceive
      · obtain rfl := Option.some.inj hreceive
        rw [List.append_nil] at hruns
        exact Served.ready (s := s.dropOutput n) h.line hcall hruns hanswers
          (hresidue.of_suffix (List.suffix_append _ _))
      · rename_i hnot
        obtain rfl := Option.some.inj hreceive
        exact ⟨h.line, runs, [], hruns, hanswers, rfl, hcall, hnot, hready, hresidue⟩
  | waitsEnd call data =>
      rw [hhost] at hexpects
      rcases hexpects with ⟨hdata, run, rfl, hrun⟩
      have hrun' : InHand call (data ++ s.link.output.take n) ((s.dropOutput n).inFlight exec) run := by
        refine ⟨hrun.token, hrun.script, hrun.output, ?_⟩
        rw [List.append_assoc, htake]
        exact hrun.stream
      simp only [receive, dropOutput, hhost] at hreceive
      split at hreceive
      · rename_i hend
        obtain rfl := Option.some.inj hreceive
        exact Served.ended (s := s.dropOutput n) h.line hruns hanswers hrun' hend
      · rename_i hnot
        obtain rfl := Option.some.inj hreceive
        exact ⟨h.line, runs, [run], hruns, hanswers, hnot, run, rfl, hrun'⟩

theorem Served.step (h : s.Served exec) {event : PortEvent}
    (hevent : ∀ call, event = .called call → call.Sound tools exec)
    (hstep : s.step exec event = some s') : s'.Served exec := by
  cases event with
  | called call => exact h.called (hevent call rfl) hstep
  | guestReads => exact h.guestReads hstep
  | hostReceives n => exact h.hostReceives hstep
  | hungUp => exact h.hungUp hstep
  | lost n => exact h.lost hstep

theorem served_start {agent : Agent tools} (hline : agent.line = []) (hevents : agent.events = [])
    {stale : Bytes} (hstale : Residue stale) : (start agent stale).Served exec := by
  refine ⟨hline, [], [], ?_, .nil, rfl, ?_⟩
  · change commandRuns exec [] agent.events = []
    rw [hevents]
    rfl
  · change Residue (stale ++ [])
    rwa [List.append_nil]

/-- Whatever order the steps of a run come in. -/
theorem served_of_run {agent : Agent tools} (hline : agent.line = []) (hevents : agent.events = [])
    {stale : Bytes} (hstale : Residue stale) {events : List PortEvent}
    (hcalls : ∀ call, .called call ∈ events → call.Sound tools exec)
    (hrun : Runs.run (step exec) (start agent stale) events = some s) : s.Served exec := by
  have halong : Runs.Along (step exec)
      (fun _ event => ∀ call, event = .called call → call.Sound tools exec) (start agent stale)
      events := by
    apply Runs.along_of_forall
    intro event hevent _ call heq
    exact hcalls call (heq ▸ hevent)
  exact Runs.invariant_along (Served exec) (fun _ _ _ h hmay hnext => h.step hmay hnext) hrun halong
    (served_start hline hevents hstale)

/-- A host that waits has something to wait for. -/
theorem Served.host_eq_idle (h : s.Served exec) (hinput : s.link.input = [])
    (houtput : s.link.output = []) : s.host = .idle := by
  rcases h.runs with ⟨_, inHand, _, _, hexpects⟩
  have hflight : s.inFlight exec = [] := (Link.inFlight_of_read_all hinput).trans houtput
  rw [hflight] at hexpects
  cases hhost : s.host with
  | idle => rfl
  | waitsReady call data =>
      rw [hhost] at hexpects
      rcases hexpects with ⟨_, _, hdata, hready, _⟩
      rw [List.append_nil] at hready
      exact absurd hready hdata
  | waitsEnd call data =>
      rw [hhost] at hexpects
      rcases hexpects with ⟨hdata, run, _, hrun⟩
      rcases hrun.stream with ⟨residue, hresidue, hstream⟩
      rw [List.append_nil] at hstream
      exfalso
      apply hdata
      rw [hstream, hresidue.infix_append_iff]
      exact endMarker_infix_runCommand call.token run.output run.status

end ControlPort

/-! ## The answers -/

theorem Residue.endsLine {residue : Bytes} (h : Residue residue) : EndsLine isByteBreak residue := by
  rcases h.ends with hnil | ⟨c, hc, hbreak⟩
  · exact Or.inl hnil
  · refine Or.inr ⟨c, hc, ?_⟩
    rw [of_decide_eq_true hbreak]
    decide

theorem Residue.plainLines {residue : Bytes} (h : Residue residue) : Plain residue := by
  intro line hline hstarts
  rcases exists_of_mem_split hline with ⟨before, after, htext, _⟩
  have hmem : 95 ∈ line.1 := by
    rcases startsProtocol_iff.mp hstarts with hword | hword
    · exact hword.subset (by decide)
    · exact hword.subset (by decide)
  apply h.plain
  rw [htext]
  simp [hmem]

/-- What was left over stays in front of the output. -/
theorem Residue.stripProtocolLines_append {residue : Bytes} (h : Residue residue) (rest : Bytes) :
    stripProtocolLines (residue ++ rest) = residue ++ stripProtocolLines rest := by
  have hcut : 13 ∈ residue.getLast? → 10 ∉ rest.head? := by
    intro hlast
    rcases h.ends with hnil | ⟨c, hc, hbreak⟩
    · simp [hnil] at hlast
    · rw [Option.mem_unique hc hlast] at hbreak
      exact absurd hbreak (by decide)
  rw [DistroSeed.stripProtocolLines_append h.endsLine hcut,
    stripProtocolLines_of_plain h.plainLines]

/-- What the host makes of the whole stream of a command behind what was left over. -/
theorem Residue.parseOutput_eq_iff {residue : Bytes} (h : Residue residue) (token : Token)
    {output : Bytes} (hplain : Plain output) (status : UInt8) :
    parseOutput token (residue ++ runCommand token output status) =
        .returned ((status.toNat : ℤ), residue ++ (output ++ errLine token status)) ↔
      status ≠ 0 ∨ EndsLine isByteBreak output := by
  constructor
  · intro hparse
    by_contra hnot
    rcases not_or.mp hnot with ⟨hstatus, hends⟩
    obtain rfl : status = 0 := not_not.mp hstatus
    have hstripped := stripProtocolLines_of_parseOutput hparse
    have herr : errLine token 0 = [] := if_neg (by decide)
    rw [h.stripProtocolLines_append, stripProtocolLines_runCommand_of_not_endsLine hplain hends,
      herr, List.append_nil] at hstripped
    have hlength := congrArg List.length (List.append_cancel_left hstripped)
    simp [endLine] at hlength
  · intro hends
    have hbefore : EndsLine isByteBreak (residue ++ beforeEnd token output status) := by
      rcases (endsLine_beforeEnd_iff token output status).mpr hends with hnil | ⟨c, hc, hbreak⟩
      · simp [beforeEnd, beginLine] at hnil
      · refine Or.inr ⟨c, ?_, hbreak⟩
        rw [List.getLast?_append, hc]
        rfl
    have hstream : residue ++ runCommand token output status =
        residue ++ beforeEnd token output status ++
          (endMarker token ++ (decimal status.toNat ++ [10])) := by
      rw [runCommand_eq, List.append_assoc]
    rw [hstream, parseOutput_of_endsLine token (isTail_decimal status (Or.inr rfl))
      (endsLine_decode hbefore), toInt_decimal, ← hstream, h.stripProtocolLines_append,
      stripProtocolLines_runCommand hplain hends]

/-- The host has received the end line to its end. -/
theorem Answers.received_eq {answer : ScriptAnswer} {run : CommandRun} (h : Answers answer run)
    (hfeed : answer.received.getLast? = some 10) :
    ∃ residue, Residue residue ∧
      answer.received = residue ++ runCommand answer.call.token run.output run.status := by
  rcases h.received with ⟨residue, tail, rest, hresidue, htail, hreceived⟩
  refine ⟨residue, hresidue, ?_⟩
  have hwhole : tail = decimal run.status.toNat ++ [10] := by
    cases hlast : tail.getLast? with
    | none =>
        rw [List.getLast?_eq_none_iff.mp hlast] at hreceived
        rw [hreceived] at hfeed
        simp [endMarker, List.getLast?_append] at hfeed
    | some c =>
        have hc : c = 10 := by
          rw [hreceived, ← List.append_assoc, ← List.append_assoc, List.getLast?_append, hlast] at hfeed
          exact Option.some.inj hfeed
        rw [hc] at hlast
        have hnot : 10 ∉ decimal run.status.toNat := fun hmem =>
          absurd (digit_of_mem_decimal (UInt8.toNat_lt run.status) 10 hmem) (by decide)
        rcases tail_cases htail with hwhole | hdigits | ⟨j, _, htake⟩
        · exact hwhole
        · exact absurd (hdigits ▸ List.mem_of_getLast? hlast) hnot
        · exact absurd (List.mem_of_mem_take (htake ▸ List.mem_of_getLast? hlast)) hnot
  rw [hreceived, hwhole, runCommand_eq]

/-- The answer is the one of the run: the status and the output, if the end line was received to its
end. In front of the output there can be what was left over from before the call. -/
structure AnsweredBy (answer : ScriptAnswer) (run : CommandRun) : Prop where
  token : run.token = answer.call.token.bytes
  script : run.script = answer.call.payload
  result : answer.received.getLast? = some 10 → Plain run.output → ∃ residue, Residue residue ∧
    (answer.result = .returned ((run.status.toNat : ℤ),
        residue ++ (run.output ++ errLine answer.call.token run.status)) ↔
      run.status ≠ 0 ∨ EndsLine isByteBreak run.output)

theorem Answers.answeredBy {answer : ScriptAnswer} {run : CommandRun} (h : Answers answer run) :
    AnsweredBy answer run := by
  refine ⟨h.token, h.script, fun hfeed hplain => ?_⟩
  rcases h.received_eq hfeed with ⟨residue, hresidue, hreceived⟩
  refine ⟨residue, hresidue, ?_⟩
  rw [ScriptAnswer.result, hreceived]
  exact hresidue.parseOutput_eq_iff answer.call.token hplain run.status

/-- The call whose payload was sent and that is not over. -/
def HostState.sent : HostState → List ScriptCall
  | .waitsEnd call _ => [call]
  | _ => []

theorem Expects.map_eq {tools : AgentTools} {exec : List AgentEvent → Bytes → Bytes × UInt8}
    {coming : Bytes} {host : HostState} {inHand : List CommandRun} (h : Expects tools exec coming host inHand) :
    inHand.map (fun run => (run.token, run.script)) =
      host.sent.map fun call => (call.token.bytes, call.payload) := by
  cases host with
  | idle =>
      rw [h.1]
      rfl
  | waitsReady call data =>
      rw [h.1]
      rfl
  | waitsEnd call data =>
      rcases h with ⟨_, run, rfl, hrun⟩
      simp [HostState.sent, hrun.token, hrun.script]

/-- A call of `true` from an empty environment. -/
def trueCall : ScriptCall where
  token := trueToken
  script := "true"
  environ := ∅
  extra := ∅
  payload := (encode? (envExports (vmEnv codePoints ∅ ∅) ++ codePoints "\ntrue")).getD []
  encoded := by decide +kernel

/-- The first call after the agent was started: the host sees two greetings at once, and the rest
in two chunks. -/
def trueEvents : List PortEvent :=
  .called trueCall :: List.replicate 5 .guestReads ++ .hostReceives 12 ::
    List.replicate (payloadLines trueToken.bytes (Base64.encode trueCall.payload)).length
      .guestReads ++ [.hostReceives 20, .hostReceives 42]

end DistroSeed
