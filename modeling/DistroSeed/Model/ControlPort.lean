import DistroSeed.Library.Channels
import DistroSeed.Library.Runs
import DistroSeed.Model.Environment
import DistroSeed.Model.SerialLoop
import DistroSeed.Model.Vm

/-! The control port between `_run_agent_script` and `ds-serial-agent`, over one call after the
other: the bytes under way in both directions, and what either side makes of the next ones. No
call runs into a timeout. -/

namespace DistroSeed

open PyText Channels

/-! ## The agent's side

What a script prints on the port and the status that it ends with may depend on all that the agent
has done before. A script ends, does not read its standard input, which is the port, and leaves
nothing behind that writes to it. -/

section Guest

variable (tools : AgentTools) (exec : List AgentEvent → Bytes → Bytes × UInt8)

/-- What the agent writes to the port when it does something. -/
def eventOutput (history : List AgentEvent) : AgentEvent → Bytes
  | .echo line => line
  | .run token script =>
      let (output, status) := exec history script
      ascii "__DS_BEGIN__ " ++ token ++ [10] ++ output ++
        (if status ≠ 0 then
          ascii "ERR task " ++ token ++ ascii " failed with status " ++ decimal status.toNat ++ [10]
        else []) ++
        (ascii "__DS_END__ " ++ token ++ [32] ++ decimal status.toNat ++ [10])
  | .poweroff => []

def portOutput (history : List AgentEvent) : List AgentEvent → Bytes
  | [] => []
  | event :: events => eventOutput exec history event ++ portOutput (history ++ [event]) events

/-- The agent, a byte at a time. -/
def portParty : Party (Agent tools) UInt8 UInt8 where
  next := Agent.readByte
  emit a b := portOutput exec a.events ((a.readByte b).events.drop a.events.length)

end Guest

/-! ## The host's side -/

/-- A call of `_run_agent_script`, with `os.environ` as it is then. Where a value cannot be encoded,
the call ends before it connects. -/
structure ScriptCall where
  token : Token
  script : String
  environ : PyEnv
  extra : PyEnv
  payload : Bytes
  encoded : encode? (envExports (vmEnv codePoints environ extra) ++
    codePoints ("\n" ++ script)) = some payload

/-- The host is not connected, waits in `_send_payload` for `READY`, or behind it for the end
marker. -/
inductive HostState where
  | idle
  | waitsReady (call : ScriptCall) (data : Bytes)
  | waitsEnd (call : ScriptCall) (data : Bytes)

/-- A call that is over, with what `_read_until` has returned. -/
structure ScriptAnswer where
  call : ScriptCall
  received : Bytes

/-- What `_run_agent_script` returns or raises. -/
def ScriptAnswer.result (answer : ScriptAnswer) : Outcome VmError (ℤ × Bytes) :=
  parseOutput answer.call.token answer.received

structure ControlPort (tools : AgentTools) where
  link : Link (Agent tools) UInt8 UInt8
  host : HostState
  answers : List ScriptAnswer

/-- What happens next: the host makes a call, the agent reads a byte, the host receives the first
bytes that have come, the agent reads an end of file while nobody is connected, or bytes that came
then are lost. -/
inductive PortEvent where
  | called (call : ScriptCall)
  | guestReads
  | hostReceives (n : ℕ)
  | hungUp
  | lost (n : ℕ)

namespace ControlPort

variable {tools : AgentTools}

/-- The agent behind its first `READY`, of which the first call may or may not see anything. -/
def start (agent : Agent tools) (stale : Bytes) : ControlPort tools where
  link := ⟨agent, [], stale⟩
  host := .idle
  answers := []

def write (s : ControlPort tools) (bytes : Bytes) : ControlPort tools :=
  { s with link := { s.link with input := s.link.input ++ bytes } }

/-- The turn of `_read_until` that receives a chunk. -/
def receive (s : ControlPort tools) (chunk : Bytes) : Option (ControlPort tools) :=
  match s.host with
  | .idle => none
  | .waitsReady call data =>
      if ascii "READY\n" <:+: data ++ chunk then
        some (write { s with host := .waitsEnd call [] }
          (payloadLines call.token.bytes (Base64.encode call.payload)))
      else some { s with host := .waitsReady call (data ++ chunk) }
  | .waitsEnd call data =>
      if endMarker call.token <:+: data ++ chunk then
        some { s with host := .idle, answers := s.answers ++ [⟨call, data ++ chunk⟩] }
      else some { s with host := .waitsEnd call (data ++ chunk) }

def dropOutput (s : ControlPort tools) (n : ℕ) : ControlPort tools :=
  { s with link := { s.link with output := s.link.output.drop n } }

def step (exec : List AgentEvent → Bytes → Bytes × UInt8) (s : ControlPort tools) :
    PortEvent → Option (ControlPort tools)
  | .called call =>
      match s.host with
      | .idle => some (write { s with host := .waitsReady call [] } (ascii "PING\n"))
      | _ => none
  | .guestReads => (s.link.read (portParty tools exec)).map fun link => { s with link }
  | .hostReceives n =>
      if 0 < n ∧ n ≤ min 65536 s.link.output.length then
        (s.dropOutput n).receive (s.link.output.take n)
      else none
  | .hungUp =>
      match s.host, s.link.input with
      | .idle, [] =>
          some { s with link := ⟨s.link.party.restart, [], s.link.output ++ ascii "READY\n"⟩ }
      | _, _ => none
  | .lost n =>
      match s.host with
      | .idle => some (s.dropOutput n)
      | _ => none

end ControlPort

/-! ## What the agent was told to run -/

/-- A command that the agent has run. -/
structure CommandRun where
  token : Bytes
  script : Bytes
  output : Bytes
  status : UInt8
deriving DecidableEq, Repr

/-- The commands among the things that the agent does, with what comes of them. -/
def commandRuns (exec : List AgentEvent → Bytes → Bytes × UInt8) (history : List AgentEvent) :
    List AgentEvent → List CommandRun
  | [] => []
  | event :: events =>
      match event with
      | .run token script =>
          let (output, status) := exec history script
          ⟨token, script, output, status⟩ :: commandRuns exec (history ++ [event]) events
      | _ => commandRuns exec (history ++ [event]) events

end DistroSeed
