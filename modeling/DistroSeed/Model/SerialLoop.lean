import DistroSeed.Library.Base64
import DistroSeed.Library.PyText
import Mathlib.Logic.Function.Basic

/-! The command loop of `ds-serial-agent`, and the lines that `_send_payload` writes to it. -/

namespace DistroSeed

open PyText

/-- What the agent does on the control port, in order: the lines that it prints, the commands that
it runs, and the shutdown of the VM. -/
inductive AgentEvent where
  | echo (line : Bytes)
  | run (token script : Bytes)
  | poweroff
deriving DecidableEq, Repr

/-- Whether `rm -f` and `>>` work on the file of a token (not if its name is too long, say), what
`base64 -d` makes of the content of a file, and what `${text#pattern}` leaves of a text. -/
structure AgentTools where
  removes : Bytes → Bool
  writes : Bytes → Bool
  decode : Bytes → Option Bytes
  removePrefix : Bytes → Bytes → Bytes
  /-- A token with a slash names a directory that does not exist. -/
  not_writes_of_slash : ∀ token, 47 ∈ token → writes token = false
  decode_encode : ∀ payload, decode (Base64.encode payload) = some payload
  removePrefix_of_literal : ∀ pattern text, (∀ b ∈ pattern, b ∉ ascii "*?[\\") →
    removePrefix pattern text =
      if pattern.isPrefixOf text then text.drop pattern.length else text

/-- A token whose file can be used. -/
structure AgentTools.Usable (tools : AgentTools) (token : Bytes) : Prop where
  removes : tools.removes token
  writes : tools.writes token

/-- The agent between two bytes of its input: the line read so far, and the files
`/tmp/ds-run.<token>.b64` by their token. -/
structure Agent (tools : AgentTools) where
  line : Bytes
  files : Bytes → Option Bytes
  events : List AgentEvent

/-- The patterns of the `case`, with what they leave of the line. -/
inductive AgentCommand where
  | runB64Begin (token : Bytes)
  | runB64Data (token payload : Bytes)
  | runB64End (token : Bytes)
  | ping
  | poweroff
  | unknown
deriving DecidableEq, Repr

/-- `line="${line%"$cr"}"`. -/
def stripCr (line : Bytes) : Bytes := if line.getLast? = some 13 then line.dropLast else line

/-- `token="${rest%% *}"` and `payload="${rest#${token} }"`. -/
def parseData (tools : AgentTools) (rest : Bytes) : AgentCommand :=
  let token := rest.takeWhile (· ≠ 32)
  .runB64Data token (tools.removePrefix (token ++ [32]) rest)

def parseLine (tools : AgentTools) (line : Bytes) : AgentCommand :=
  if (ascii "RUNB64_BEGIN ").isPrefixOf line then .runB64Begin (line.drop 13)
  else if (ascii "RUNB64_DATA ").isPrefixOf line then parseData tools (line.drop 12)
  else if (ascii "RUNB64_END ").isPrefixOf line then .runB64End (line.drop 11)
  else if line = ascii "PING" then .ping
  else if line = ascii "POWEROFF" then .poweroff
  else .unknown

namespace Agent

variable {tools : AgentTools}

def say (text : String) (a : Agent tools) : Agent tools :=
  { a with events := a.events ++ [.echo (ascii text)] }

/-- systemd restarts an agent that has ended; it forgets the line that it was reading. -/
def restart (a : Agent tools) : Agent tools := say "READY\n" { a with line := [] }

/-- `run_b64_command`: without a file that decodes, `set -e` ends the agent. -/
def runB64Command (token : Bytes) (a : Agent tools) : Option (Agent tools) :=
  ((a.files token).bind tools.decode).map fun script =>
    { a with
      files := Function.update a.files token none
      events := a.events ++ [.run token script] }

/-- The branches of the `case`; `none` if a command of the branch fails: `set -e` ends the agent. -/
def execute : AgentCommand → Agent tools → Option (Agent tools)
  | .runB64Begin token, a =>
      if tools.removes token then some { a with files := Function.update a.files token none }
      else none
  | .runB64Data token payload, a =>
      if tools.writes token then
        some { a with
          files := Function.update a.files token (some ((a.files token).getD [] ++ payload)) }
      else none
  | .runB64End token, a => a.runB64Command token
  | .ping, a => some (a.say "READY\n")
  | .poweroff, a => some (say "BYE\n" { a with events := a.events ++ [.poweroff] })
  | .unknown, a => some (a.say "ERR unknown command\n")

/-- One turn of the loop. -/
def handleLine (line : Bytes) (a : Agent tools) : Agent tools :=
  (a.execute (parseLine tools (stripCr line))).getD a.restart

/-- `IFS= read -r line` takes one byte at a time and ignores zero bytes. -/
def readByte (a : Agent tools) (b : UInt8) : Agent tools :=
  if b = 10 then handleLine a.line { a with line := [] }
  else if b = 0 then a
  else { a with line := a.line ++ [b] }

def readAll (a : Agent tools) (bytes : Bytes) : Agent tools := bytes.foldl readByte a

/-- Whether the port shows an end of file while the host is not connected: `read` fails then,
and the loop ends. -/
def disconnect (endOfFile : Bool) (a : Agent tools) : Agent tools := if endOfFile then a.restart else a

end Agent

/-! ## vm.py -/

/-- `encoded[idx:idx + 60000] for idx in range(0, len(encoded), 60000)`. -/
def payloadChunks (encoded : Bytes) : List Bytes :=
  (List.range ((encoded.length + 59999) / 60000)).map fun i => (encoded.drop (60000 * i)).take 60000

def dataLine (token chunk : Bytes) : Bytes := ascii "RUNB64_DATA " ++ token ++ ascii " " ++ chunk ++ [10]

/-- What `_send_payload` writes once the agent has answered. -/
def payloadLines (token encoded : Bytes) : Bytes :=
  ascii "RUNB64_BEGIN " ++ token ++ [10] ++ (payloadChunks encoded).flatMap (dataLine token) ++
    (ascii "RUNB64_END " ++ token ++ [10])

/-- `_send_payload`. -/
def sendPayload (token encoded : Bytes) : Bytes := ascii "PING\n" ++ payloadLines token encoded

/-- `[A-Za-z0-9_-]`. -/
def isTokenByte (b : UInt8) : Bool :=
  (65 ≤ b.toNat && b.toNat ≤ 90) || (97 ≤ b.toNat && b.toNat ≤ 122) ||
    (48 ≤ b.toNat && b.toNat ≤ 57) || b = 95 || b = 45

end DistroSeed
