import DistroSeed.Library.Outcome
import DistroSeed.Model.SerialAgent

/-! The host side of the serial protocol in `vm.py`. -/

namespace DistroSeed

open PyText

/-- What the functions below raise. -/
inductive VmError where
  | vmError (message : String)
  | valueError
  | indexError
deriving DecidableEq, Repr

/-- `_strip_protocol_lines` drops a line by what it starts with. -/
def isProtocolLine (line : Bytes) : Bool :=
  (ascii "__DS_BEGIN__ ").isPrefixOf (rstrip [13, 10] line) ||
    (ascii "__DS_END__ ").isPrefixOf (rstrip [13, 10] line)

def stripProtocolLines (chunk : Bytes) : Bytes :=
  ((byteLines chunk).map fun line => line.1 ++ line.2).filter (!isProtocolLine ·) |>.flatten

/-- What `_read_until` has received and which marker ended it; `consoleLog` is what it
has appended to `console.log` meanwhile. -/
structure ReadResult where
  data : Bytes
  marker : Bytes
  consoleLog : Bytes
deriving DecidableEq, Repr

/-- `_read_until` without a timeout: `chunks` is what the calls of `recv` return, in order.
An empty chunk means that the socket is closed; after the last chunk the call blocks. -/
def readUntil (markers : List Bytes) (log : Bool) (data consoleLog : Bytes) :
    List Bytes → Outcome VmError ReadResult
  | [] => .running
  | chunk :: chunks =>
      if chunk = [] then .raised (.vmError "VM control socket closed")
      else
        let consoleLog := if log then consoleLog ++ stripProtocolLines chunk else consoleLog
        let data := data ++ chunk
        match markers.find? (· <:+: data) with
        | some marker => .returned { data, marker, consoleLog }
        | none => readUntil markers log data consoleLog chunks

/-- The last line of the text that starts with the marker, or nothing. -/
def findEndLine (marker : List ℕ) (text : List ℕ) : List ℕ :=
  ((textLines text).map Prod.fst).foldl
    (fun found line => if marker.isPrefixOf line then line else found) []

/-- The second half of `_run_agent_script`: the status and the output of a command. -/
def parseOutput (token : Token) (output : Bytes) : Outcome VmError (ℤ × Bytes) :=
  match findEndLine ((endMarker token).map UInt8.toNat) (Utf8.decode output) with
  | [] => .raised (.vmError "VM command ended without a status marker")
  | line =>
      match rsplitLast 32 line with
      | none => .raised .indexError
      | some field =>
          match toInt field with
          | none => .raised .valueError
          | some status => .returned (status, stripProtocolLines output)

/-- `_run_agent_script` after the payload is sent, with no timeout: the log aside. -/
def runAgentScript (token : Token) (chunks : List Bytes) : Outcome VmError (ℤ × Bytes) := do
  let result ← readUntil [endMarker token] true [] [] chunks
  parseOutput token result.data

/-! ## _interactive_script -/

/-- What a call of `select` has found: the result of `recv`, empty if the socket is closed, and
what was read from stdin, empty at its end. -/
structure Ready where
  socket : Option Bytes
  stdin : Option Bytes
deriving DecidableEq, Repr

/-- The three ways out of the loop. -/
inductive LoopExit where
  | commandEnded
  | socketClosed
  | stdinClosed
deriving DecidableEq, Repr

/-- How the loop has ended: what it has written to stdout, as to `console.log`, and to the socket,
and what is still to be read. -/
structure Interactive where
  exit : LoopExit
  shown : Bytes
  sent : Bytes
  unread : List Ready
deriving DecidableEq, Repr

/-- The loop of `_interactive_script`; the socket takes all that is sent. -/
def interactiveLoop (token : Token) (shown sent : Bytes) : List Ready → Outcome VmError Interactive
  | [] => .running
  | ready :: unread =>
      let shown := shown ++ stripProtocolLines (ready.socket.getD [])
      if ready.socket = some [] then .returned { exit := .socketClosed, shown, sent, unread }
      else if endMarker token <:+: ready.socket.getD [] then
        .returned { exit := .commandEnded, shown, sent, unread }
      else if ready.stdin = some [] then .returned { exit := .stdinClosed, shown, sent, unread }
      else interactiveLoop token shown (sent ++ ready.stdin.getD []) unread

end DistroSeed
