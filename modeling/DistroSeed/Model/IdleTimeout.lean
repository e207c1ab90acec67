import DistroSeed.Library.PyText
import Mathlib.Algebra.Order.Ring.Rat

/-! `run_with_idle_timeout.py`: `main` reads what a command prints and what QEMU reports over QMP.
The command goes on by itself between any two steps of `main`. -/

namespace DistroSeed

open PyText

/-! ## JSON -/

/-- What `json.loads` makes of a text; the entries of an object are in the order of the text. -/
inductive Json where
  | null
  | bool (b : Bool)
  | number (text : String)
  | str (text : String)
  | list (items : List Json)
  | dict (entries : List (String × Json))

inductive LoadsError where
  | jsonDecodeError
  | other (name : String)
deriving DecidableEq, Repr

def Json.isStr (text : String) : Json → Bool
  | .str s => s = text
  | _ => false

/-- `message.get("event") == "SHUTDOWN"`; the last of several entries with one key counts. -/
def isShutdown (entries : List (String × Json)) : Bool :=
  ((entries.filter (·.1 = "event")).getLast?.map Prod.snd).any (Json.isStr "SHUTDOWN")

/-! ## The lines of QMP -/

/-- The exceptions that leave `main`. -/
inductive WrapperError where
  | keyError (fd : ℕ)
  | osError
  | unicodeDecodeError
  | loadsError (name : String)
  | attributeError (name : String)
deriving DecidableEq, Repr

/-- What a line means to the loop over the lines. -/
inductive QmpLine where
  | ignored
  | shutdown
  | raised (e : WrapperError)
deriving DecidableEq, Repr

/-- What `bytes.strip` removes. -/
def asciiBlanks : Bytes := [32, 9, 10, 13, 11, 12]

/-- `line.decode("utf-8")`. -/
def decodeUtf8 (line : Bytes) : Option String := String.fromUTF8? line.toByteArray

/-- One turn of the loop over the lines; `json.loads` is a parameter. -/
def qmpLine (loads : String → Except LoadsError Json) (line : Bytes) : QmpLine :=
  let line := rstrip asciiBlanks (line.dropWhile (· ∈ asciiBlanks))
  if line = [] then .ignored
  else
    match decodeUtf8 line with
    | none => .raised .unicodeDecodeError
    | some text =>
        match loads text with
        | .error .jsonDecodeError => .ignored
        | .error (.other name) => .raised (.loadsError name)
        | .ok (.dict entries) => if isShutdown entries then .shutdown else .ignored
        | .ok _ => .raised (.attributeError "get")

/-- The loop over the lines ends at the first one that is not ignored. -/
def qmpLines (loads : String → Except LoadsError Json) : List Bytes → QmpLine
  | [] => .ignored
  | line :: rest =>
      match qmpLine loads line with
      | .ignored => qmpLines loads rest
      | result => result

/-! ## The wrapper -/

/-- The options, the descriptor of the pipe, and `json.loads`. -/
structure WrapperSetup where
  idleTimeout : ℚ
  quiet : Bool
  qmpSocket : Bool
  stdout : ℕ
  loads : String → Except LoadsError Json

/-- What an event of `select` is about. -/
inductive WrapperSource where
  | stdout
  | qmp
deriving DecidableEq, Repr

/-- Where `main` is: at the head of its loop, in `select`, before the next event, in the code that
ends the command, behind the loop, or at its end. -/
inductive WrapperPoint where
  | head
  | select
  | events (ready : List WrapperSource)
  | quit
  | terminate (code : ℤ)
  | wait (code : ℤ)
  | kill (code : ℤ)
  | reap (code : ℤ)
  | leftover
  | returned (code : ℤ)
  | raised (e : WrapperError)
deriving DecidableEq, Repr

/-- The variables of `main`, with the descriptors that are registered and what it has appended to
the log and copied to its own output; and the command, which alone writes to the pipe, with what it
has written, what of it is still in the pipe, and how it has ended. -/
structure Wrapper where
  point : WrapperPoint
  selector : List ℕ
  qmp : Option ℕ
  qmpBuffer : Bytes
  lastOutput : ℚ
  log : Bytes
  output : Bytes
  pipe : Bytes
  written : Bytes
  returncode : Option ℤ

/-- How far the connection to QMP gets. The calls before `sendall` leave nothing behind when they
fail, `selector.register` included. -/
inductive QmpProbe where
  | absent
  | failed
  | sendFailed (fd : ℕ)
  | connected (fd : ℕ)
deriving DecidableEq, Repr

/-- What the command does, and the steps of `main` with what they meet: the time, the connection,
the result of `select`, of `recv` (nothing if it raises) and of a read, whether `quit` is sent,
whether a signal is permitted, and whether the command ends before `wait` gives up. -/
inductive WrapperEvent where
  | write (data : Bytes)
  | exit (returncode : ℤ)
  | turn (now : ℚ) (probe : QmpProbe)
  | selected (ready : List WrapperSource)
  | recv (received : Option Bytes)
  | read (size : ℕ) (now : ℚ)
  | sendQuit (sent : Bool)
  | signal (permitted : Bool)
  | waited (ended : Bool)
  | drain
deriving DecidableEq, Repr

namespace Wrapper

open WrapperPoint

/-- In front of the loop, when the command has just been started. -/
def start (setup : WrapperSetup) (now : ℚ) : Wrapper where
  point := head
  selector := [setup.stdout]
  qmp := none
  qmpBuffer := []
  lastOutput := now
  log := []
  output := []
  pipe := []
  written := []
  returncode := none

/-- `remaining <= 0`. -/
def timedOut (setup : WrapperSetup) (now : ℚ) (w : Wrapper) : Bool :=
  setup.idleTimeout - (now - w.lastOutput) ≤ 0

/-- Whether this turn of the loop looks for the socket. -/
def probes (setup : WrapperSetup) (w : Wrapper) : Bool :=
  w.returncode.isNone && setup.qmpSocket && w.qmp.isNone

/-- `selector.register`. -/
def register (fd : ℕ) (w : Wrapper) : Wrapper :=
  if fd ∈ w.selector then { w with point := raised (.keyError fd) }
  else { w with selector := w.selector ++ [fd] }

/-- The block that connects to QMP. A socket on which `sendall` fails is closed, but stays
registered. -/
def connect : QmpProbe → Wrapper → Wrapper
  | .absent, w | .failed, w => w
  | .sendFailed fd, w => w.register fd
  | .connected fd, w => { w.register fd with qmp := some fd }

/-- The time that remains: `main` goes on to `select`, or ends a command that is silent for too
long. -/
def await (setup : WrapperSetup) (now : ℚ) (w : Wrapper) : Wrapper :=
  { w with point := if w.timedOut setup now then terminate 124 else select }

/-- The loop up to `select`. -/
def turn (setup : WrapperSetup) (now : ℚ) (probe : QmpProbe) (w : Wrapper) : Wrapper :=
  if w.returncode.isSome then { w with point := leftover }
  else if w.probes setup then
    let w := w.connect probe
    if w.point = head then w.await setup now else w
  else w.await setup now

/-- The next event of `select`, or the next turn. -/
def next (ready : List WrapperSource) (w : Wrapper) : Wrapper :=
  { w with point := if ready = [] then head else events ready }

/-- An event of the socket, of which `chunk` was received. -/
def receive (setup : WrapperSetup) (fd : ℕ) (ready : List WrapperSource) (chunk : Bytes)
    (w : Wrapper) : Wrapper :=
  if chunk = [] then
    if fd ∈ w.selector then next ready { w with selector := w.selector.erase fd, qmp := none }
    else { w with point := raised (.keyError fd) }
  else
    let parts := (w.qmpBuffer ++ chunk).splitOn 10
    match qmpLines setup.loads parts.dropLast with
    | .ignored => next ready { w with qmpBuffer := parts.getLast?.getD [] }
    | .shutdown => { w with point := quit }
    | .raised e => { w with point := raised e }

/-- What is read of the pipe goes to the log. -/
def append (setup : WrapperSetup) (size : ℕ) (w : Wrapper) : Wrapper :=
  { w with
    log := w.log ++ w.pipe.take size
    output := if setup.quiet then w.output else w.output ++ w.pipe.take size
    pipe := w.pipe.drop size }

/-- An event of the pipe. Nothing is read only at its end. -/
def readPipe (setup : WrapperSetup) (ready : List WrapperSource) (size : ℕ) (now : ℚ) (w : Wrapper) :
    Option Wrapper :=
  if size = 0 then if w.pipe = [] then some (next ready w) else none
  else if size ≤ w.pipe.length && size ≤ 65536 then
    some (next ready { w.append setup size with lastOutput := now })
  else none

/-- `main`'s own result, once the command has ended. -/
def exitCode (returncode : ℤ) : ℤ := if returncode < 0 then 128 + |returncode| else returncode

/-- `terminate` and `kill` send no signal to a command that has ended. -/
def signal (permitted : Bool) (point : WrapperPoint) (w : Wrapper) : Option Wrapper :=
  if permitted then some { w with point := point }
  else if w.returncode.isNone then some { w with point := raised .osError }
  else none

/-- A descriptor that the kernel can give to the socket. -/
def fresh (setup : WrapperSetup) : QmpProbe → Bool
  | .absent | .failed => true
  | .sendFailed fd | .connected fd => fd ≠ setup.stdout

/-- A step of the command or of `main`; what cannot happen here leads nowhere. The socket is ready
only while it is open. -/
def step (setup : WrapperSetup) (w : Wrapper) : WrapperEvent → Option Wrapper
  | .write data =>
      if w.returncode.isNone then some { w with pipe := w.pipe ++ data, written := w.written ++ data }
      else none
  | .exit code => if w.returncode.isNone then some { w with returncode := some code } else none
  | .turn now probe =>
      if w.point = head && fresh setup probe then some (w.turn setup now probe) else none
  | .selected ready =>
      if w.point = select && ready.Nodup && (.qmp ∉ ready || w.qmp.isSome) then some (w.next ready)
      else none
  | .recv received =>
      match w.point, w.qmp with
      | events (.qmp :: ready), some fd =>
          match received with
          | none => some { w with point := raised .osError }
          | some chunk => some (w.receive setup fd ready chunk)
      | _, _ => none
  | .read size now =>
      match w.point with
      | events (.stdout :: ready) => w.readPipe setup ready size now
      | _ => none
  | .sendQuit sent =>
      if w.point = quit then some { w with point := if sent then wait 0 else terminate 0 } else none
  | .signal permitted =>
      match w.point with
      | terminate code => w.signal permitted (wait code)
      | kill code => w.signal permitted (reap code)
      | _ => none
  | .waited ended =>
      if ended && w.returncode.isNone then none
      else
        match w.point with
        | wait code => some { w with point := if ended then returned code else kill code }
        | reap code => if ended then some { w with point := returned code } else none
        | _ => none
  | .drain =>
      match w.point, w.returncode with
      | leftover, some code =>
          some { w.append setup w.pipe.length with point := returned (exitCode code) }
      | _, _ => none

end Wrapper

end DistroSeed
