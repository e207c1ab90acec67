import Mathlib.Data.Finset.Basic
import Mathlib.Data.Nat.Notation
import Mathlib.Logic.Function.Basic
import Mathlib.Logic.Relation

/-! The sessions on one checkout that start and stop the VM: `cleanup_abandoned_vm`, `start_vm` and
`stop_vm` of `vm.py`, one access to the shared files at a time. -/

namespace DistroSeed

/-- The files of `work/qemu-host` that the sessions share. -/
inductive VmFile where
  | qemuPid
  | dsPid
  | controlSock
deriving DecidableEq, Repr

/-- Where a session is in `start_vm` or `stop_vm`, with what it has read so far. -/
inductive VmPoint where
  | cleanupDsPid
  | cleanupQemuPid (dsPid : Option ℕ)
  | cleanupCheck (dsPid : Option ℕ) (qemuPid : ℕ)
  | cleanupKill (qemuPid : ℕ)
  | cleanupUnlink (qemuPid : ℕ) (file : VmFile)
  | startQemuPid
  | startCheck (qemuPid : Option ℕ)
  | startUnlink (qemuPid : Option ℕ)
  | startDsPid (qemuPid : Option ℕ)
  | launch (qemuPid : Option ℕ)
  | stopCheck (qemuPid : Option ℕ)
  | stopPowerOff
  | stopQemuPid
  | stopWait (qemuPid : Option ℕ)
  | stopUnlink (qemuPid : Option ℕ) (file : VmFile)
deriving DecidableEq, Repr

/-- What a session has still to do. `remove` is one of the files that `rm -rf "$DS_WORK"` deletes. -/
inductive VmTask where
  | remove (file : VmFile)
  | startVm
  | stopVm
deriving DecidableEq, Repr

/-- A process that uses `vm.py`. `sessionPid` is what it writes to `distro-seed.pid`, and `stopsVm`
whether `stop_vm` is still registered to run when it exits. -/
structure Session where
  sessionPid : ℕ
  script : List VmTask
  point : Option VmPoint
  stopsVm : Bool
deriving DecidableEq, Repr

/-- The files, of which `control.sock` is known by the VM that listens there, and the processes.
No pid is used twice. -/
structure VmHost where
  qemuPid : Option ℕ
  dsPid : Option ℕ
  controlSock : Option ℕ
  vms : Finset ℕ
  sessions : ℕ → Option Session
  nextPid : ℕ

/-- How sessions are started: `order` is the order in which `rm -rf` comes upon the files, and
`readyTask` is `start_vm.py`, which runs in a process of its own for the build `session`. A dry run
and a run with `--plot-deps` do nothing with the VM until they exit. -/
inductive SessionKind where
  | build (order : List VmFile) (tasks : ℕ)
  | dryRun
  | readyTask (session : ℕ)
  | shell
  | clean (order : List VmFile)
deriving DecidableEq, Repr

/-- One step of the checkout. A session exits at the end of its script, or before with an exception;
`answered` is whether the VM powers off in time, and `removesFile` whether qemu deletes its pid
file when it ends. -/
inductive VmEvent where
  | start (kind : SessionKind)
  | run (pid : ℕ) (answered : Bool)
  | exit (pid : ℕ)
  | kill (pid : ℕ)
  | vmExits (vm : ℕ) (removesFile : Bool)
deriving DecidableEq, Repr

namespace VmHost

open VmPoint

/-- `_pid_alive`. -/
def pidAlive (s : VmHost) (pid : ℕ) : Bool := pid ∈ s.vms || (s.sessions pid).isSome

/-- `is_running`. -/
def isRunning (s : VmHost) : Bool := s.qemuPid.any s.pidAlive

def unlink (s : VmHost) : VmFile → VmHost
  | .qemuPid => { s with qemuPid := none }
  | .dsPid => { s with dsPid := none }
  | .controlSock => { s with controlSock := none }

/-- `_kill_qemu`. -/
def killQemu (s : VmHost) (qemuPid : Option ℕ) : VmHost :=
  { s with vms := s.vms.filter (qemuPid ≠ some ·) }

/-- The files in the order in which they are deleted. -/
def nextFile : VmFile → Option VmFile
  | .qemuPid => some .dsPid
  | .dsPid => some .controlSock
  | .controlSock => none

/-- The next step in `start_vm` or `stop_vm`, and where the session is behind it, if it has not
returned. -/
def advance (self sessionPid : ℕ) (answered : Bool) (s : VmHost) : VmPoint → VmHost × Option VmPoint
  | cleanupDsPid => (s, some (cleanupQemuPid s.dsPid))
  | cleanupQemuPid dsPid =>
      match s.qemuPid with
      | none => (s, some startQemuPid)
      | some qemuPid => (s, some (cleanupCheck dsPid qemuPid))
  | cleanupCheck dsPid qemuPid =>
      if dsPid = some self && s.pidAlive qemuPid then (s, some startQemuPid)
      else if dsPid.any s.pidAlive && s.pidAlive qemuPid then (s, some startQemuPid)
      else (s, some (cleanupKill qemuPid))
  | cleanupKill qemuPid => (s.killQemu (some qemuPid), some (cleanupUnlink qemuPid .qemuPid))
  | cleanupUnlink qemuPid file =>
      (s.unlink file, some ((nextFile file).elim startQemuPid (cleanupUnlink qemuPid)))
  | startQemuPid => (s, some (startCheck s.qemuPid))
  | startCheck qemuPid =>
      if qemuPid.any s.pidAlive then (s, none) else (s, some (startUnlink qemuPid))
  | startUnlink qemuPid => (s.unlink .controlSock, some (startDsPid qemuPid))
  | startDsPid qemuPid => ({ s with dsPid := some sessionPid }, some (launch qemuPid))
  | launch _ => ({ s with
      qemuPid := some s.nextPid
      controlSock := some s.nextPid
      vms := insert s.nextPid s.vms
      nextPid := s.nextPid + 1 }, none)
  | stopCheck qemuPid => (s, some (if qemuPid.any s.pidAlive then stopPowerOff else stopQemuPid))
  | stopPowerOff => (if answered then s.killQemu s.controlSock else s, some stopQemuPid)
  | stopQemuPid => (s, some (stopWait s.qemuPid))
  | stopWait qemuPid => (s.killQemu qemuPid, some (stopUnlink qemuPid .qemuPid))
  | stopUnlink qemuPid file => (s.unlink file, (nextFile file).map (stopUnlink qemuPid))

/-- The next step of a session. -/
def runSession (s : VmHost) (self : ℕ) (answered : Bool) (session : Session) :
    Option (VmHost × Session) :=
  match session.point, session.script with
  | some point, _ =>
      let next := s.advance self session.sessionPid answered point
      some (next.1, { session with point := next.2 })
  | none, [] => none
  | none, .remove file :: rest => some (s.unlink file, { session with script := rest })
  | none, .startVm :: rest => some (s, { session with point := some cleanupDsPid, script := rest })
  | none, .stopVm :: rest =>
      some (s, { session with point := some (stopCheck s.qemuPid), script := rest })

def setSession (s : VmHost) (pid : ℕ) (session : Option Session) : VmHost :=
  { s with sessions := Function.update s.sessions pid session }

/-- What is left of a session that exits: `atexit` runs `stop_vm` if it is registered. -/
def atExit (session : Session) : Option Session :=
  if session.stopsVm then some { session with script := [.stopVm], point := none, stopsVm := false }
  else none

/-- The process `self` of a new session. -/
def newSession (self : ℕ) : SessionKind → Session
  | .build order tasks =>
      ⟨self, order.map .remove ++ List.replicate tasks .startVm, none, true⟩
  | .dryRun => ⟨self, [], none, true⟩
  | .readyTask session => ⟨session, [.startVm], none, false⟩
  | .shell => ⟨self, [.startVm], none, false⟩
  | .clean order => ⟨self, order.map .remove, none, false⟩

/-- A build is there while it starts a process of its own. -/
def canStart (s : VmHost) : SessionKind → Bool
  | .readyTask session => (s.sessions session).isSome
  | _ => true

/-- One step, or nothing if it is not possible. -/
def step (s : VmHost) : VmEvent → Option VmHost
  | .start kind =>
      if s.canStart kind then
        some ({ s with nextPid := s.nextPid + 1 }.setSession s.nextPid (newSession s.nextPid kind))
      else none
  | .run pid answered => do
      let session ← s.sessions pid
      let next ← s.runSession pid answered session
      some (next.1.setSession pid next.2)
  | .exit pid => do
      let session ← s.sessions pid
      some (s.setSession pid (atExit session))
  | .kill pid => some (s.setSession pid none)
  | .vmExits vm removesFile => some { s with
      vms := s.vms.erase vm
      qemuPid := if removesFile && s.qemuPid = some vm then none else s.qemuPid }

/-- The states that steps lead to, each of them allowed where it is made. -/
def Reaches (may : VmEvent → VmHost → Prop) : VmHost → VmHost → Prop :=
  Relation.ReflTransGen fun s s' => ∃ event, may event s ∧ s.step event = some s'

/-- A checkout without sessions. -/
def checkout : VmHost := ⟨none, none, none, ∅, fun _ => none, 0⟩

end VmHost

end DistroSeed
