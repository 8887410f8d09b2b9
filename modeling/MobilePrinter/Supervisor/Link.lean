import MobilePrinter.Firmware.Main
import MobilePrinter.Supervisor.SupervisorNode

-- The supervisor, the firmware and the shared memory between them. Writing a frame, polling the
-- channel and reading the published state are atomic.

namespace Supervisor

open Firmware

inductive Action
  | pause (now : UInt64)
  | resume (now : UInt64)
  | abort (now : UInt64)
  | clearJob (now : UInt64)
  | startJob
  | motionState (execState : UInt8) (now : UInt64)
  | timer (now : UInt64)

-- An abort is not marked as in flight.
def Action.marks : Action → Bool
  | .abort _         => false
  | .motionState _ _ => false
  | _                => true

def SupervisorNode.perform (a : Action) (shm : MachineStateIpc) (s : SupervisorNode) :
    Option CommandIpc × SupervisorNode :=
  match a with
  | .pause now                 => (s.pauseSrv now).2
  | .resume now                => (s.resumeSrv now).2
  | .abort now                 => (s.abortSrv now).2
  | .clearJob now              => (s.clearJobSrv now).2
  | .startJob                  => (none, s.startJobSrv.2)
  | .motionState execState now => s.motionStateCallback execState now
  | .timer now                 => s.onTimer (some shm) now

-- The command that the policy has in flight, and what the firmware has recorded for it since it was
-- sent.
structure Flight where
  seq     : UInt32
  outcome : Option CommandOutcome := none
  deriving DecidableEq

def Flight.land (handled : Option HandledCommand) (f : Flight) : Flight :=
  match f.outcome, handled with
  | none, some (seq, _, outcome) => if seq = f.seq then { f with outcome := some outcome } else f
  | _, _                         => f

structure Link where
  node     : SupervisorNode
  slot     : CommandIpc                   := { abiVersion := 0, seq := 0, command := 0 }
  firmware : State
  -- The frame in the slot has not been polled.
  unread   : Bool                         := false
  -- The commands that were written and reported as sent, newest first.
  sent     : List (UInt32 × CommandType)  := []
  -- Which of them have been handled by the firmware, counted from one on, newest first.
  heard    : List Nat                     := []
  flight   : Option Flight                := none

inductive Input
  | act (a : Action)
  | tick (i : TickInput)
  | bridge (connected : Bool) (command : UInt8)
  | restartSupervisor (connected : Bool)
  | restartFirmware (io : BootOutcomes)

namespace Link

def write (frame : CommandIpc) (s : Link) : Link :=
  { s with
    slot   := frame
    unread := true
    sent   := (frame.seq, .ofRaw frame.command) :: s.sent }

-- What the policy has in flight behind an action that has written `frame`.
def takeOff (a : Action) (frame : Option CommandIpc) (s : Link) : Option Flight :=
  if !s.node.commandPolicy.commandInFlight then
    none
  else if a.marks then
    match frame with
    | none       => s.flight
    | some frame => some { seq := frame.seq }
  else
    s.flight

def act (a : Action) (s : Link) : Link :=
  let (frame, node) := s.node.perform a s.firmware.published
  let s := { s with node }
  let s := { s with flight := s.takeOff a frame }
  match frame with
  | none       => s
  | some frame => s.write frame

-- The command that the firmware has handled between two states, if there is one.
def handledBetween (s s' : State) : Option HandledCommand :=
  if s.history.handled.length < s'.history.handled.length
  then s'.history.handled.head? else none

def land (firmware : State) (s : Link) : Link :=
  let handled := handledBetween s.firmware firmware
  { s with
    firmware
    unread := false
    heard  := if handled.isSome then s.sent.length :: s.heard else s.heard
    flight := s.flight.map (Flight.land handled) }

def reading (i : TickInput) (s : Link) : TickInput :=
  { i with command := some { seq := s.slot.seq, frame := s.slot } }

def tick (i : TickInput) (s : Link) : Except Crash Link :=
  (Firmware.tick (s.reading i) s.firmware).map s.land

-- The firmware clears the channel when it boots.
def restartFirmware (io : BootOutcomes) (s : Link) : Except Crash Link :=
  (boot io s.firmware.snapshotFile).map fun firmware =>
    { s with firmware, slot := { abiVersion := 0, seq := 0, command := 0 } }

def restartSupervisor (connected : Bool) (s : Link) : Link :=
  { s with
    node   := { commandWriter := { isConnected := connected } }
    slot   := if connected then IpcCommandWriter.connect s.slot else s.slot
    flight := none }

-- The firmware has booted, and then the supervisor has started.
def fresh (connected : Bool) (firmware : State) : Link :=
  restartSupervisor connected
    { node := { commandWriter := { isConnected := connected } }, firmware }

def bridge (connected : Bool) (command : UInt8) (s : Link) : Link :=
  match FirmwareBridge.handleCommand connected command with
  | none       => s
  | some frame => s.write frame

def step (i : Input) (s : Link) : Except Crash Link :=
  match i with
  | .act a                       => .ok (s.act a)
  | .tick i                      => s.tick i
  | .bridge connected command    => .ok (s.bridge connected command)
  | .restartSupervisor connected => .ok (s.restartSupervisor connected)
  | .restartFirmware io          => s.restartFirmware io

end Link
end Supervisor
