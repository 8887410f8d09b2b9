import MobilePrinter.Supervisor.CommandPolicy
import MobilePrinter.Supervisor.CommandWriters

-- `supervisor_node.cpp`: the services that send commands to the firmware, the subscription that
-- aborts on a fault of the motion layer, and the timer that watches the state of the firmware.

namespace Supervisor

open Firmware

-- The response of a `std_srvs::srv::Trigger`.
structure TriggerResponse where
  success : Bool
  message : String
  deriving DecidableEq, Repr

structure SupervisorNode where
  commandWriter  : IpcCommandWriter
  commandPolicy  : CommandPolicy          := {}
  lastState      : Option MachineStateMsg := none
  -- The `exec_state` of the last message on /motion_runtime_state.
  lastExecState  : Option UInt8           := none
  abortSent      : Bool                   := false
  startRequested : Bool                   := false
  startSent      : Bool                   := false

inductive Attempt
  | noState
  | blocked
  | notConnected
  | writeFailed
  | sent
  deriving DecidableEq, Repr

namespace SupervisorNode

def execFault : UInt8 := 3

-- The checks that `send_command`, `send_pause_to_firmware` and the clear_job service make in the
-- same order. All three mark a command that has been written as in flight.
def attempt (cmd : CommandType) (now : UInt64) (s : SupervisorNode) :
    Attempt × Option CommandIpc × SupervisorNode :=
  match s.lastState with
  | none       => (.noState, none, s)
  | some state =>
    if !s.commandPolicy.canSend cmd state then
      (.blocked, none, s)
    else if !s.commandWriter.isConnected then
      (.notConnected, none, s)
    else
      match s.commandWriter.sendCommand cmd now with
      | (none, commandWriter)       => (.writeFailed, none, { s with commandWriter })
      | (some frame, commandWriter) =>
        (.sent, some frame,
          { s with commandWriter, commandPolicy := s.commandPolicy.markSent cmd state })

def sendCommand (cmd : CommandType) (now : UInt64) (s : SupervisorNode) :
    Option CommandIpc × SupervisorNode :=
  (s.attempt cmd now).2

def sendPauseToFirmware (now : UInt64) (s : SupervisorNode) :
    Bool × Option CommandIpc × SupervisorNode :=
  let (attempt, frame, s) := s.attempt .pause now
  (attempt == .sent, frame, s)

-- Neither the policy nor the last state is consulted, and the command is not marked.
def sendAbortToFirmware (now : UInt64) (s : SupervisorNode) :
    Bool × Option CommandIpc × SupervisorNode :=
  if !s.commandWriter.isConnected then
    (false, none, s)
  else
    let (frame, commandWriter) := s.commandWriter.sendCommand .abort now
    (frame.isSome, frame, { s with commandWriter })

def pauseSrv (now : UInt64) (s : SupervisorNode) :
    TriggerResponse × Option CommandIpc × SupervisorNode :=
  let (ok, frame, s) := s.sendPauseToFirmware now
  (⟨ok, if ok then "pause sent" else "pause failed"⟩, frame, s)

-- The answer does not depend on whether the command was sent.
def resumeSrv (now : UInt64) (s : SupervisorNode) :
    TriggerResponse × Option CommandIpc × SupervisorNode :=
  match s.lastExecState with
  | none           => (⟨false, "No motion runtime state yet"⟩, none, s)
  | some execState =>
    if execState == execFault then
      (⟨false, "Motion executor not in safe state"⟩, none, s)
    else
      (⟨true, "resume sent"⟩, s.sendCommand .resume now)

def abortSrv (now : UInt64) (s : SupervisorNode) :
    TriggerResponse × Option CommandIpc × SupervisorNode :=
  let (ok, frame, s) := s.sendAbortToFirmware now
  (⟨ok, if ok then "abort sent" else "abort failed"⟩, frame, s)

def clearJobSrv (now : UInt64) (s : SupervisorNode) :
    TriggerResponse × Option CommandIpc × SupervisorNode :=
  let (attempt, sent) := s.attempt .clearJob now
  let response :=
    match attempt with
    | .noState      => ⟨false, "No firmware state yet"⟩
    | .blocked      => ⟨false, "Blocked by policy"⟩
    | .notConnected => ⟨false, "IPC not connected"⟩
    | .writeFailed  => ⟨false, "IPC write failed"⟩
    | .sent         => ⟨true, "clear_job sent (pending)"⟩
  (response, sent)

def startJobSrv (s : SupervisorNode) : TriggerResponse × SupervisorNode :=
  (⟨true, "job start triggered"⟩, { s with startRequested := true })

def motionStateCallback (execState : UInt8) (now : UInt64) (s : SupervisorNode) :
    Option CommandIpc × SupervisorNode :=
  let s := { s with lastExecState := some execState }
  if execState == execFault then
    if !s.abortSent then
      let (_, frame, s) := s.sendAbortToFirmware now
      (frame, { s with abortSent := true })
    else
      (none, s)
  else
    (none, { s with abortSent := false })

-- What `on_timer` makes of the published state before it may send a START.
def observe (msg : MachineStateMsg) (s : SupervisorNode) : SupervisorNode :=
  let policy :=
    if s.lastState.isSome then (s.commandPolicy.evaluate msg).2 else s.commandPolicy
  let s := { s with commandPolicy := policy, lastState := some msg }
  if msg.systemState == .ready then { s with startSent := false } else s

-- `none` stands for shared memory that could not be mapped.
def onTimer (shm : Option MachineStateIpc) (now : UInt64) (s : SupervisorNode) :
    Option CommandIpc × SupervisorNode :=
  match shm with
  | none     => (none, s)
  | some shm =>
    let msg := MachineStateMsg.ofIpc shm
    let s   := s.observe msg
    if s.startRequested && msg.jobLoaded && !s.startSent then
      let (frame, s) := s.sendCommand .start now
      (frame, { s with startSent := true, startRequested := false })
    else
      (none, s)

end SupervisorNode
end Supervisor
