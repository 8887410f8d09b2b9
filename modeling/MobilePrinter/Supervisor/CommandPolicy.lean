import MobilePrinter.Firmware.State

-- `command_policy.cpp` of the supervisor: at most one command is in flight, and its outcome is read
-- off the state that the firmware publishes.

namespace Supervisor

open Firmware

-- `MachineState.msg`, as `on_timer` fills it from the shared memory. The sequence number of the
-- shared memory has no field in the message.
structure MachineStateMsg where
  systemState            : SystemState
  safetyState            : SafetyState
  paused                 : Bool
  jobId                  : UInt32
  layer                  : UInt32
  segment                : UInt32
  jobLoaded              : Bool
  loadedJobId            : UInt64
  loadedJobSchemaVersion : UInt32
  loadedJobHash          : String
  lastJobRejection       : String
  lastCommandSeq         : UInt32
  lastCommandOutcome     : CommandOutcome
  deriving DecidableEq, Repr

def MachineStateMsg.ofIpc (shm : MachineStateIpc) : MachineStateMsg where
  systemState            := shm.systemState
  safetyState            := shm.safetyState
  paused                 := shm.paused
  jobId                  := shm.jobId
  layer                  := shm.layer
  segment                := shm.segment
  jobLoaded              := shm.jobLoaded
  loadedJobId            := shm.loadedJobId
  loadedJobSchemaVersion := shm.loadedJobSchemaVersion
  loadedJobHash          := shm.loadedJobHash
  lastJobRejection       := shm.lastJobRejection
  lastCommandSeq         := shm.lastCommandSeq
  lastCommandOutcome     := shm.lastCommandOutcome

-- The outcomes that the policy tells apart.
inductive Verdict
  | accepted
  | rejected
  | faulted
  | unresolved
  deriving DecidableEq, Repr

structure CommandPolicy where
  activeCommand : Option CommandType     := none
  preState      : Option MachineStateMsg := none

namespace CommandPolicy

def canSend (_ : CommandType) (_ : MachineStateMsg) (p : CommandPolicy) : Bool :=
  !p.activeCommand.isSome

def markSent (cmd : CommandType) (preState : MachineStateMsg) (_ : CommandPolicy) :
    CommandPolicy where
  activeCommand := some cmd
  preState      := some preState

def evaluate (current : MachineStateMsg) (p : CommandPolicy) : Verdict × CommandPolicy :=
  match p.activeCommand, p.preState with
  | some _, some preState =>
    if current ≠ preState then (.accepted, {}) else (.unresolved, p)
  | _, _ => (.unresolved, p)

def commandInFlight (p : CommandPolicy) : Bool :=
  p.activeCommand.isSome

end CommandPolicy
end Supervisor
