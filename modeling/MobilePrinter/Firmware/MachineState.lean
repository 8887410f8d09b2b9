import Mathlib.Order.Basic

-- The records that the firmware keeps about itself: `machine_state.hpp`, `execution_context.hpp`
-- and `command_outcome.hpp`.

namespace Firmware

-- The bit pattern of a C++ `double`. The lifecycle code only copies and compares these values.
structure Double where
  bits : UInt64
  deriving DecidableEq, Repr

inductive SystemState
  | boot
  | idle
  | ready
  | executingPrint
  | paused
  | resuming
  | aborting
  | fault
  | recovering
  deriving DecidableEq, Repr

inductive JobState
  | none
  | active
  | completed
  | aborted
  deriving DecidableEq, Repr

inductive SafetyState
  | ok
  | fault
  deriving DecidableEq, Repr

inductive CommandOutcome
  | none
  | accepted
  | rejected
  | faulted
  deriving DecidableEq, Repr

inductive TransitionResult
  | accepted
  | rejected
  | faulted
  deriving DecidableEq, Repr

inductive CompletionReason
  | none
  | normal
  | starvation
  | aborted
  deriving DecidableEq, Repr

-- The mode is cast from a raw byte of the command frame, so it need not be a named one.
inductive LocalizationMode
  | free
  | anchored
  | unnamed (raw : UInt8)
  deriving DecidableEq, Repr

def LocalizationMode.ofRaw (raw : UInt8) : LocalizationMode :=
  if raw = 0 then .free else if raw = 1 then .anchored else .unnamed raw

structure JobContext where
  jobId   : UInt32   := 0
  layer   : UInt32   := 0
  segment : UInt32   := 0
  state   : JobState := .none

structure SafetyContext where
  state     : SafetyState := .ok
  faultCode : UInt32      := 0

structure OperatorActions where
  canSubmitJob : Bool := false
  canStart     : Bool := false
  canResume    : Bool := false
  canClearJob  : Bool := false
  canRecover   : Bool := false

structure MachineState where
  system                    : SystemState      := .idle
  localizationMode          : LocalizationMode := .free
  anchorsValid              : Bool             := false
  bootId                    : UInt32           := 0
  job                       : JobContext       := {}
  safety                    : SafetyContext    := {}
  jobPresent                : Bool             := false
  jobId                     : UInt64           := 0
  jobSchemaVersion          : UInt32           := 0
  jobHash                   : String           := ""
  lastCommandSeq            : UInt32           := 0
  lastCommandOutcome        : CommandOutcome   := .none
  resumeAvailable           : Bool             := false
  resumeConsumed            : Bool             := false
  recoveryInProgress        : Bool             := false
  operatorRecoveryRequired  : Bool             := false
  resumePermanentlyDisabled : Bool             := false
  operatorActions           : OperatorActions  := {}
  motionIdle                : Bool             := true
  lastCompletionReason      : CompletionReason := .none

inductive ExecutionPhase
  | idle
  | running
  | paused
  | completing
  | completed
  deriving DecidableEq, Repr

structure ExecutionContext where
  ownedByExecutor   : Bool           := false
  phase             : ExecutionPhase := .idle
  cursor            : Nat            := 0
  unitProgress      : Double         := ⟨0⟩
  abortInProgress   : Bool           := false
  armed             : Bool           := false
  completionEmitted : Bool           := false
  abortSent         : Bool           := false
  blockedTicks      : UInt32         := 0

namespace ExecutionContext

def resetSoft (ctx : ExecutionContext) : ExecutionContext :=
  { ctx with
    phase             := .idle
    armed             := false
    ownedByExecutor   := false
    completionEmitted := false
    abortSent         := false }

def resetHard (ctx : ExecutionContext) : ExecutionContext :=
  { ctx with
    cursor            := 0
    unitProgress      := ⟨0⟩
    phase             := .idle
    armed             := false
    ownedByExecutor   := false
    completionEmitted := false
    abortSent         := false
    blockedTicks      := 0 }

end ExecutionContext

inductive ExecutionResult
  | progressed
  | blocked
  | completed
  | faulted
  | starved
  deriving DecidableEq, Repr

end Firmware
