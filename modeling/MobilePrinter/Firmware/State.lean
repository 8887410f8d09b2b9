import MobilePrinter.Firmware.Snapshot
import MobilePrinter.Firmware.Motion.RosSim

-- The state of the firmware process: the globals and function-local statics of `firmware/src`, the
-- objects that `main` owns, and the snapshot file that outlives the process.

namespace Firmware

inductive CommandType
  | none
  | start
  | pause
  | resume
  | abort
  | setLocalizationMode
  | clearJob
  | recover
  | unknown (raw : UInt32)
  deriving DecidableEq, Repr

def CommandType.ofRaw (raw : UInt32) : CommandType :=
  if raw = 0 then .none
  else if raw = 1 then .start
  else if raw = 2 then .pause
  else if raw = 3 then .resume
  else if raw = 4 then .abort
  else if raw = 5 then .setLocalizationMode
  else if raw = 6 then .clearJob
  else if raw = 7 then .recover
  else .unknown raw

-- What the firmware does that can be seen from outside. The source reports each of these on its
-- log, on the IPC region, on a ROS topic or in the snapshot file.
inductive Event
  | commandHandled (seq : UInt32) (command : CommandType) (outcome : CommandOutcome)
  | jobAccepted (jobId : UInt64) (segments : List Segment)
  | motionSubmitted (command : MotionCommand) (result : MotionResult)
  | snapshotPersisted (outcome : WriteOutcome) (snap : PersistentExecutionSnapshot)
  | snapshotRestored (snap : PersistentExecutionSnapshot)
  | abortStarted
  | finalized (reason : CompletionReason)
  | faulted (code : UInt32)
  deriving DecidableEq, Repr

-- The events of a session, newest first.
abbrev History := List Event

abbrev HandledCommand := UInt32 × CommandType × CommandOutcome

def Event.handled? : Event → Option HandledCommand
  | .commandHandled seq c outcome => some (seq, c, outcome)
  | _                             => none

def History.handled (h : History) : List HandledCommand :=
  h.filterMap Event.handled?

def Event.acceptsJob : Event → Bool
  | .jobAccepted _ _ => true
  | _                => false

def History.jobs (h : History) : Nat :=
  h.countP Event.acceptsJob

-- `machine_state_ipc.h`
structure MachineStateIpc where
  sequence               : UInt32         := 0
  systemState            : SystemState    := .boot
  safetyState            : SafetyState    := .ok
  paused                 : Bool           := false
  jobId                  : UInt32         := 0
  layer                  : UInt32         := 0
  segment                : UInt32         := 0
  jobLoaded              : Bool           := false
  loadedJobId            : UInt64         := 0
  loadedJobSchemaVersion : UInt32         := 0
  loadedJobHash          : String         := ""
  lastJobRejection       : String         := ""
  lastCommandSeq         : UInt32         := 0
  lastCommandOutcome     : CommandOutcome := .none

structure State where
  machine          : MachineState           := {}
  exec             : ExecutionContext       := {}
  store            : JobStore               := {}
  activeJob        : Job                    := {}
  ingress          : JobIngressState        := {}
  heap             : Heap Segment           := .empty
  nextJobId        : UInt64                 := 1
  pauseSnapshot    : Option PauseSnapshot   := none
  snapshotFile     : SnapshotFile           := none
  pausePending     : Bool                   := false
  abortStartedOnce : Bool                   := false
  lastCursor       : Nat                    := 0
  lastSeenSeq      : UInt32                 := 0
  lastJobSeq       : UInt32                 := 0
  firstRead        : Bool                   := true
  motion           : RosMotion              := {}
  extruder         : ExtruderControllerStub := {}
  published        : MachineStateIpc        := {}
  history          : History                := []

-- The runtime assertions of `main` and of what it calls.
inductive Assertion
  | armedAndOwned
  | mutatedOutsideExecutor
  | cursorBehind
  | completedNotIdle
  | completedCursor
  | completedOwned
  | runningWithoutOwnership
  | ownershipWithoutRunning
  | snapshotReload
  deriving DecidableEq, Repr

-- The ways in which the process can end other than by power loss: a failed assertion, or an access
-- to an array that does not exist.
inductive Crash
  | assertion (a : Assertion)
  | badAccess
  deriving DecidableEq, Repr

def State.record (s : State) (e : Event) : State :=
  { s with history := e :: s.history }

end Firmware
