import Mathlib.Data.List.TakeDrop
import MobilePrinter.Executor.Axes

-- `motion_executor.cpp`: the node that queues the motion segments and steps the axes through them.

namespace Executor

structure MotionSegment (R : Type*) where
  segmentId       : UInt32
  jointNames      : List String := []
  targetPositions : List R      := []
  vMax            : R

structure JointState (R : Type*) where
  name     : List String := []
  position : List R      := []

-- The place is the number of segments that have been accepted before.
structure QueuedSegment (R : Type*) where
  segmentId  : UInt32
  jointNames : List String
  qTarget    : List R
  vMax       : R
  place      : Nat

def MotionSegment.queued (place : Nat) (msg : MotionSegment R) : QueuedSegment R where
  segmentId  := msg.segmentId
  jointNames := msg.jointNames
  qTarget    := msg.targetPositions
  vMax       := msg.vMax
  place      := place

inductive ExecutionState
  | idle
  | running
  | paused
  | aborting
  | fault
  | starvationStop
  deriving DecidableEq, Repr

inductive MachineState
  | normal
  | estop
  | faultLatched
  deriving DecidableEq, Repr

-- Why a segment is rejected, in the words that are logged.
inductive Reason
  | notNormal
  | jointStateNotReady
  | queueFull
  | notAuthorized
  | softLimit
  | emergencyStop
  deriving DecidableEq, Repr

def Reason.text : Reason → String
  | notNormal          => "Rejected — machine not in NORMAL state"
  | jointStateNotReady => "Joint state not ready"
  | queueFull          => "Queue full"
  | notAuthorized      => "Axis not authorized"
  | softLimit          => "Soft limit violation (latched)"
  | emergencyStop      => "Emergency stop"

structure SegmentStatus where
  segmentId : UInt32
  status    : UInt8
  deriving DecidableEq, Repr

-- What the node publishes. A status carries the segment that it is about, where there is one.
inductive Event (R : Type*)
  | accepted (seg : QueuedSegment R)
  | executing (seg : QueuedSegment R)
  | completed (segmentId : UInt32)
  | reset
  | rejected (segmentId : UInt32) (reason : Reason)
  | actuatorCommand (jointNames : List String) (commandedPositions : List R)

def Event.status? : Event R → Option SegmentStatus
  | .accepted seg            => some { segmentId := seg.segmentId, status := 0 }
  | .executing seg           => some { segmentId := seg.segmentId, status := 1 }
  | .completed segmentId     => some { segmentId, status := 2 }
  | .reset                   => some { segmentId := 0, status := 3 }
  | .rejected segmentId _    => some { segmentId, status := 4 }
  | .actuatorCommand _ _     => none

def Event.accepted? : Event R → Option (QueuedSegment R)
  | .accepted seg => some seg
  | _             => none

def Event.executing? : Event R → Option (QueuedSegment R)
  | .executing seg => some seg
  | _              => none

-- The reads past the end of a vector, which may yield any value.
structure Stray (R : Type*) where
  measured : Nat → R
  target   : Nat → R
  checked  : Nat → R
  previous : Nat → R

structure MotionExecutor (R : Type*) where
  machineState        : MachineState           := .normal
  execState           : ExecutionState         := .idle
  axisRuntime         : AxisRuntimes           := .initial
  segmentQueue        : List (QueuedSegment R) := []
  -- The constructor leaves this field and the maximal velocity as they are.
  activeSegmentId     : UInt32
  jointNames          : List String            := []
  qTarget             : List R                 := []
  qCurrent            : List R                 := []
  qTargetPrevious     : List R                 := []
  maxVelocity         : R
  feedrateOverrideCmd : R
  jointStateReady     : Bool                   := false
  lastJointState      : String → Option R      := fun _ => none
  firstSegment        : Bool                   := true
  -- What has been published, newest first, and the number of segments that have been accepted.
  published           : List (Event R)         := []
  acceptedCount       : Nat                    := 0

def maxQueueSize : Nat := 10

variable {R : Type*} [Arithmetic R]

def controlPeriod : R := 0.002

def read (xs : List R) (stray : Nat → R) (i : Nat) : R :=
  xs.getD i (stray i)

def lesser (x y : R) : R :=
  if y < x then y else x

def magnitude (x : R) : R :=
  if x < 0.0 then -x else x

-- The velocity that the segment asks for, within the authority of its axes.
def QueuedSegment.clampVelocity (seg : QueuedSegment R) : R :=
  let velocity := seg.jointNames.foldl (fun velocity name =>
    match axisConfig name with
    | none     => velocity
    | some cfg => lesser velocity cfg.maxVelocity) seg.vMax
  if velocity ≤ 1e-6 then 0.1 else velocity

def QueuedSegment.softLimitViolation? (stray : Stray R) (seg : QueuedSegment R) : Option String :=
  (seg.jointNames.zipIdx.find? fun (name, i) =>
    match axisConfig name with
    | none     => false
    | some cfg =>
      let target := read seg.qTarget stray.checked i
      target < cfg.minPosition ∨ cfg.maxPosition < target).map (·.1)

def JointState.record (stray : Stray R) (msg : JointState R) (measured : String → Option R)
    (entry : String × Nat) : String → Option R :=
  Function.update measured entry.1 (some (read msg.position stray.measured entry.2))

-- `last_joint_state_map_` for a message.
def JointState.measured (stray : Stray R) (msg : JointState R) : String → Option R :=
  msg.name.zipIdx.foldl (msg.record stray) fun _ => none

namespace MotionExecutor

def boot (activeSegmentId : UInt32) (maxVelocity : R) : MotionExecutor R :=
  { activeSegmentId, maxVelocity, feedrateOverrideCmd := 1.0 }

def publish (e : Event R) (s : MotionExecutor R) : MotionExecutor R :=
  { s with published := e :: s.published }

def load (seg : QueuedSegment R) (s : MotionExecutor R) : MotionExecutor R :=
  { s with
    activeSegmentId := seg.segmentId
    jointNames      := seg.jointNames
    qTarget         := seg.qTarget
    maxVelocity     := seg.clampVelocity
    qCurrent        := s.qCurrent.takeD seg.jointNames.length 0.0 }

-- The first segment starts from the measured positions and every other one from the targets of the
-- segment before it, at the same indices.
def startPositions (stray : Stray R) (s : MotionExecutor R) : List R :=
  if s.firstSegment
  then s.jointNames.map fun name => (s.lastJointState name).getD 0.0
  else s.jointNames.mapIdx fun i _ => read s.qTargetPrevious stray.previous i

-- The velocity of the segment replaces the one that has been clamped.
def position (seg : QueuedSegment R) (stray : Stray R) (s : MotionExecutor R) : MotionExecutor R :=
  { s with qCurrent := s.startPositions stray, firstSegment := false, maxVelocity := seg.vMax }

def refuseAxis (s : MotionExecutor R) : MotionExecutor R :=
  { s with execState := .fault }.publish (.rejected s.activeSegmentId .notAuthorized)

def latchFault (name : String) (s : MotionExecutor R) : MotionExecutor R :=
  { s with
    axisRuntime  := s.axisRuntime.latch name
    machineState := .faultLatched
    execState    := .fault }.publish (.rejected s.activeSegmentId .softLimit)

def execute (seg : QueuedSegment R) (s : MotionExecutor R) : MotionExecutor R :=
  { s with
    qTargetPrevious := s.qTarget
    axisRuntime     := s.axisRuntime.arm s.jointNames
    execState       := .running }.publish (.executing seg)

def startNextSegment (stray : Stray R) (s : MotionExecutor R) : MotionExecutor R :=
  match s.segmentQueue with
  | []           => { s with execState := .idle }
  | seg :: queue =>
    let s := { s with segmentQueue := queue }.load seg
    let (authorized, axisRuntime) := s.axisRuntime.authorize s.jointNames
    let s := { s with axisRuntime }
    if authorized then
      let s := s.position seg stray
      match seg.softLimitViolation? stray with
      | some name => s.latchFault name
      | none      => s.execute seg
    else
      s.refuseAxis

def enqueue (msg : MotionSegment R) (s : MotionExecutor R) : MotionExecutor R :=
  let seg := msg.queued s.acceptedCount
  { s with
    segmentQueue  := s.segmentQueue ++ [seg]
    acceptedCount := s.acceptedCount + 1 }.publish (.accepted seg)

def segmentCallback (msg : MotionSegment R) (stray : Stray R) (s : MotionExecutor R) :
    MotionExecutor R :=
  if s.machineState ≠ .normal ∨ s.execState = .aborting then
    s.publish (.rejected msg.segmentId .notNormal)
  else if !s.jointStateReady then
    s.publish (.rejected msg.segmentId .jointStateNotReady)
  else if s.segmentQueue.length ≥ maxQueueSize then
    s.publish (.rejected msg.segmentId .queueFull)
  else
    let s := s.enqueue msg
    if s.execState = .idle ∧ !s.segmentQueue.isEmpty ∧ s.machineState = .normal
    then s.startNextSegment stray else s

def jointStateCallback (msg : JointState R) (stray : Stray R) (s : MotionExecutor R) :
    MotionExecutor R :=
  let measured := msg.measured stray
  let resized  := s.qCurrent.takeD s.jointNames.length 0.0
  { s with
    jointStateReady := true
    lastJointState  := measured
    qCurrent        :=
      if s.jointNames ≠ []
      then s.jointNames.zipWith (fun name q => (measured name).getD q) resized else s.qCurrent }

-- The position that a joint is commanded to, and whether its target is reached with it. While a
-- segment is running there is a current position for each of the joints.
def command (stray : Stray R) (s : MotionExecutor R) (i : Nat) (name : String) : R × Bool :=
  let current := s.qCurrent.getD i 0.0
  if isStructuralAxis R name then
    let target := read s.qTarget stray.target i
    let error  := target - current
    let step   := s.maxVelocity * controlPeriod
    if step < magnitude error
    then (current + if 0.0 < error then step else -step, false)
    else (target, true)
  else
    (current, true)

def commands (stray : Stray R) (s : MotionExecutor R) : List (R × Bool) :=
  s.jointNames.mapIdx (s.command stray)

def move (commanded : List R) (s : MotionExecutor R) : MotionExecutor R :=
  { s with qCurrent := commanded }.publish (.actuatorCommand s.jointNames commanded)

def controlLoop (stray : Stray R) (s : MotionExecutor R) : MotionExecutor R :=
  if s.execState ≠ .running then
    s
  else if s.jointNames = [] then
    s
  else
    let commands := s.commands stray
    let s        := s.move (commands.map (·.1))
    if commands.all (·.2) then
      let s := s.publish (.completed s.activeSegmentId)
      if !s.segmentQueue.isEmpty then s.startNextSegment stray else { s with execState := .idle }
    else
      s

def clearFaults (s : MotionExecutor R) : MotionExecutor R :=
  { s with
    axisRuntime     := s.axisRuntime.reset
    machineState    := .normal
    segmentQueue    := []
    firstSegment    := true
    activeSegmentId := 0
    execState       := .idle }.publish .reset

def resetCallback (s : MotionExecutor R) : MotionExecutor R :=
  if s.machineState = .estop then s else s.clearFaults

def overrideCallback (value : R) (s : MotionExecutor R) : MotionExecutor R :=
  let value := if value < 0.0 then 0.0 else value
  let value := if 2.0 < value then 2.0 else value
  { s with feedrateOverrideCmd := value }

def stop (s : MotionExecutor R) : MotionExecutor R :=
  { s with machineState := .estop, execState := .fault, segmentQueue := [] }.publish
    (.rejected s.activeSegmentId .emergencyStop)

-- The execution stays in its fault when the emergency stop is released.
def estopCallback (data : Bool) (s : MotionExecutor R) : MotionExecutor R :=
  if data
  then if s.machineState ≠ .estop then s.stop else s
  else if s.machineState = .estop then { s with machineState := .normal } else s

def abortCallback (s : MotionExecutor R) : MotionExecutor R :=
  { s with execState := .aborting, segmentQueue := [] }

def accepted (s : MotionExecutor R) : List (QueuedSegment R) :=
  s.published.reverse.filterMap Event.accepted?

def executed (s : MotionExecutor R) : List (QueuedSegment R) :=
  s.published.reverse.filterMap Event.executing?

-- A message that the node receives, or a tick of its control timer.
inductive Input (R : Type*)
  | segment (msg : MotionSegment R) (stray : Stray R)
  | jointState (msg : JointState R) (stray : Stray R)
  | control (stray : Stray R)
  | reset
  | override (value : R)
  | estop (data : Bool)
  | abort

def next (s : MotionExecutor R) : Input R → MotionExecutor R
  | .segment msg stray    => s.segmentCallback msg stray
  | .jointState msg stray => s.jointStateCallback msg stray
  | .control stray        => s.controlLoop stray
  | .reset                => s.resetCallback
  | .override value       => s.overrideCallback value
  | .estop data           => s.estopCallback data
  | .abort                => s.abortCallback

def step (i : Input R) (s : MotionExecutor R) : Except Empty (MotionExecutor R) :=
  .ok (s.next i)

end MotionExecutor
end Executor
