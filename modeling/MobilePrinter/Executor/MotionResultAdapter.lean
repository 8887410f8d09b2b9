import MobilePrinter.Executor.MotionExecutor

-- `motion_result_adapter.cpp`: the node that turns the statuses of the segments into the results of
-- their motions, together with the executor.

namespace Executor

structure MotionStatus where
  executingSegment : UInt32
  queueDepth       : UInt32
  queueCapacity    : UInt32
  ready            : Bool
  deriving DecidableEq, Repr

structure MotionResult where
  sequenceId : UInt32
  status     : UInt8
  deriving DecidableEq, Repr

structure MotionRuntimeState where
  queueDepth : UInt32
  execState  : UInt8
  deriving DecidableEq, Repr

structure MotionResultAdapter where
  abortActive              : Bool := false
  programCompletePublished : Bool := false
  deriving DecidableEq, Repr

namespace MotionResultAdapter

def completed (sequenceId : UInt32) : MotionResult where
  sequenceId := sequenceId
  status     := 2

-- The result for the whole program, if it is published.
def runtimeCallback (msg : MotionRuntimeState) (a : MotionResultAdapter) :
    Option MotionResult × MotionResultAdapter :=
  if msg.execState = 0 ∧ msg.queueDepth = 0 ∧ !a.programCompletePublished then
    if a.abortActive
    then (none, a)
    else (some (completed 0), { a with programCompletePublished := true })
  else
    (none, a)

-- The status that is passed on, and the result of a segment that is complete.
def onSegmentStatus (msg : SegmentStatus) (a : MotionResultAdapter) :
    MotionStatus × Option MotionResult :=
  let status : MotionStatus := {
    executingSegment := msg.segmentId
    queueDepth       := 0
    queueCapacity    := 0
    ready            := true }
  if msg.status = 2 then
    if a.abortActive then (status, none) else (status, some (completed msg.segmentId))
  else
    (status, none)

def abortCallback (a : MotionResultAdapter) : MotionResultAdapter :=
  { a with abortActive := true }

end MotionResultAdapter

def MotionExecutor.statuses (s : MotionExecutor R) : List SegmentStatus :=
  s.published.reverse.filterMap Event.status?

-- A status that the adapter has received, and whether that was between an abort and the reset that
-- ends it.
structure Receipt where
  status    : SegmentStatus
  suspended : Bool
  deriving DecidableEq, Repr

-- The topics keep the order of their messages and lose none. An abort reaches the two nodes at
-- different times.
structure Forwarding (R : Type*) where
  executor       : MotionExecutor R
  adapter        : MotionResultAdapter := {}
  -- The aborts that have been published, and those that each of the nodes has received.
  aborts         : Nat                 := 0
  executorAborts : Nat                 := 0
  adapterAborts  : Nat                 := 0
  -- The aborts that a reset of the executor has ended.
  endedAborts    : Nat                 := 0
  -- What the adapter has received and the results that it has published for that, oldest first.
  received       : List Receipt        := []
  forwarded      : List MotionResult   := []
  programResults : List MotionResult   := []

namespace Forwarding

variable {R : Type*} [Arithmetic R]

def boot (activeSegmentId : UInt32) (maxVelocity : R) : Forwarding R :=
  { executor := .boot activeSegmentId maxVelocity }

-- The adapter has received an abort that no reset of the executor has ended.
def Suspended (s : Forwarding R) : Prop :=
  s.endedAborts < s.adapterAborts

instance : DecidablePred (Suspended (R := R)) :=
  fun _ => inferInstanceAs (Decidable (_ < _))

-- A step of the executor other than the receipt of an abort. A reset that is not refused ends the
-- aborts that the executor has received.
def execute (i : MotionExecutor.Input R) (s : Forwarding R) : Forwarding R :=
  match i with
  | .abort => s
  | .reset =>
    let endedAborts :=
      if s.executor.machineState = .estop then s.endedAborts else s.executorAborts
    { s with executor := s.executor.resetCallback, endedAborts }
  | i      => { s with executor := s.executor.next i }

def abortExecutor (s : Forwarding R) : Forwarding R :=
  if s.executorAborts < s.aborts then
    { s with executor := s.executor.abortCallback, executorAborts := s.executorAborts + 1 }
  else
    s

def abortAdapter (s : Forwarding R) : Forwarding R :=
  if s.adapterAborts < s.aborts then
    { s with adapter := s.adapter.abortCallback, adapterAborts := s.adapterAborts + 1 }
  else
    s

def pending? (s : Forwarding R) : Option SegmentStatus :=
  s.executor.statuses[s.received.length]?

def deliver (s : Forwarding R) : Forwarding R :=
  match s.pending? with
  | none     => s
  | some msg =>
    { s with
      received  := s.received ++ [{ status := msg, suspended := s.Suspended }]
      forwarded := s.forwarded ++ (s.adapter.onSegmentStatus msg).2.toList }

def runtime (msg : MotionRuntimeState) (s : Forwarding R) : Forwarding R :=
  let (result, adapter) := s.adapter.runtimeCallback msg
  { s with adapter, programResults := s.programResults ++ result.toList }

inductive Input (R : Type*)
  | execute (i : MotionExecutor.Input R)
  | abort
  | abortExecutor
  | abortAdapter
  | deliver
  | runtime (msg : MotionRuntimeState)

def next (s : Forwarding R) : Input R → Forwarding R
  | .execute i     => s.execute i
  | .abort         => { s with aborts := s.aborts + 1 }
  | .abortExecutor => s.abortExecutor
  | .abortAdapter  => s.abortAdapter
  | .deliver       => s.deliver
  | .runtime msg   => s.runtime msg

def step (i : Input R) (s : Forwarding R) : Except Empty (Forwarding R) :=
  .ok (s.next i)

end Forwarding
end Executor
