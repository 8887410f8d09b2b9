import MobilePrinter.Firmware.State

-- What the firmware is for: the life of a job, as an operator who reads the log sees it. This is
-- not translated from the source, but says what the source is to be compared with.

namespace Firmware

structure Lifecycle where
  system   : SystemState
  -- The job that can be printed, with its number.
  job      : Option (UInt64 × List Segment)
  -- The segments of the job that have been passed on.
  position : Nat
  deriving DecidableEq, Repr

namespace Lifecycle

def segment? (l : Lifecycle) : Option Segment :=
  l.job.bind (·.2[l.position]?)

def enter (l : Lifecycle) (system : SystemState) : Lifecycle :=
  { l with system := system }

-- The commands that the machine obeys. A START needs a segment that has not been passed on, which
-- is not always the first one.
def command (l : Lifecycle) : CommandType → Option Lifecycle
  | .start               =>
    if l.system = .ready ∧ l.segment?.isSome then some (l.enter .executingPrint) else none
  | .pause               => if l.system = .executingPrint then some (l.enter .paused) else none
  | .resume              => if l.system = .paused then some (l.enter .resuming) else none
  | .abort               =>
    if l.system = .executingPrint ∨ l.system = .paused then some (l.enter .aborting) else none
  | .clearJob            =>
    if l.system = .ready ∨ l.system = .recovering ∨ l.system = .fault
    then some { l with system := .ready, job := none } else none
  | .recover             => if l.system = .fault then some (l.enter .recovering) else none
  | .setLocalizationMode => if l.system = .ready then some l else none
  | .none | .unknown _   => none

-- All segments of the job have been passed on.
def Spent (l : Lifecycle) : Prop :=
  ∃ job ∈ l.job, job.2.length ≤ l.position

instance {l : Lifecycle} : Decidable l.Spent :=
  inferInstanceAs (Decidable (∃ _ ∈ _, _))

-- What the machine makes of an entry of the log. It may complete a job behind its ABORT, because
-- the orchestrator does not always stop an execution that is aborted.
def next : Event → Lifecycle → Option Lifecycle
  | .commandHandled _ _ .rejected, l => some l
  | .commandHandled _ c .accepted, l => l.command c
  | .commandHandled _ _ _, _         => none
  | .jobAccepted id segs, l          =>
    if l.system = .ready ∧ l.job = none ∧ segs ≠ [] then some { l with job := some (id, segs) }
    else none
  | .motionSubmitted c res, l        =>
    if l.system = .executingPrint ∧ l.segment?.map Segment.command = some c then
      some (if res = .faulted then l else { l with position := l.position + 1 })
    else none
  | .snapshotPersisted _ snap, l     =>
    if l.system = .paused ∧ snap.cursor = l.position then some l else none
  | .snapshotRestored snap, l        =>
    if l.system = .resuming
    then some { l with system := .executingPrint, position := snap.cursor } else none
  | .abortStarted, l                 => if l.system = .aborting then some l else none
  | .finalized .normal, l            =>
    if l.system = .executingPrint ∧ l.Spent then
      some { system := .ready, job := none, position := 0 }
    else if l.system = .idle ∧ l.Spent then
      some { system := .idle, job := none, position := 0 }
    else none
  | .finalized .aborted, l           =>
    if l.system = .aborting then some (l.enter .idle) else none
  | .finalized _, _                  => none
  | .faulted _, l                    => some (l.enter .fault)

end Lifecycle

namespace State

-- The job that is present, with the segments that lie in its array.
def printable? (s : State) : Option (UInt64 × List Segment) :=
  if s.machine.jobPresent
  then (s.activeJob.segments.bind s.heap.deref).map (s.machine.jobId, ·) else none

-- What an operator sees of the state.
def lifecycle (s : State) : Lifecycle where
  system   := s.machine.system
  job      := s.printable?
  position := s.exec.cursor

end State
end Firmware
