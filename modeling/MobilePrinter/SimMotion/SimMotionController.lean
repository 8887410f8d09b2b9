import Mathlib.Logic.Function.Basic
import MobilePrinter.Library.Cmath

-- `sim_motion_controller.cpp`: the node that moves the simulated tool to the target of one command
-- after another. Commands and targets arrive separately and are joined by their sequence ids.

namespace SimMotion

structure Position (R : Type*) where
  x : R
  y : R
  z : R
  e : R

def Position.xyz (p : Position R) : R × R × R :=
  (p.x, p.y, p.z)

structure Target (R : Type*) where
  pos      : Position R
  feedrate : R

structure MotionTarget (R : Type*) where
  sequenceId : UInt32
  x          : R
  y          : R
  z          : R
  feedrate   : R
  extrusion  : R

def MotionTarget.target (msg : MotionTarget R) : Target R where
  pos      := { x := msg.x, y := msg.y, z := msg.z, e := msg.extrusion }
  feedrate := msg.feedrate

-- A command that has been taken from the queue: where it starts, and the target that it has got.
structure Trip (R : Type*) where
  seq    : UInt32
  start  : Position R
  target : Target R

inductive Status
  | accepted
  | inProgress
  | completed
  | rejected
  | faulted
  deriving DecidableEq, Repr

def Status.code : Status → UInt8
  | accepted   => 0
  | inProgress => 1
  | completed  => 2
  | rejected   => 3
  | faulted    => 4

structure MotionResult where
  sequenceId : UInt32
  status     : UInt8
  deriving DecidableEq, Repr

-- What happens to the node and what it publishes. A completion carries the position of the tool at
-- that time.
inductive Event (R : Type*)
  | delivered (seq : UInt32) (target : Target R)
  | accepted (seq : UInt32)
  | started (trip : Trip R)
  | inProgress (seq : UInt32)
  | command (pos : Position R)
  | completed (seq : UInt32) (pos : Position R)

-- The message on /sim/motion/result.
def Event.result? : Event R → Option MotionResult
  | .accepted seq    => some { sequenceId := seq, status := Status.accepted.code }
  | .inProgress seq  => some { sequenceId := seq, status := Status.inProgress.code }
  | .completed seq _ => some { sequenceId := seq, status := Status.completed.code }
  | _                => none

structure SimMotionController (R : Type*) where
  currentPos       : Position R
  target           : Position R
  currentFeedrate  : R
  activeSeq        : UInt32
  moving           : Bool
  segmentStartTime : Int
  segmentDuration  : R
  commandQueue     : List UInt32
  startPos         : Position R
  segmentLength    : R
  targets          : UInt32 → Option (Target R)
  -- What has happened, newest first.
  history          : List (Event R)

variable {R : Type*} [Field R] [LinearOrder R] [Cmath R]

def origin : Position R where
  x := 0.0
  y := 0.0
  z := 0.0
  e := 0.0

def distance (start target : Position R) : R :=
  let dx := target.x - start.x
  let dy := target.y - start.y
  let dz := target.z - start.z
  Cmath.sqrt (dx * dx + dy * dy + dz * dz)

-- The position after the given part of the way. The extruder is disabled.
def interpolate (progress : R) (start target : Position R) : Position R where
  x := start.x + progress * (target.x - start.x)
  y := start.y + progress * (target.y - start.y)
  z := start.z + progress * (target.z - start.z)
  e := 0.0

-- The time between two readings of the clock, which are in nanoseconds.
def seconds (start now : Int) : R :=
  ((now - start : Int) : R) / 1e9

def clampFeedrate (feedrate : R) : R :=
  if feedrate < 1e-6 then 1e-6 else feedrate

def duration (length feedrate : R) : R :=
  let velocity := feedrate * 200.0
  let duration := if 1e-6 < velocity then length / velocity else 0.0
  if duration < 0.02 then 0.02 else duration

namespace SimMotionController

def boot : SimMotionController R where
  currentPos       := origin
  target           := origin
  currentFeedrate  := 1.0
  activeSeq        := 0
  moving           := false
  segmentStartTime := 0
  segmentDuration  := 0.0
  commandQueue     := []
  startPos         := origin
  segmentLength    := 0.0
  targets          := fun _ => none
  history          := []

def log (e : Event R) (s : SimMotionController R) : SimMotionController R :=
  { s with history := e :: s.history }

def onTarget (msg : MotionTarget R) (s : SimMotionController R) : SimMotionController R :=
  { s with targets := Function.update s.targets msg.sequenceId (some msg.target) }.log
    (.delivered msg.sequenceId msg.target)

def onCommand (seq : UInt32) (s : SimMotionController R) : SimMotionController R :=
  { s with commandQueue := s.commandQueue ++ [seq] }.log (.accepted seq)

def take (seq : UInt32) (queue : List UInt32) (target : Target R) (s : SimMotionController R) :
    SimMotionController R :=
  { s with
    commandQueue  := queue
    target        := { target.pos with e := 0.0 }
    startPos      := s.currentPos
    segmentLength := distance s.currentPos target.pos }.log
      (.started { seq, start := s.currentPos, target })

def complete (seq : UInt32) (s : SimMotionController R) : SimMotionController R :=
  { s with currentPos := s.target, moving := false }.log (.completed seq s.target)

def begin (seq : UInt32) (feedrate : R) (time : Int) (s : SimMotionController R) :
    SimMotionController R :=
  { s with
    currentFeedrate  := clampFeedrate feedrate
    segmentDuration  := duration s.segmentLength (clampFeedrate feedrate)
    segmentStartTime := time
    activeSeq        := seq
    moving           := true }.log (.inProgress seq)

def progress (now : Int) (s : SimMotionController R) : R :=
  let progress :=
    if 1e-6 < s.segmentDuration then seconds s.segmentStartTime now / s.segmentDuration else 0.0
  if 1.0 < progress then 1.0 else progress

def move (now : Int) (s : SimMotionController R) : SimMotionController R :=
  let pos := interpolate (s.progress now) s.startPos s.target
  { s with currentPos := pos }.log (.command pos)

def advance (now : Int) (s : SimMotionController R) : SimMotionController R :=
  let done := decide (1.0 ≤ s.progress now)
  let s    := s.move now
  if done then s.complete s.activeSeq else s

-- The clock is read when a motion begins, and again when it advances.
def onTick (time now : Int) (s : SimMotionController R) : SimMotionController R :=
  if s.moving then
    s.advance now
  else
    match s.commandQueue with
    | []           => s
    | seq :: queue =>
      match s.targets seq with
      | none        => s
      | some target =>
        let s := s.take seq queue target
        if s.segmentLength < 1e-6
        then s.complete seq
        else (s.begin seq target.feedrate time).advance now

-- A message that the node receives, or a tick of its timer.
inductive Input (R : Type*)
  | command (seq : UInt32)
  | target (msg : MotionTarget R)
  | tick (time now : Int)

def next (s : SimMotionController R) : Input R → SimMotionController R
  | .command seq   => s.onCommand seq
  | .target msg    => s.onTarget msg
  | .tick time now => s.onTick time now

def step (i : Input R) (s : SimMotionController R) : Except Empty (SimMotionController R) :=
  .ok (s.next i)

end SimMotionController
end SimMotion
