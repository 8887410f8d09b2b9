import MobilePrinter.Fabrication.Streaming
import MobilePrinter.Fabrication.WorldMotionCoordinator

-- The two nodes of the fabrication package together with the motion controller of the firmware. The
-- targets pass through one node to the other, and the errors come back.

namespace Fabrication

open Firmware

-- An error that the world motion controller receives, with the number of the target from which the
-- coordinator computed it and the readings of the clock.
structure Sample where
  origin : UInt32
  error  : Position Double
  start  : Int
  now    : Int
  deriving DecidableEq

structure Completion where
  seq   : UInt32
  dwell : List Sample
  deriving DecidableEq

structure World where
  streaming   : Streaming                         := {}
  coordinator : WorldMotionCoordinator            := {}
  -- The number of the target that the coordinator has.
  origin      : UInt32                            := 0
  -- The messages on /world_tool_target and on /world_tool_error, oldest first, each with the number
  -- of its target.
  goals       : List (UInt32 × Position Double)  := []
  errors      : List (UInt32 × Position Double)  := []
  -- The errors of the dwell in progress, oldest first, and the completions, newest first.
  dwell       : List Sample                       := []
  completed   : List Completion                   := []

namespace World

variable [Arithmetic Double]

-- What the world motion controller is about to do with a sample.
def observe (sample : Sample) (s : World) : World :=
  let (done, _) := s.streaming.world.errorCallback sample.error sample.start sample.now
  if !s.streaming.world.targetActive then
    s
  else if WorldMotionController.Within sample.error then
    let dwell := s.dwell ++ [sample]
    match done with
    | none     => { s with dwell }
    | some seq => { s with dwell := [], completed := { seq, dwell } :: s.completed }
  else
    { s with dwell := [] }

def error (start now : Int) (s : World) : World :=
  match s.errors with
  | []                        => s
  | (origin, error) :: errors =>
    let streaming := s.streaming.error error start now
    { s.observe { origin, error, start, now } with streaming, errors }

def target (s : World) : World :=
  match s.streaming.targets with
  | []       => s
  | msg :: _ =>
    let goal := (s.streaming.world.motionTargetCallback msg).1
    { s with
      streaming := s.streaming.target
      goals     := s.goals ++ [(msg.sequenceId, goal)] }

def goal (s : World) : World :=
  match s.goals with
  | []                       => s
  | (origin, goal) :: goals  =>
    { s with coordinator := s.coordinator.targetCallback goal, origin, goals }

def update (s : World) : World :=
  { s with errors := s.errors ++ (s.coordinator.update.map (s.origin, ·)).toList }

-- A step of the firmware, the delivery of a message to one of the nodes, or the timer of the
-- coordinator. Each node receives the poses of the tool on its own.
inductive Input
  | submit (cmd : MotionCommand) (turns : List Turn)
  | spin (turn : Turn)
  | target
  | goal
  | coordinatorPose (pose : Position Double)
  | controllerPose
  | odom (x y : Double)
  | update
  | error (start now : Int)

def next (s : World) : Input → World
  | .submit cmd turns     => { s with streaming := s.streaming.next (.submit cmd turns) }
  | .spin turn            => { s with streaming := s.streaming.next (.spin turn) }
  | .target               => s.target
  | .goal                 => s.goal
  | .coordinatorPose pose => { s with coordinator := s.coordinator.toolPoseCallback pose }
  | .controllerPose       => { s with streaming := s.streaming.next .toolPose }
  | .odom x y             => { s with streaming := s.streaming.next (.odom x y) }
  | .update               => s.update
  | .error start now      => s.error start now

def step (i : Input) (s : World) : Except Empty World :=
  .ok (s.next i)

end World
end Fabrication
