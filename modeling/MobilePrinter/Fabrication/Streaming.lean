import Mathlib.Logic.Function.Iterate
import MobilePrinter.Fabrication.WorldMotionController

-- The motion controller of the firmware and the node that completes its targets, together with the
-- messages that are under way between them. A topic keeps the order of its messages and loses none.

namespace Fabrication

open Firmware

-- A message that the spin thread of the motion controller receives. The completions come out of
-- their topic. The other messages are sent by nodes outside of this composition.
inductive Delivery
  | motionResult (now : UInt64)
  | motionStatus (ready : Bool) (depth capacity : UInt32) (now : UInt64)
  | worldComplete (now : UInt64)

-- What the spin thread receives between two atomic accesses of the firmware thread.
structure Turn where
  deliveries : List Delivery := []
  now        : UInt64        := 0

structure Streaming where
  motion      : RosMotion             := {}
  world       : WorldMotionController := {}
  -- The messages on /sim/motion/target and /firmware/world_motion_complete, oldest first.
  targets     : List MotionTarget     := []
  completions : List UInt32           := []
  -- The completions that have been published and delivered in this session of the firmware.
  published   : List UInt32           := []
  delivered   : List UInt32           := []

namespace Streaming

-- The callback that a delivery runs. Without a completion on the topic none is delivered.
def receive (s : Streaming) : Delivery → List SpinCallback × Streaming
  | .motionResult now                      => ([.motionResult now], s)
  | .motionStatus ready depth capacity now => ([.motionStatus ready depth capacity now], s)
  | .worldComplete now                     =>
    match s.completions with
    | []                 => ([], s)
    | seq :: completions =>
      ([.worldComplete seq now], { s with completions, delivered := s.delivered ++ [seq] })

def receiveAll : List Delivery → Streaming → List SpinCallback × Streaming
  | [], s      => ([], s)
  | d :: ds, s =>
    let (callback, s)  := s.receive d
    let (callbacks, s) := s.receiveAll ds
    (callback ++ callbacks, s)

def schedule : List Turn → Streaming → List SpinSlice × Streaming
  | [], s            => ([], s)
  | turn :: turns, s =>
    let (callbacks, s) := s.receiveAll turn.deliveries
    let (slices, s)    := s.schedule turns
    ({ callbacks, now := turn.now } :: slices, s)

-- Runs what is left of the schedule of the spin thread.
def drain (m : RosMotion) : RosMotion :=
  RosMotion.spin^[m.schedule.length] m

-- What the other node does during a submission is independent of it, because the target is the last
-- thing to be published, and so it may be taken to happen before.
def submit (cmd : MotionCommand) (turns : List Turn) (s : Streaming) : Streaming :=
  let (schedule, s) := s.schedule turns
  let (result, m)   := { s.motion with schedule }.submit cmd
  let s             := { s with motion := drain m }
  match result with
  | .accepted => { s with targets := s.targets ++ m.controller.targetPub.take 1 }
  | _         => s

def spin (turn : Turn) (s : Streaming) : Streaming :=
  let (schedule, s) := s.schedule [turn]
  { s with motion := drain { s.motion with schedule } }

variable [Arithmetic Double]

def target (s : Streaming) : Streaming :=
  match s.targets with
  | []             => s
  | msg :: targets => { s with targets, world := (s.world.motionTargetCallback msg).2.2 }

def error (error : Position Double) (start now : Int) (s : Streaming) : Streaming :=
  let (done, world) := s.world.errorCallback error start now
  { s with
    world
    completions := s.completions ++ done.toList
    published   := s.published ++ done.toList }

inductive Input
  | submit (cmd : MotionCommand) (turns : List Turn)
  | spin (turn : Turn)
  | target
  | error (error : Position Double) (start now : Int)
  | toolPose
  | odom (x y : Double)

def next (s : Streaming) : Input → Streaming
  | .submit cmd turns      => s.submit cmd turns
  | .spin turn             => s.spin turn
  | .target                => s.target
  | .error error start now => s.error error start now
  | .toolPose              => { s with world := s.world.toolPoseCallback }
  | .odom x y              => { s with world := s.world.odomCallback x y }

def step (i : Input) (s : Streaming) : Except Empty Streaming :=
  .ok (s.next i)

end Streaming

def Delivery.Within (capacity : UInt32) : Delivery → Prop
  | .motionStatus _ _ reported _ => reported ≤ capacity
  | _                            => True

def Turn.Within (capacity : UInt32) (turn : Turn) : Prop :=
  ∀ d ∈ turn.deliveries, d.Within capacity

def Streaming.Input.Within (capacity : UInt32) : Streaming.Input → Prop
  | .submit _ turns => ∀ turn ∈ turns, turn.Within capacity
  | .spin turn      => turn.Within capacity
  | _               => True

end Fabrication
