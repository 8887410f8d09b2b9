import MobilePrinter.Fabrication.Streaming
import MobilePrinter.Firmware.Main

-- The firmware with the main loop that drives its motion controller, the node that completes the
-- targets, and the topics between the two.

namespace Fabrication

open Firmware

structure Printer where
  firmware    : State
  world       : WorldMotionController := {}
  -- The messages on /sim/motion/target and /firmware/world_motion_complete, oldest first.
  targets     : List MotionTarget     := []
  completions : List UInt32           := []
  -- The completions that have been published and delivered in this session of the firmware.
  published   : List UInt32           := []
  delivered   : List UInt32           := []

namespace Printer

def streaming (p : Printer) : Streaming where
  motion      := p.firmware.motion
  world       := p.world
  targets     := p.targets
  completions := p.completions
  published   := p.published
  delivered   := p.delivered

def withStreaming (p : Printer) (s : Streaming) : Printer where
  firmware    := { p.firmware with motion := s.motion }
  world       := s.world
  targets     := s.targets
  completions := s.completions
  published   := s.published
  delivered   := s.delivered

def newTargets (p : Printer) (firmware : State) : List MotionTarget :=
  let published := firmware.motion.controller.targetPub
  (published.take (published.length - p.firmware.motion.controller.targetPub.length)).reverse

-- One iteration of the main loop. Its spin thread receives what comes with the turns in place of
-- the schedule of the input, and what is left of that when the iteration ends. The other node is
-- taken to have its steps before or after it.
def tick (i : TickInput) (turns : List Turn) (p : Printer) : Except Crash Printer :=
  let (spin, s) := p.streaming.schedule turns
  (Firmware.tick { i with spin } p.firmware).map fun firmware =>
    { p.withStreaming s with
      firmware := { firmware with motion := Streaming.drain firmware.motion }
      targets  := s.targets ++ p.newTargets firmware }

inductive Input
  | tick (i : TickInput) (turns : List Turn)
  | target
  | error (error : Position Double) (start now : Int)
  | toolPose
  | odom (x y : Double)

variable [Arithmetic Double]

def step (i : Input) (p : Printer) : Except Crash Printer :=
  match i with
  | .tick i turns          => p.tick i turns
  | .target                => .ok (p.withStreaming p.streaming.target)
  | .error error start now => .ok (p.withStreaming (p.streaming.error error start now))
  | .toolPose              => .ok { p with world := p.world.toolPoseCallback }
  | .odom x y              => .ok { p with world := p.world.odomCallback x y }

-- What can come of a boot of the firmware when the other node has just been started.
inductive Reachable (p : Printer) : Prop
  | intro (boot : Booted s₀) (run : Transition.Run step { firmware := s₀ } is p)

end Printer

-- The queue capacities that are reported do not exceed `capacity`.
def Printer.Input.Within (capacity : UInt32) : Printer.Input → Prop
  | .tick _ turns => ∀ turn ∈ turns, turn.Within capacity
  | _             => True

end Fabrication
