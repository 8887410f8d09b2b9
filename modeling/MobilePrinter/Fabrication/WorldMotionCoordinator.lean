import MobilePrinter.Fabrication.WorldMotionController

-- `world_motion_coordinator.cpp`: the node that compares the last target with the pose of the tool.

namespace Fabrication

open Firmware

structure WorldMotionCoordinator where
  currentToolPose  : Position Double := .origin
  toolPoseReceived : Bool            := false
  targetPose       : Position Double := .origin
  targetReceived   : Bool            := false
  deriving DecidableEq, Repr

namespace WorldMotionCoordinator

def toolPoseCallback (msg : Position Double) (c : WorldMotionCoordinator) :
    WorldMotionCoordinator :=
  { c with currentToolPose := msg, toolPoseReceived := true }

def targetCallback (msg : Position Double) (c : WorldMotionCoordinator) :
    WorldMotionCoordinator :=
  { c with targetPose := msg, targetReceived := true }

def error {R : Type*} [Arithmetic R] (target pose : Position R) : Position R where
  x := Arithmetic.sub target.x pose.x
  y := Arithmetic.sub target.y pose.y
  z := Arithmetic.sub target.z pose.z

def update [Arithmetic Double] (c : WorldMotionCoordinator) : Option (Position Double) :=
  if !c.toolPoseReceived then
    none
  else if !c.targetReceived then
    none
  else
    some (error c.targetPose c.currentToolPose)

end WorldMotionCoordinator
end Fabrication
