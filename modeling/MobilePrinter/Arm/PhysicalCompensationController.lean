import MobilePrinter.Base.BaseMotionController
import MobilePrinter.Fabrication.WorldMotionController
import MobilePrinter.Library.Kinematics

-- `physical_compensation_controller.cpp`: the node that aims the arm at the target, and
-- `wbp_printer_arm.urdf`: the arm.

namespace Arm

open Fabrication Kinematics Smoothing

-- Of the message on /base/motion_result only the status is read.
structure PhysicalCompensationController (R : Type*) where
  currentX         : R
  currentZ         : R
  baseMotionActive : Bool
  currentTheta     : R
  baseX            : R
  baseY            : R
  desiredX         : R
  desiredZ         : R
  targetPose       : Position R
  targetReceived   : Bool
  -- The data of the messages on /arm_controller/commands, newest first.
  published        : List (List R)

variable {R : Type*} [Field R] [LinearOrder R] [Cmath R]

-- Small errors are not corrected.
def correction (error : R) : R :=
  if 0.02 < |error| then clamp (error * 0.015) (-0.05) 0.05 else 0.0

namespace PhysicalCompensationController

def boot : PhysicalCompensationController R where
  currentX         := 0.0
  currentZ         := 0.0
  baseMotionActive := false
  currentTheta     := 0.0
  baseX            := 0.0
  baseY            := 0.0
  desiredX         := 0.0
  desiredZ         := 0.0
  targetPose       := .origin
  targetReceived   := false
  published        := []

def odomCallback (x y : R) (s : PhysicalCompensationController R) :
    PhysicalCompensationController R :=
  { s with baseX := x, baseY := y }

def targetCallback (msg : Position R) (s : PhysicalCompensationController R) :
    PhysicalCompensationController R :=
  { s with targetPose := msg, targetReceived := true }

def cmd (s : PhysicalCompensationController R) : List R :=
  [s.currentTheta, s.currentZ, s.currentX, 0.0]

def errorCallback (error : Position R) (s : PhysicalCompensationController R) :
    PhysicalCompensationController R :=
  let s := { s with
    currentX := clamp (s.desiredX + correction error.x) (-1.0) 1.0
    currentZ := clamp (s.desiredZ + correction error.z) (-1.0) 1.0 }
  { s with published := s.cmd :: s.published }

def baseResultCallback (msg : Base.BaseMotionResult) (s : PhysicalCompensationController R) :
    PhysicalCompensationController R :=
  let s := if msg.status = Base.Status.inProgress.code
    then { s with baseMotionActive := true } else s
  if msg.status = Base.Status.completed.code then { s with baseMotionActive := false } else s

def armNeutralX : R := 1.90

def neutralToolZ : R := 1.375

def update (s : PhysicalCompensationController R) : PhysicalCompensationController R :=
  if !s.targetReceived then
    s
  else
    let dx := s.targetPose.x - s.baseX
    let dy := s.targetPose.y - s.baseY
    let radius := Cmath.sqrt (dx * dx + dy * dy)
    let carriageExtension := radius - armNeutralX
    { s with
      desiredX     := clamp carriageExtension (-1.0) 1.0
      desiredZ     := clamp (s.targetPose.z - neutralToolZ) (-1.0) 1.0
      currentTheta := Cmath.atan2 dy dx }

-- A message that the node receives, or a tick of its timer.
inductive Input (R : Type*)
  | target (msg : Position R)
  | baseResult (msg : Base.BaseMotionResult)
  | error (error : Position R)
  | odom (x y : R)
  | tick

def next (s : PhysicalCompensationController R) : Input R → PhysicalCompensationController R
  | .target msg     => s.targetCallback msg
  | .baseResult msg => s.baseResultCallback msg
  | .error error    => s.errorCallback error
  | .odom x y       => s.odomCallback x y
  | .tick           => s.update

def step (i : Input R) (s : PhysicalCompensationController R) :
    Except Empty (PhysicalCompensationController R) :=
  .ok (s.next i)

end PhysicalCompensationController

structure Posture (R : Type*) where
  baseToMast     : R
  mastToCarriage : R
  carriageToTool : R
  toolMount      : R

namespace Posture

def ofCommand : List R → Option (Posture R)
  | [mast, carriage, tool, mount] => some {
      baseToMast     := mast
      mastToCarriage := carriage
      carriageToTool := tool
      toolMount      := mount }
  | _                             => none

-- The other two joints are continuous.
def Allowed (p : Posture R) : Prop :=
  p.mastToCarriage ∈ Set.Icc (-1.0) 1.0 ∧ p.carriageToTool ∈ Set.Icc (-1.0) 1.0

def baseFootprintJoint : Frame R :=
  .shift 0 0 0.26

def baseToMastJoint (p : Posture R) : Frame R :=
  (Frame.shift 0 0 0.2).comp (.turn p.baseToMast)

def mastToCarriageJoint (p : Posture R) : Frame R :=
  (Frame.shift 0 0 1.10).comp (.shift 0 0 p.mastToCarriage)

def carriageToToolJoint (p : Posture R) : Frame R :=
  (Frame.shift 1.9 0 (-0.080)).comp (.shift p.carriageToTool 0 0)

def toolMountJoint (p : Posture R) : Frame R :=
  (Frame.shift 0 0 (-0.105)).comp (.turn p.toolMount)

-- The frames of the links, from the frame of the base on the ground.

def toolLink (base : Frame R) (p : Posture R) : Frame R :=
  (((base.comp baseFootprintJoint).comp p.baseToMastJoint).comp p.mastToCarriageJoint).comp
    p.carriageToToolJoint

def toolheadLink (base : Frame R) (p : Posture R) : Frame R :=
  (p.toolLink base).comp p.toolMountJoint

end Posture
end Arm
