import Mathlib.Algebra.Order.Group.Abs
import MobilePrinter.Library.Smoothing

-- `tool_compensation_applier.cpp`: the node that offsets the tool by the compensation that it is
-- sent.

namespace Tool

open Smoothing

structure ToolCompensation (R : Type*) where
  dx    : R
  dy    : R
  dz    : R
  valid : Bool

-- The message on /tool_target_pose. The other components are zero.
structure PoseStamped (R : Type*) where
  stamp        : Int
  frameId      : String
  positionX    : R
  positionY    : R
  positionZ    : R
  orientationW : R

structure ToolCompensationApplier (R : Type*) where
  currentDx : R
  currentDy : R
  currentDz : R
  targetDx  : R
  targetDy  : R
  targetDz  : R
  -- What has been published, newest first.
  published : List (PoseStamped R)

variable {R : Type*} [Field R] [LinearOrder R]

def maxX : R := 3.0

def maxY : R := 3.0

def maxZ : R := 1.0

-- Small compensations do not replace the target.
def retarget (compensation target : R) : R :=
  if 0.0001 < |compensation| then compensation else target

def deadband (offset : R) : R :=
  if |offset| < 0.01 then 0.0 else offset

def approach (limit target current : R) : R :=
  deadband (clamp (smooth 0.1 target current) (-limit) limit)

namespace ToolCompensationApplier

def boot : ToolCompensationApplier R where
  currentDx := 0.0
  currentDy := 0.0
  currentDz := 0.0
  targetDx  := 0.0
  targetDy  := 0.0
  targetDz  := 0.0
  published := []

def compensationCallback (msg : ToolCompensation R) (s : ToolCompensationApplier R) :
    ToolCompensationApplier R :=
  if !msg.valid then
    s
  else
    let s := { s with
      targetDx := retarget msg.dx s.targetDx
      targetDy := retarget msg.dy s.targetDy
      targetDz := retarget msg.dz s.targetDz }
    { s with
      currentDx := approach maxX s.targetDx s.currentDx
      currentDy := approach maxY s.targetDy s.currentDy
      currentDz := approach maxZ s.targetDz s.currentDz }

def toolTarget (now : Int) (s : ToolCompensationApplier R) : PoseStamped R where
  stamp        := now
  frameId      := "tool0"
  positionX    := s.currentDx
  positionY    := s.currentDy
  positionZ    := s.currentDz
  orientationW := 1.0

def publishTarget (now : Int) (s : ToolCompensationApplier R) : ToolCompensationApplier R :=
  { s with published := s.toolTarget now :: s.published }

-- A message that the node receives, or a tick of its timer.
inductive Input (R : Type*)
  | compensation (msg : ToolCompensation R)
  | tick (now : Int)

def next (s : ToolCompensationApplier R) : Input R → ToolCompensationApplier R
  | .compensation msg => s.compensationCallback msg
  | .tick now         => s.publishTarget now

def step (i : Input R) (s : ToolCompensationApplier R) :
    Except Empty (ToolCompensationApplier R) :=
  .ok (s.next i)

end ToolCompensationApplier
end Tool
