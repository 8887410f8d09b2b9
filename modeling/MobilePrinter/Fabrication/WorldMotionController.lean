import MobilePrinter.Base.BaseMotionController
import MobilePrinter.Firmware.Motion.Controller
import MobilePrinter.Firmware.Motion.RosSim
import MobilePrinter.Library.Binary64

-- `world_motion_controller.cpp`: the node that takes the targets of the firmware and reports when
-- the tool has reached them.

namespace Fabrication

open Base Firmware

-- The operations on numbers that the nodes perform. Nothing is assumed about their results.
class Arithmetic (R : Type*) where
  add  : R → R → R
  sub  : R → R → R
  mul  : R → R → R
  div  : R → R → R
  sqrt : R → R
  lt   : R → R → Bool

-- A literal of the source is the double nearest to it.
instance : OfScientific Double where
  ofScientific m sign e :=
    let (n, d) := Binary64.decimal m (if sign then -e else e)
    ⟨.ofNat (Binary64.round n d)⟩

example : ((0.10 : Double), (0.75 : Double), (0.15 : Double)) =
    (⟨0x3FB999999999999A⟩, ⟨0x3FE8000000000000⟩, ⟨0x3FC3333333333333⟩) := by decide +kernel

-- The position of a `geometry_msgs::msg::PoseStamped`.
structure Position (R : Type*) where
  x : R
  y : R
  z : R
  deriving DecidableEq, Repr

def Position.origin {R : Type*} [OfScientific R] : Position R :=
  ⟨0.0, 0.0, 0.0⟩

structure WorldMotionController where
  baseX                : Double      := ⟨0⟩
  baseY                : Double      := ⟨0⟩
  toolPoseReceived     : Bool        := false
  withinThresholdStart : Int         := 0
  withinThreshold      : Bool        := false
  -- The sequence numbers of the targets, oldest first.
  pendingTargets       : List UInt32 := []
  activeSeq            : UInt32      := 0
  targetActive         : Bool        := false
  deriving DecidableEq, Repr

namespace WorldMotionController

-- 0.5 seconds in the nanoseconds of the clock. Their quotient in doubles compares alike.
def completeTime : Int := 500000000

section Plane

variable {R : Type*} [OfScientific R] [Arithmetic R]

def completeThreshold : R := 0.10

def workRadius : R := 0.75

def baseVelocity : R := 0.15

def norm (x y : R) : R :=
  Arithmetic.sqrt (Arithmetic.add (Arithmetic.mul x x) (Arithmetic.mul y y))

def Within (error : Position R) : Prop :=
  Arithmetic.lt (norm error.x error.y) completeThreshold = true

instance {error : Position R} : Decidable (Within error) :=
  inferInstanceAs (Decidable (_ = true))

def baseMotionCommand (toolPoseReceived : Bool) (baseX baseY : R) (seq : UInt32)
    (target : Position R) : Option (BaseMotionCommand R) :=
  if toolPoseReceived then
    let dx       := Arithmetic.sub target.x baseX
    let dy       := Arithmetic.sub target.y baseY
    let distance := norm dx dy
    if Arithmetic.lt workRadius distance then
      let offsetX := Arithmetic.div (Arithmetic.mul workRadius dx) distance
      let offsetY := Arithmetic.div (Arithmetic.mul workRadius dy) distance
      some {
        sequenceId      := seq
        targetX         := Arithmetic.sub target.x offsetX
        targetY         := Arithmetic.sub target.y offsetY
        targetTheta     := 0.0
        linearVelocity  := baseVelocity
        angularVelocity := baseVelocity }
    else
      none
  else
    none

end Plane

variable [Arithmetic Double]

def toolPoseCallback (c : WorldMotionController) : WorldMotionController :=
  { c with toolPoseReceived := true }

def odomCallback (x y : Double) (c : WorldMotionController) : WorldMotionController :=
  { c with baseX := x, baseY := y }

def enterThreshold (start : Int) (c : WorldMotionController) : WorldMotionController :=
  if !c.withinThreshold
  then { c with withinThreshold := true, withinThresholdStart := start } else c

def complete (c : WorldMotionController) : UInt32 × WorldMotionController :=
  let pending := c.pendingTargets.tail
  let done    := { c with pendingTargets := pending, withinThreshold := false }
  match pending with
  | []       => (c.activeSeq, { done with targetActive := false })
  | seq :: _ => (c.activeSeq, { done with activeSeq := seq, targetActive := true })

-- The completion that is published, if there is one. The clock is read for the start of a dwell and
-- once more for its duration.
def errorCallback (error : Position Double) (start now : Int) (c : WorldMotionController) :
    Option UInt32 × WorldMotionController :=
  if !c.targetActive then
    (none, c)
  else if Within error then
    let c := c.enterThreshold start
    if now - c.withinThresholdStart ≥ completeTime then
      let (seq, c) := c.complete
      (some seq, c)
    else
      (none, c)
  else
    (none, { c with withinThreshold := false })

-- The target that is passed on, along with a command for the base if the target is out of reach.
def motionTargetCallback (msg : MotionTarget) (c : WorldMotionController) :
    Position Double × Option (BaseMotionCommand Double) × WorldMotionController :=
  let target : Position Double := { x := msg.x, y := msg.y, z := msg.z }
  let base := baseMotionCommand c.toolPoseReceived c.baseX c.baseY msg.sequenceId target
  let c    := { c with pendingTargets := c.pendingTargets ++ [msg.sequenceId] }
  let c    :=
    if !c.targetActive
    then { c with activeSeq := c.pendingTargets.headD 0, targetActive := true } else c
  (target, base, c)

end WorldMotionController
end Fabrication
