import Mathlib.Algebra.Order.Group.Abs
import MobilePrinter.Library.Cmath
import MobilePrinter.Library.Smoothing

-- `base_motion_controller.cpp`: the node that drives the base to one target after another.

namespace Base

open Smoothing

structure BaseMotionCommand (R : Type*) where
  sequenceId      : UInt32
  targetX         : R
  targetY         : R
  targetTheta     : R
  linearVelocity  : R
  angularVelocity : R

-- The place is the number of commands that have been received before.
structure ActiveCommand (R : Type*) where
  seq        : UInt32
  tx         : R
  ty         : R
  ttheta     : R
  linearVel  : R
  angularVel : R
  place      : Nat

def BaseMotionCommand.queued (place : Nat) (msg : BaseMotionCommand R) : ActiveCommand R where
  seq        := msg.sequenceId
  tx         := msg.targetX
  ty         := msg.targetY
  ttheta     := msg.targetTheta
  linearVel  := msg.linearVelocity
  angularVel := msg.angularVelocity
  place      := place

-- What the controller reads of a message on /odom.
structure Odometry (R : Type*) where
  stamp : Int
  x     : R
  y     : R
  qw    : R
  qx    : R
  qy    : R
  qz    : R

structure Twist (R : Type*) where
  linearX  : R
  angularZ : R

structure BaseState (R : Type*) where
  x         : R
  y         : R
  theta     : R
  vx        : R
  vy        : R
  omega     : R
  localized : Bool

-- The transform from "odom" to "base_footprint". The other components are zero.
structure OdomTransform (R : Type*) where
  stamp        : Int
  translationX : R
  translationY : R
  rotationZ    : R
  rotationW    : R

inductive Status
  | accepted
  | inProgress
  | completed
  | faulted
  deriving DecidableEq, Repr

def Status.code : Status → UInt8
  | accepted   => 0
  | inProgress => 1
  | completed  => 2
  | faulted    => 3

structure BaseMotionResult where
  sequenceId : UInt32
  status     : UInt8
  deriving DecidableEq, Repr

-- What the node publishes. A result carries the command that it is about.
inductive Event (R : Type*)
  | result (cmd : ActiveCommand R) (status : Status)
  | cmdVel (twist : Twist R)
  | state (msg : BaseState R)
  | transform (msg : OdomTransform R)

def Event.result? : Event R → Option BaseMotionResult
  | .result cmd status => some { sequenceId := cmd.seq, status := status.code }
  | _                  => none

structure PoseError (R : Type*) where
  dist    : R
  forward : R
  yaw     : R

structure BaseMotionController (R : Type*) where
  queue         : List (ActiveCommand R)
  current       : ActiveCommand R
  active        : Bool
  currentX      : R
  currentY      : R
  currentTheta  : R
  elapsedTime   : R
  currentVx     : R
  currentWz     : R
  targetVx      : R
  targetWz      : R
  stopping      : Bool
  odomStamp     : Int
  -- What has been published, newest first, and the number of commands that have been received.
  published     : List (Event R)
  receivedCount : Nat

-- The loop `while (condition) value = body`, for as many rounds at most.
def loop (condition : R → Bool) (body : R → R) : Nat → R → R
  | 0, value          => value
  | rounds + 1, value => if condition value then loop condition body rounds (body value) else value

variable {R : Type*} [Field R] [LinearOrder R] [Cmath R]

-- One round is enough for every yaw error that occurs.
def rounds : Nat := 1

def reduce (yaw : R) : R :=
  loop (fun yaw => decide (Cmath.pi < yaw)) (fun yaw => yaw - 2.0 * Cmath.pi) rounds yaw

def raise (yaw : R) : R :=
  loop (fun yaw => decide (yaw < -Cmath.pi)) (fun yaw => yaw + 2.0 * Cmath.pi) rounds yaw

def normalize (yaw : R) : R :=
  raise (reduce yaw)

def ActiveCommand.distance (cmd : ActiveCommand R) (x y : R) : R :=
  let dx := cmd.tx - x
  let dy := cmd.ty - y
  Cmath.sqrt (dx * dx + dy * dy)

-- The velocities to aim for, forward and around.
def PoseError.targets (error : PoseError R) : R × R :=
  if 0.05 < error.dist then
    (if |error.yaw| < 0.5 then clamp (error.forward * 0.8) (-0.4) 0.4 else 0.0,
      clamp (error.yaw * 2.0) (-0.5) 0.5)
  else
    (0.0, 0.0)

def stopCmd : Twist R where
  linearX  := 0.0
  angularZ := 0.0

namespace BaseMotionController

-- The constructor leaves the current command as it is.
def boot (current : ActiveCommand R) : BaseMotionController R where
  queue         := []
  current       := current
  active        := false
  currentX      := 0.0
  currentY      := 0.0
  currentTheta  := 0.0
  elapsedTime   := 0.0
  currentVx     := 0.0
  currentWz     := 0.0
  targetVx      := 0.0
  targetWz      := 0.0
  stopping      := false
  odomStamp     := 0
  published     := []
  receivedCount := 0

def publish (e : Event R) (s : BaseMotionController R) : BaseMotionController R :=
  { s with published := e :: s.published }

def commandCallback (msg : BaseMotionCommand R) (s : BaseMotionController R) :
    BaseMotionController R :=
  let cmd := msg.queued s.receivedCount
  { s with
    queue         := s.queue ++ [cmd]
    receivedCount := s.receivedCount + 1 }.publish (.result cmd .accepted)

def odomTransform (s : BaseMotionController R) : OdomTransform R where
  stamp        := s.odomStamp
  translationX := s.currentX
  translationY := s.currentY
  rotationZ    := Cmath.sin (s.currentTheta * 0.5)
  rotationW    := Cmath.cos (s.currentTheta * 0.5)

def odomCallback (msg : Odometry R) (s : BaseMotionController R) : BaseMotionController R :=
  let s := { s with
    currentX     := msg.x
    currentY     := msg.y
    currentTheta := Cmath.atan2 (2.0 * (msg.qw * msg.qz + msg.qx * msg.qy))
      (1.0 - 2.0 * (msg.qy * msg.qy + msg.qz * msg.qz))
    odomStamp    := msg.stamp }
  s.publish (.transform s.odomTransform)

def start (cmd : ActiveCommand R) (queue : List (ActiveCommand R)) (s : BaseMotionController R) :
    BaseMotionController R :=
  { s with
    current     := cmd
    queue       := queue
    active      := true
    elapsedTime := 0.0
    stopping    := false
    targetVx    := cmd.linearVel
    targetWz    := cmd.angularVel }.publish (.result cmd .inProgress)

def startNext (s : BaseMotionController R) : BaseMotionController R :=
  if s.active then
    s
  else
    match s.queue with
    | []           => s
    | cmd :: queue => s.start cmd queue

def slow (s : BaseMotionController R) : BaseMotionController R :=
  { s with
    targetVx := if s.stopping then 0.0 else s.targetVx
    targetWz := if s.stopping then 0.0 else s.targetWz }

def poseError (s : BaseMotionController R) : PoseError R :=
  let dx := s.current.tx - s.currentX
  let dy := s.current.ty - s.currentY
  { dist    := s.current.distance s.currentX s.currentY
    forward := dx * Cmath.cos s.currentTheta + dy * Cmath.sin s.currentTheta
    yaw     := normalize (Cmath.atan2 dy dx - s.currentTheta) }

def steer (s : BaseMotionController R) : BaseMotionController R :=
  { s with targetVx := s.poseError.targets.1, targetWz := s.poseError.targets.2 }

def accelerate (s : BaseMotionController R) : BaseMotionController R :=
  { s with
    currentVx := smooth 0.03 s.targetVx s.currentVx
    currentWz := smooth 0.03 s.targetWz s.currentWz }

def latch (s : BaseMotionController R) : BaseMotionController R :=
  { s with stopping := s.stopping || decide (s.poseError.dist < 0.05) }

-- A step towards the target of the current command, up to the test for completion.
def drive (dt : R) (s : BaseMotionController R) : BaseMotionController R :=
  let s := { s with elapsedTime := s.elapsedTime + dt }
  let s := s.slow.steer.accelerate
  let s := s.publish (.cmdVel { linearX := s.currentVx, angularZ := s.currentWz })
  s.latch

def Finishes (s : BaseMotionController R) : Prop :=
  s.stopping = true ∧ |s.currentVx| < 0.05 ∧ |s.currentWz| < 0.05

instance : DecidablePred (Finishes (R := R)) :=
  fun _ => inferInstanceAs (Decidable (_ ∧ _))

def finish (s : BaseMotionController R) : BaseMotionController R :=
  let s := { s with active := false, stopping := false }
  let s := s.publish (.cmdVel stopCmd)
  s.publish (.result s.current .completed)

def executeActive (dt : R) (s : BaseMotionController R) : BaseMotionController R :=
  let s := s.drive dt
  if s.Finishes then s.finish else s

def baseState (s : BaseMotionController R) : BaseState R where
  x         := s.currentX
  y         := s.currentY
  theta     := s.currentTheta
  vx        := s.currentVx
  vy        := 0.0
  omega     := s.currentWz
  localized := true

def publishState (s : BaseMotionController R) : BaseMotionController R :=
  s.publish (.state s.baseState)

def update (s : BaseMotionController R) : BaseMotionController R :=
  let s := s.startNext
  let s := if s.active then s.executeActive 0.02 else s
  s.publishState

inductive Input (R : Type*)
  | command (msg : BaseMotionCommand R)
  | odom (msg : Odometry R)
  | tick

def next (s : BaseMotionController R) : Input R → BaseMotionController R
  | .command msg => s.commandCallback msg
  | .odom msg    => s.odomCallback msg
  | .tick        => s.update

def step (i : Input R) (s : BaseMotionController R) : Except Empty (BaseMotionController R) :=
  .ok (s.next i)

end BaseMotionController
end Base
