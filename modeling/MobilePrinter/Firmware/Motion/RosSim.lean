import MobilePrinter.Firmware.Motion.Controller

-- `ros_sim_motion_controller.cpp`: the controller's atomics, the callbacks of the ROS spin thread
-- that write them, and the operations of the firmware thread.

namespace Firmware

-- The message that is published on /sim/motion/target.
structure MotionTarget where
  sequenceId : UInt32
  x          : Double
  y          : Double
  z          : Double
  feedrate   : Double
  extrusion  : Double
  deriving DecidableEq, Repr

structure RosSimMotionController where
  executorReady         : Bool              := true
  executorQueueDepth    : UInt32            := 0
  executorQueueCapacity : UInt32            := 0
  abortActive           : Bool              := false
  lastSubmittedSeq      : UInt32            := 0
  lastCompletedSeq      : UInt32            := 0
  lastStatusTime        : UInt64            := 0
  lastResultTime        : UInt64            := 0
  -- The function-local static of `poll`.
  lastReported          : UInt32            := 0
  -- What has been published so far, newest first.
  targetPub             : List MotionTarget := []
  abortPub              : Nat               := 0

-- The callbacks of the spin thread. Each one carries the clock reading that it stores.
inductive SpinCallback
  | motionResult (now : UInt64)
  | motionStatus (ready : Bool) (depth capacity : UInt32) (now : UInt64)
  | worldComplete (seq : UInt32) (now : UInt64)
  deriving DecidableEq, Repr

namespace RosSimMotionController

def streamWindow : UInt32 := 5

def watchdogTimeoutMs : UInt64 := 5000

def onMotionResult (now : UInt64) (c : RosSimMotionController) : RosSimMotionController :=
  { c with lastResultTime := now }

def onMotionStatus
    (ready : Bool) (depth capacity : UInt32) (now : UInt64) (c : RosSimMotionController) :
    RosSimMotionController :=
  { c with
    executorReady         := ready
    executorQueueDepth    := depth
    executorQueueCapacity := capacity
    lastStatusTime        := now }

def onWorldComplete (seq : UInt32) (now : UInt64) (c : RosSimMotionController) :
    RosSimMotionController :=
  { c with lastCompletedSeq := seq, lastResultTime := now }

def deliver (c : RosSimMotionController) : SpinCallback → RosSimMotionController
  | .motionResult now                      => c.onMotionResult now
  | .motionStatus ready depth capacity now => c.onMotionStatus ready depth capacity now
  | .worldComplete seq now                 => c.onWorldComplete seq now

-- The number of submitted sequence numbers without a completion, as the controller counts them.
def inflight (c : RosSimMotionController) : UInt32 :=
  c.lastSubmittedSeq - c.lastCompletedSeq

end RosSimMotionController

-- What the spin thread does between two atomic accesses of the firmware thread: the callbacks that
-- it runs and the reading of the steady clock once they have run.
structure SpinSlice where
  callbacks : List SpinCallback := []
  now       : UInt64            := 0
  deriving DecidableEq, Repr

structure RosMotion where
  controller : RosSimMotionController := {}
  clock      : UInt64                 := 0
  schedule   : List SpinSlice         := []

namespace RosMotion

-- Runs the spin thread up to the next access of the firmware thread.
def spin (m : RosMotion) : RosMotion :=
  match m.schedule with
  | []         => m
  | slice :: _ => {
      controller := slice.callbacks.foldl .deliver m.controller
      clock      := slice.now
      schedule   := m.schedule.tail }

-- In each of these operations every `spin` precedes one access to an atomic or to the clock.
def inflight (m : RosMotion) : UInt32 × RosMotion :=
  let m₁ := m.spin
  let m₂ := m₁.spin
  (m₁.controller.lastSubmittedSeq - m₂.controller.lastCompletedSeq, m₂)

def isReady (m : RosMotion) : Bool × RosMotion :=
  let m := m.spin
  if !m.controller.executorReady then
    (false, m)
  else
    let m     := m.spin
    let cap   := m.controller.executorQueueCapacity
    let m     := m.spin
    let depth := m.controller.executorQueueDepth
    if cap == 0 then
      (m.inflight.1 < RosSimMotionController.streamWindow, m.inflight.2)
    else
      let target := if cap > 2 then cap - 2 else cap
      if depth ≥ target then
        (false, m)
      else
        (!decide (m.inflight.1 ≥ target), m.inflight.2)

def publishMotionCommand (seq : UInt32) (cmd : MotionCommand) (m : RosMotion) : RosMotion :=
  { m with
    controller := { m.controller with
      targetPub := {
        sequenceId := seq
        x          := cmd.x
        y          := cmd.y
        z          := cmd.z
        feedrate   := cmd.feedrate
        extrusion  := cmd.extrusion } :: m.controller.targetPub } }

def submit (cmd : MotionCommand) (m : RosMotion) : MotionResult × RosMotion :=
  let (ready, m) := m.isReady
  if !ready then
    (.rejected, m)
  else
    let m   := m.spin
    let seq := m.controller.lastSubmittedSeq + 1
    let m   := { m with controller := { m.controller with lastSubmittedSeq := seq } }
    (.accepted, m.publishMotionCommand seq cmd)

-- The part of `poll` that takes 500 ms of silence for a forced stop while an abort is active.
def abortFallback (m : RosMotion) : Bool × RosMotion :=
  let m := m.spin
  if !m.controller.abortActive then
    (false, m)
  else
    let m         := m.spin
    let completed := m.controller.lastCompletedSeq
    let m         := m.spin
    if !decide (completed < m.controller.lastSubmittedSeq) then
      (false, m)
    else
      let m            := m.spin
      let now          := m.clock
      let m            := m.spin
      let lastStatus   := m.controller.lastStatusTime
      let m            := m.spin
      let lastActivity := max lastStatus m.controller.lastResultTime
      (decide (lastActivity > 0) && decide (now - lastActivity > 500), m)

def checkWatchdog (m : RosMotion) : Bool × RosMotion :=
  let m := m.spin
  if m.controller.abortActive then
    (false, m)
  else
    let m            := m.spin
    let now          := m.clock
    let m            := m.spin
    let lastStatus   := m.controller.lastStatusTime
    let m            := m.spin
    let lastActivity := max lastStatus m.controller.lastResultTime
    if lastActivity == 0 then
      (false, m)
    else
      (decide (m.inflight.1 > 0) &&
        decide (now - lastActivity > RosSimMotionController.watchdogTimeoutMs), m.inflight.2)

-- Clears the abort once everything that was submitted has been completed.
def clearDrainedAbort (m : RosMotion) : RosMotion :=
  let m := m.spin
  if !m.controller.abortActive then
    m
  else if m.inflight.1 != 0 then
    m.inflight.2
  else
    let m := m.inflight.2.spin
    { m with controller := { m.controller with abortActive := false } }

def poll (_ : Bool) (m : RosMotion) : MotionResult × Bool × RosMotion :=
  let (inflight, m) := m.inflight
  let (fallback, m) := m.abortFallback
  let idle          := inflight == 0 || fallback
  let (expired, m)  := m.checkWatchdog
  if expired then
    (.faulted, idle, m)
  else
    let m         := m.spin
    let completed := m.controller.lastCompletedSeq
    if completed > m.controller.lastReported then
      (.completed, idle, { m with controller := { m.controller with lastReported := completed } })
    else
      (.inProgress, idle, m.clearDrainedAbort)

def setAbortActive (active : Bool) (m : RosMotion) : RosMotion :=
  let m := m.spin
  { m with controller := { m.controller with abortActive := active } }

def abort (m : RosMotion) : RosMotion :=
  let m := m.setAbortActive true
  { m with controller := { m.controller with abortPub := m.controller.abortPub + 1 } }

instance : MotionController RosMotion where
  submit         := submit
  poll           := poll
  isReady        := isReady
  abort          := abort
  setAbortActive := setAbortActive

end RosMotion
end Firmware
