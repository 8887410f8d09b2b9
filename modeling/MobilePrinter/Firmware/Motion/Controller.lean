import MobilePrinter.Firmware.Job

-- The motion and extruder interfaces that the execution loop drives: `motion_types.hpp`,
-- `motion_controller.hpp`, `extruder_types.hpp` and `extruder_controller_stub.cpp`.

namespace Firmware

inductive MotionIntent
  | travel
  | deposit
  | retract
  | unretract
  | waitForCondition
  deriving DecidableEq, Repr

structure MotionCommand where
  intent    : MotionIntent
  x         : Double
  y         : Double
  z         : Double
  feedrate  : Double
  extrusion : Double
  deriving DecidableEq, Repr

def Segment.command (seg : Segment) : MotionCommand where
  intent    := .travel
  x         := seg.x
  y         := seg.y
  z         := seg.z
  feedrate  := seg.feedrate
  extrusion := seg.extrusion

inductive MotionResult
  | accepted
  | inProgress
  | completed
  | rejected
  | faulted
  deriving DecidableEq, Repr

-- Every operation passes the controller on, because other threads may change it between any two
-- calls. `poll` also stores the machine's `motion_idle` flag, which it receives as its first input.
class MotionController (M : Type) where
  submit         : MotionCommand → M → MotionResult × M
  poll           : Bool → M → MotionResult × Bool × M
  isReady        : M → Bool × M
  abort          : M → M
  setAbortActive : Bool → M → M

-- A property of the controller that the calls of the executor keep.
structure MotionController.Keeps {M : Type} [MotionController M] (I : M → Prop) : Prop where
  submit  : ∀ {m c}, I m → I (MotionController.submit c m).2
  poll    : ∀ {m b}, I m → I (MotionController.poll b m).2.2
  isReady : ∀ {m}, I m → I (MotionController.isReady m).2

inductive ExtruderResult
  | accepted
  | inProgress
  | completed
  | rejected
  | faulted
  deriving DecidableEq, Repr

structure ExtruderControllerStub where
  busy : Bool := false

namespace ExtruderControllerStub

def isReady (e : ExtruderControllerStub) : Bool :=
  !e.busy

def poll (_ : ExtruderControllerStub) : ExtruderResult × ExtruderControllerStub :=
  (.completed, { busy := false })

end ExtruderControllerStub
end Firmware
