import Mathlib.Logic.Function.Basic

-- The axes of the machine as `motion_executor.hpp` and `initializeAxisConfiguration` have them.

namespace Executor

-- The operations on doubles that the executor performs. Nothing is assumed about their results.
class Arithmetic (R : Type*) extends
    Add R, Sub R, Mul R, Neg R, OfScientific R, LT R, LE R where
  [toDecidableLT : DecidableLT R]
  [toDecidableLE : DecidableLE R]

attribute [reducible, instance] Arithmetic.toDecidableLT Arithmetic.toDecidableLE

inductive AxisType
  | structuralLinear
  | structuralRotary
  | toolExtruder
  | toolRotary
  | auxiliary
  deriving DecidableEq, Repr

inductive AxisState
  | disabled
  | idle
  | armed
  | fault
  | estop
  deriving DecidableEq, Repr

structure AxisRuntime where
  state              : AxisState := .disabled
  hardLimitTriggered : Bool      := false
  softLimitTriggered : Bool      := false
  driveFault         : Bool      := false
  deriving DecidableEq, Repr

-- The axis authority check refuses an axis in this state.
def AxisRuntime.Refused (axis : AxisRuntime) : Prop :=
  axis.state = .disabled ∨ axis.state = .fault ∨ axis.state = .estop

instance : DecidablePred AxisRuntime.Refused :=
  fun _ => inferInstanceAs (Decidable (_ ∨ _))

structure AxisConfig (R : Type*) where
  type        : AxisType
  maxVelocity : R
  minPosition : R
  maxPosition : R

variable {R : Type*} [Arithmetic R]

def structuralConfig : AxisConfig R where
  type        := .structuralLinear
  maxVelocity := 0.5
  minPosition := 0.0
  maxPosition := 2.0

def extruderConfig : AxisConfig R where
  type        := .toolExtruder
  maxVelocity := 10.0
  minPosition := -1e9
  maxPosition := 1e9

-- `axis_config_map_`, to which nothing is added after the construction of the node.
def axisConfigs : List (String × AxisConfig R) := [
  ("base_to_mast_joint",     structuralConfig),
  ("carriage_to_tool_joint", structuralConfig),
  ("mast_to_carriage_joint", structuralConfig),
  ("tool_mount_joint",       extruderConfig)]

def axisConfig (name : String) : Option (AxisConfig R) :=
  axisConfigs.lookup name

variable (R) in
def Configured (name : String) : Prop :=
  (axisConfig name : Option (AxisConfig R)).isSome

instance : Decidable (Configured R name) :=
  inferInstanceAs (Decidable (_ = true))

variable (R) in
def isStructuralAxis (name : String) : Bool :=
  match (axisConfig name : Option (AxisConfig R)) with
  | none     => false
  | some cfg => cfg.type = .structuralLinear ∨ cfg.type = .structuralRotary

abbrev AxisRuntimes :=
  String → Option AxisRuntime

namespace AxisRuntimes

def initial : AxisRuntimes :=
  fun name => List.lookup name [
    ("base_to_mast_joint",     { state := .idle }),
    ("carriage_to_tool_joint", { state := .idle }),
    ("mast_to_carriage_joint", { state := .idle }),
    ("tool_mount_joint",       { state := .idle })]

-- The entry that indexing the map yields, which is a new one if there is none.
def entry (axes : AxisRuntimes) (name : String) : AxisRuntime :=
  (axes name).getD {}

def set (axes : AxisRuntimes) (name : String) (axis : AxisRuntime) : AxisRuntimes :=
  Function.update axes name (some axis)

-- The axis authority check, up to the first axis that it refuses. It leaves an entry for every axis
-- that it looks up.
def authorize (axes : AxisRuntimes) : List String → Bool × AxisRuntimes
  | []            => (true, axes)
  | name :: names =>
    let axis := axes.entry name
    let axes := axes.set name axis
    if axis.Refused then (false, axes) else authorize axes names

def latch (axes : AxisRuntimes) (name : String) : AxisRuntimes :=
  axes.set name { axes.entry name with hardLimitTriggered := true, state := .fault }

def arm (axes : AxisRuntimes) (names : List String) : AxisRuntimes :=
  names.foldl (fun axes name => axes.set name { axes.entry name with state := .armed }) axes

def reset (axes : AxisRuntimes) : AxisRuntimes :=
  fun name => (axes name).map ({ · with hardLimitTriggered := false, state := .idle })

end AxisRuntimes
end Executor
