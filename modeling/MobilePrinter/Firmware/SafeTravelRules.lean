import MobilePrinter.Firmware.MachineState

-- `safe_travel_rules.cpp` and what it reads of `printed_volume.cpp`.

namespace Firmware

-- The heights are floats. Of their arithmetic only the comparisons matter here.
structure PrintedVolume (R : Type) where
  sx     : UInt32
  height : List R

namespace PrintedVolume

variable {R : Type} [LE R] [DecidableLE R]

def idx (v : PrintedVolume R) (x y : UInt32) : Nat :=
  y.toNat * v.sx.toNat + x.toNat

-- `none` stands for an access behind the end of the array.
def maxHeight (v : PrintedVolume R) (x y : UInt32) : Option R :=
  v.height[v.idx x y]?

def lateralSafe (v : PrintedVolume R) (z : R) : Bool :=
  v.height.all fun h => !decide (h ≥ z)

end PrintedVolume

namespace SafeTravelRules

variable {R : Type}

-- The height `z` is a double, which `narrow` casts to a float.
def canLateral [LE R] [DecidableLE R] (narrow : R → R) (s : MachineState) (v : PrintedVolume R)
    (z : R) : Bool :=
  s.safety.state == .ok && v.lateralSafe (narrow z)

def canDescend [LT R] [DecidableLT R] (s : MachineState) (v : PrintedVolume R) (x y : UInt32)
    (z : R) : Option Bool :=
  if s.safety.state == .ok then
    (v.maxHeight x y).map fun h => decide (z > h)
  else
    some false

end SafeTravelRules
end Firmware
