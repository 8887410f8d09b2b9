import Mathlib.Analysis.SpecialFunctions.Complex.Arg

-- The functions of <cmath> that programs call, and `M_PI`.
class Cmath (R : Type*) where
  sqrt  : R → R
  sin   : R → R
  cos   : R → R
  atan2 : R → R → R
  pi    : R

-- In exact arithmetic they are the functions that they approximate.
noncomputable instance : Cmath ℝ where
  sqrt      := Real.sqrt
  sin       := Real.sin
  cos       := Real.cos
  atan2 y x := Complex.arg ⟨x, y⟩
  pi        := Real.pi
