import Mathlib.Algebra.Order.Field.Basic
import Mathlib.Order.Interval.Set.Basic
import Mathlib.Tactic.Ring
import Mathlib.Tactic.SplitIfs

namespace Smoothing

variable {α : Type*} {rate target current lower upper value : α}

section Clamping

variable [LinearOrder α]

-- `std::clamp`.
def clamp (value lower upper : α) : α :=
  if value < lower then lower else if upper < value then upper else value

theorem clamp_mem (h : lower ≤ upper) : clamp value lower upper ∈ Set.Icc lower upper := by
  rw [clamp]
  split
  case isTrue     => exact ⟨le_refl _, h⟩
  case isFalse hl =>
    split
    case isTrue     => exact ⟨h, le_refl _⟩
    case isFalse hu => exact ⟨not_lt.mp hl, not_lt.mp hu⟩

theorem clamp_of_mem (h : value ∈ Set.Icc lower upper) : clamp value lower upper = value := by
  rw [clamp, if_neg (not_lt.mpr h.left), if_neg (not_lt.mpr h.right)]

theorem le_clamp (hv : current ≤ value) (hu : current ≤ upper) :
    current ≤ clamp value lower upper := by
  rw [clamp]
  split_ifs with h
  case pos => exact hv.trans h.le
  case pos => exact hu
  case neg => exact hv

end Clamping

variable [Field α]

def smooth (rate target current : α) : α :=
  current + (target - current) * rate

theorem smooth_eq : smooth rate target current = (1 - rate) * current + rate * target := by
  rw [smooth]
  ring

variable [LinearOrder α] [IsStrictOrderedRing α]

theorem smooth_mem (hr : rate ∈ Set.Icc 0 1) (ht : target ∈ Set.Icc lower upper)
    (hc : current ∈ Set.Icc lower upper) : smooth rate target current ∈ Set.Icc lower upper := by
  have h₁ : 0 ≤ 1 - rate := sub_nonneg.mpr hr.right
  have h₀ : 0 ≤ rate     := hr.left
  rw [smooth_eq]
  constructor
  case left =>
    calc lower = (1 - rate) * lower + rate * lower     := by ring
             _ ≤ (1 - rate) * current + rate * target  := by gcongr; exacts [hc.left, ht.left]
  case right =>
    calc (1 - rate) * current + rate * target
               ≤ (1 - rate) * upper + rate * upper     := by gcongr; exacts [hc.right, ht.right]
             _ = upper                                 := by ring

theorem abs_smooth_le (hr : rate ∈ Set.Icc 0 1) (ht : |target| ≤ upper) (hc : |current| ≤ upper) :
    |smooth rate target current| ≤ upper :=
  abs_le.mpr (smooth_mem hr (abs_le.mp ht) (abs_le.mp hc))

theorem abs_clamp_le (h : 0 ≤ upper) : |clamp value (-upper) upper| ≤ upper :=
  abs_le.mpr (clamp_mem (neg_le_self h))

end Smoothing
