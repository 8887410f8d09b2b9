import Mathlib.Algebra.Order.Group.Abs
import Mathlib.Order.Interval.Set.Basic

namespace Approach

variable {α : Type*} [AddCommGroup α] [LinearOrder α]
variable {size target current lower upper : α}

def approach (size target current : α) : α :=
  if size < |target - current|
  then current + if 0 < target - current then size else -size
  else target

theorem approach_of_le (h : |target - current| ≤ size) : approach size target current = target :=
  if_neg (not_lt.mpr h)

theorem approach_of_below (h : 0 < target - current) (hs : size < |target - current|) :
    approach size target current = current + size := by
  rw [approach, if_pos hs, if_pos h]

theorem approach_of_above (h : ¬0 < target - current) (hs : size < |target - current|) :
    approach size target current = current - size := by
  rw [approach, if_pos hs, if_neg h, sub_eq_add_neg]

theorem abs_approach_sub_le_iff : |approach size target current - current| ≤ bound ↔
    |size| ≤ bound ∨ |target - current| ≤ size ∧ |target - current| ≤ bound := by
  by_cases hs : size < |target - current|
  case neg =>
    rw [approach_of_le (not_lt.mp hs)]
    constructor
    case mp => exact fun h => .inr ⟨not_lt.mp hs, h⟩
    case mpr =>
      rintro (h | h)
      case inl => exact (not_lt.mp hs).trans ((le_abs_self size).trans h)
      case inr => exact h.right
  case pos =>
    have hd : |approach size target current - current| = |size| := by
      by_cases h : 0 < target - current
      case pos => rw [approach_of_below h hs, add_sub_cancel_left]
      case neg => rw [approach_of_above h hs, sub_sub_cancel_left, abs_neg]
    rw [hd]
    constructor
    case mp  => exact .inl
    case mpr => exact fun h => h.resolve_right fun h => absurd h.left (not_le.mpr hs)

variable [IsOrderedAddMonoid α]

theorem approach_zero : approach 0 target current = current := by
  by_cases h : target - current = 0
  case pos =>
    rw [approach_of_le (by rw [h, abs_zero])]
    exact sub_eq_zero.mp h
  case neg =>
    rw [approach, if_pos (abs_pos.mpr h), neg_zero, ite_self, add_zero]

theorem approach_mem (ht : target ∈ Set.Icc lower upper)
    (hc : current ∈ Set.Icc (lower - size) (upper + size)) :
    approach size target current ∈ Set.Icc lower upper := by
  by_cases hs : size < |target - current|
  case neg =>
    rw [approach_of_le (not_lt.mp hs)]
    exact ht
  case pos =>
    by_cases h : 0 < target - current
    case pos =>
      rw [approach_of_below h hs]
      rw [abs_of_pos h, lt_sub_iff_add_lt'] at hs
      exact ⟨sub_le_iff_le_add.mp hc.left, hs.le.trans ht.right⟩
    case neg =>
      rw [approach_of_above h hs]
      rw [abs_of_nonpos (not_lt.mp h), neg_sub, lt_sub_comm] at hs
      exact ⟨ht.left.trans hs.le, sub_le_iff_le_add.mpr hc.right⟩

theorem abs_sub_approach_le (h : |target - current| ≤ bound + size) (hb : 0 ≤ bound) :
    |target - approach size target current| ≤ bound := by
  by_cases hs : size < |target - current|
  case neg =>
    rw [approach_of_le (not_lt.mp hs), sub_self, abs_zero]
    exact hb
  case pos =>
    by_cases hp : 0 < target - current
    case pos =>
      rw [abs_of_pos hp] at h hs
      rw [approach_of_below hp (by rwa [abs_of_pos hp]), ← sub_sub, abs_of_pos (sub_pos.mpr hs)]
      exact sub_le_iff_le_add.mpr h
    case neg =>
      have hp := not_lt.mp hp
      rw [abs_of_nonpos hp] at h hs
      have hn : target - current + size < 0 := by
        rw [add_comm]
        exact lt_neg_iff_add_neg.mp hs
      rw [approach_of_above (not_lt.mpr hp) (by rwa [abs_of_nonpos hp]), ← sub_add, abs_of_neg hn,
        neg_add, ← sub_eq_add_neg]
      exact sub_le_iff_le_add.mpr h

end Approach
