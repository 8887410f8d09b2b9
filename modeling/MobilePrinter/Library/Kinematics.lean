import Mathlib
import MobilePrinter.Library.Cmath
import MobilePrinter.Library.Smoothing

namespace Kinematics

open Complex Smoothing

-- Seen in another frame: where the origin is, and how far the frame is turned.
structure Frame (R : Type*) where
  x   : R
  y   : R
  z   : R
  yaw : R

namespace Frame

section

variable {R : Type*} [Ring R] [Cmath R]

def shift (x y z : R) : Frame R where
  x   := x
  y   := y
  z   := z
  yaw := 0

def turn (yaw : R) : Frame R where
  x   := 0
  y   := 0
  z   := 0
  yaw := yaw

-- A frame that is given in the frame `a`.
def comp (a b : Frame R) : Frame R where
  x   := a.x + (b.x * Cmath.cos a.yaw - b.y * Cmath.sin a.yaw)
  y   := a.y + (b.x * Cmath.sin a.yaw + b.y * Cmath.cos a.yaw)
  z   := a.z + b.z
  yaw := a.yaw + b.yaw

end

variable {a b : Frame ℝ} {x y z yaw : ℝ}

def plan (a : Frame ℝ) : ℂ :=
  ⟨a.x, a.y⟩

@[simp]
theorem plan_shift : (shift x y z : Frame ℝ).plan = x + y * I :=
  mk_eq_add_mul_I x y

@[simp]
theorem plan_turn : (turn yaw : Frame ℝ).plan = 0 :=
  rfl

@[simp]
theorem yaw_shift : (shift x y z : Frame ℝ).yaw = 0 :=
  rfl

@[simp]
theorem yaw_turn : (turn yaw : Frame ℝ).yaw = yaw :=
  rfl

@[simp]
theorem z_shift : (shift x y z : Frame ℝ).z = z :=
  rfl

@[simp]
theorem z_turn : (turn yaw : Frame ℝ).z = 0 :=
  rfl

@[simp]
theorem yaw_comp : (a.comp b).yaw = a.yaw + b.yaw :=
  rfl

@[simp]
theorem z_comp : (a.comp b).z = a.z + b.z :=
  rfl

@[simp]
theorem plan_comp : (a.comp b).plan = a.plan + b.plan * exp (I * a.yaw) := by
  have hc := exp_ofReal_mul_I_re a.yaw
  have hs := exp_ofReal_mul_I_im a.yaw
  rw [mul_comm I]
  apply Complex.ext <;> simp only [plan, comp, add_re, add_im, mul_re, mul_im, hc, hs] <;> rfl

end Frame

noncomputable def along (distance direction : ℝ) : ℂ :=
  distance * exp (I * direction)

theorem norm_along (h : 0 ≤ distance) : ‖along distance direction‖ = distance := by
  rw [along, norm_mul, norm_exp_I_mul_ofReal, mul_one, norm_real, Real.norm_of_nonneg h]

theorem along_arg (p : ℂ) : along ‖p‖ p.arg = p := by
  rw [along, mul_comm I, norm_mul_exp_arg_mul_I]

theorem dist_along_left (x y direction : ℝ) :
    dist (along x direction) (along y direction) = |x - y| := by
  rw [along, along, dist_eq, ← sub_mul, norm_mul, norm_exp_I_mul_ofReal, mul_one, ← ofReal_sub,
    norm_real, Real.norm_eq_abs]

theorem dist_along_turned (h : 0 ≤ distance) (direction turned : ℝ) :
    dist (along distance (turned + direction)) (along distance direction) ≤
      distance * |turned| := by
  have he : along distance (turned + direction) - along distance direction =
      along distance direction * (exp (I * turned) - 1) := by
    rw [along, along, ofReal_add, mul_add, exp_add]
    ring
  rw [dist_eq, he, norm_mul, norm_along h]
  exact mul_le_mul_of_nonneg_left Real.norm_exp_I_mul_ofReal_sub_one_le h

theorem abs_norm_sub_le_dist (p q : ℂ) : |‖p‖ - ‖q‖| ≤ dist p q :=
  (abs_norm_sub_norm_le p q).trans_eq (dist_eq p q).symm

section Clamping

variable {α : Type*} [Field α] [LinearOrder α] [IsStrictOrderedRing α]

theorem clamp_sub_add {lower upper value offset : α} :
    clamp (value - offset) lower upper + offset =
      clamp value (lower + offset) (upper + offset) := by
  simp only [clamp, sub_lt_iff_lt_add, lt_sub_iff_add_lt]
  split_ifs
  case pos => rfl
  case pos => rfl
  case neg => exact sub_add_cancel value offset

theorem abs_clamp_sub_le {lower upper value other : α} (h : other ∈ Set.Icc lower upper) :
    |clamp value lower upper - value| ≤ |other - value| := by
  rw [clamp]
  split_ifs with hl hu
  case pos =>
    rw [abs_of_pos (sub_pos.mpr hl), abs_of_pos (sub_pos.mpr (hl.trans_le h.left))]
    exact sub_le_sub_right h.left value
  case pos =>
    rw [abs_of_neg (sub_neg.mpr hu), abs_of_neg (sub_neg.mpr (h.right.trans_lt hu))]
    exact neg_le_neg (sub_le_sub_right h.right value)
  case neg =>
    rw [sub_self, abs_zero]
    exact abs_nonneg _

theorem abs_clamp_sub_le_of_mem {lower upper other : α} (h : other ∈ Set.Icc lower upper)
    (value : α) :
    |clamp value lower upper - other| ≤ |value - other| := by
  rw [clamp]
  split_ifs with hl hu
  case pos =>
    rw [abs_of_nonpos (sub_nonpos.mpr h.left), abs_of_neg (sub_neg.mpr (hl.trans_le h.left))]
    exact neg_le_neg (sub_le_sub_right hl.le other)
  case pos =>
    rw [abs_of_nonneg (sub_nonneg.mpr h.right), abs_of_pos (sub_pos.mpr (h.right.trans_lt hu))]
    exact sub_le_sub_right hu.le other
  case neg => exact le_refl _

end Clamping

theorem dist_aimed (base target : ℂ) (radius : ℝ) :
    dist (base + along radius (target - base).arg) target = |radius - ‖target - base‖| := by
  have h := dist_along_left radius ‖target - base‖ (target - base).arg
  rw [along_arg, dist_eq] at h
  rw [← h, dist_eq]
  congr 1
  ring

-- An arm that is aimed at a point and extended as far as it gets towards it, up to a slack, and
-- that is then turned away, misses the point by little more than any other point within reach.
theorem dist_reach_le {base target other : ℂ} {radius lower upper slack : ℝ}
    (hr : |radius - clamp ‖target - base‖ lower upper| ≤ slack) (h₀ : 0 ≤ radius)
    (ho : ‖other - base‖ ∈ Set.Icc lower upper) (turned : ℝ) :
    dist (base + along radius (turned + (target - base).arg)) target ≤
      dist other target + slack + radius * |turned| := by
  have ht := dist_along_turned h₀ (target - base).arg turned
  rw [← dist_add_left base] at ht
  have hc : |clamp ‖target - base‖ lower upper - ‖target - base‖| ≤ dist other target := by
    refine (abs_clamp_sub_le ho).trans ((abs_norm_sub_le_dist _ _).trans_eq ?_)
    exact dist_sub_right other target base
  calc dist (base + along radius (turned + (target - base).arg)) target
         ≤ dist (base + along radius (turned + (target - base).arg))
               (base + along radius (target - base).arg) +
             dist (base + along radius (target - base).arg) target := dist_triangle _ _ _
       _ ≤ radius * |turned| + |radius - ‖target - base‖|           := by
             rw [dist_aimed]
             exact add_le_add_left ht _
       _ ≤ radius * |turned| + (|radius - clamp ‖target - base‖ lower upper| +
             |clamp ‖target - base‖ lower upper - ‖target - base‖|) := by
             gcongr
             exact abs_sub_le _ _ _
       _ ≤ dist other target + slack + radius * |turned|            := by linarith

end Kinematics
