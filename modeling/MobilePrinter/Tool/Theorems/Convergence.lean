import Mathlib.Algebra.Order.Archimedean.Real.Basic
import MobilePrinter.Library.Transition
import MobilePrinter.Tool.Theorems.Tracking

namespace Tool

open Settling Transition

inductive Axis
  | x
  | y
  | z
  deriving DecidableEq, Repr

namespace Axis

variable {R : Type*}

def offset : Axis → ToolCompensation R → R
  | x, msg => msg.dx
  | y, msg => msg.dy
  | z, msg => msg.dz

def current : Axis → ToolCompensationApplier R → R
  | x, s => s.currentDx
  | y, s => s.currentDy
  | z, s => s.currentDz

def target : Axis → ToolCompensationApplier R → R
  | x, s => s.targetDx
  | y, s => s.targetDy
  | z, s => s.targetDz

variable [Field R] [LinearOrder R]

def limit : Axis → R
  | x => maxX
  | y => maxY
  | z => maxZ

end Axis

namespace ToolCompensationApplier

variable {R : Type*} [Field R] [LinearOrder R] {s s' : ToolCompensationApplier R}
variable {msg : ToolCompensation R} {axis : Axis}

theorem current_callback (hv : msg.valid = true) : axis.current (s.compensationCallback msg) =
    approach axis.limit (retarget (axis.offset msg) (axis.target s)) (axis.current s) := by
  rw [compensationCallback, hv]
  cases axis <;> rfl

theorem target_callback (hv : msg.valid = true) : axis.target (s.compensationCallback msg) =
    retarget (axis.offset msg) (axis.target s) := by
  rw [compensationCallback, hv]
  cases axis <;> rfl

theorem current_iterate (hv : msg.valid = true) (n : Nat) :
    axis.current ((compensationCallback msg)^[n] s) =
      (approach axis.limit (retarget (axis.offset msg) (axis.target s)))^[n] (axis.current s) := by
  induction n generalizing s
  case zero      => rfl
  case succ n ih =>
    have hr : retarget (axis.offset msg) (axis.target (s.compensationCallback msg)) =
        retarget (axis.offset msg) (axis.target s) := by
      rw [target_callback hv, retarget, retarget]
      split <;> rfl
    rw [Function.iterate_succ_apply, Function.iterate_succ_apply, ih, hr, current_callback hv]

variable [IsStrictOrderedRing R]

theorem one_le_limit (axis : Axis) : (1 : R) ≤ axis.limit := by
  cases axis <;> norm_num [Axis.limit, maxX, maxY, maxZ]

theorem clear_next (h : ∀ axis : Axis, Clear axis.limit (axis.current s)) (hs : step i s = .ok s')
    (axis : Axis) : Clear axis.limit (axis.current s') := by
  cases hs
  cases i
  case tick => cases axis <;> exact h _
  case compensation msg =>
    cases hv : msg.valid
    case false =>
      rw [next, compensationCallback, hv]
      exact h axis
    case true =>
      rw [next, current_callback hv]
      exact approach_clear (by linarith [one_le_limit (R := R) axis])

theorem clear_boot (axis : Axis) : Clear (axis.limit : R) (axis.current boot) := by
  have hc : axis.current (boot : ToolCompensationApplier R) = 0 := by
    cases axis <;> norm_num [Axis.current, boot]
  rw [hc]
  exact ⟨abs_zero.trans_le (by linarith [one_le_limit (R := R) axis]), .inl rfl⟩

theorem clear_run (e : Run step boot is s) : ∀ axis : Axis, Clear axis.limit (axis.current s) :=
  e.invariant (I := fun s => ∀ axis : Axis, Clear axis.limit (axis.current s)) clear_next clear_boot

end ToolCompensationApplier

open ToolCompensationApplier

section Convergence

variable {R : Type*} [Field R] [LinearOrder R]

-- While the compensation is repeated, the offset of the axis comes nearer to it with each message
-- until it is within the deadband, where it stays, and the offset never exceeds its limit.
def Tracks (axis : Axis) (msg : ToolCompensation R) (s : ToolCompensationApplier R) : Prop :=
  (Settles 0.01 fun n => |axis.current ((compensationCallback msg)^[n] s) - axis.offset msg|) ∧
  ∀ n, |axis.current ((compensationCallback msg)^[n] s)| ≤ axis.limit

-- When the offset of an axis converges to the compensation.
def Converges (compensation target current : R) : Prop :=
  if 0.0001 < |compensation|
  then Overcomes compensation current
  else Harmless compensation target current

def along (dx dy dz : R) : ToolCompensation R where
  dx    := dx
  dy    := dy
  dz    := dz
  valid := true

def between : ToolCompensation R :=
  along 0.05 0 0

end Convergence

theorem converges_iff {s : ToolCompensationApplier ℝ} {msg : ToolCompensation ℝ}
    (e : Run step boot is s) (hv : msg.valid = true)
    (hr : ∀ axis : Axis, |axis.offset msg| ≤ axis.limit) :
    (∀ axis : Axis, Tracks axis msg s) ↔
      ∀ axis : Axis, Converges (axis.offset msg) (axis.target s) (axis.current s) := by
  refine forall_congr' fun axis => ?_
  have hc := clear_run e axis
  have hl := one_le_limit (R := ℝ) axis
  have hb (n) : |axis.current ((compensationCallback msg)^[n] s)| ≤ axis.limit := by
    rw [current_iterate hv]
    exact (iterate_invariant (fun _ _ => approach_clear (by linarith)) hc n).bounded
  rw [Tracks, and_iff_left hb, Converges]
  simp only [current_iterate hv]
  split
  case isTrue hd =>
    rw [retarget, if_pos hd]
    exact settles_followed_iff hd (hr axis) hl hc
  case isFalse hd =>
    rw [retarget, if_neg hd]
    exact settles_retained_iff (not_lt.mp hd) hl hc

theorem along_within {dx dy dz : ℝ} (hx : |dx| ≤ 3) (hy : |dy| ≤ 3) (hz : |dz| ≤ 1) (axis : Axis) :
    |axis.offset (along dx dy dz)| ≤ axis.limit := by
  cases axis <;> norm_num [Axis.offset, Axis.limit, along, maxX, maxY, maxZ] <;> assumption

theorem converges_iff_large : Run step boot [] (boot : ToolCompensationApplier ℝ) ∧
    ∀ axis : Axis, Tracks axis (along 1 0 1) (boot : ToolCompensationApplier ℝ) := by
  have hw : ∀ axis : Axis, |axis.offset (along (1 : ℝ) 0 1)| ≤ axis.limit :=
    along_within (by norm_num) (by norm_num) (by norm_num)
  have hc (axis : Axis) : Converges (axis.offset (along (1 : ℝ) 0 1))
      (axis.target (boot : ToolCompensationApplier ℝ)) (axis.current boot) := by
    cases axis <;> norm_num [Converges, Axis.offset, along, boot, Overcomes, Harmless, Axis.target]
  exact ⟨.refl, (converges_iff .refl rfl hw).mpr hc⟩

-- A compensation of 0.05 never moves the tool: each step from zero is caught in the deadband.
theorem not_converges_between :
    (∀ axis : Axis, |axis.offset (between : ToolCompensation ℝ)| ≤ axis.limit) ∧
    ¬∀ axis : Axis, Tracks axis between (boot : ToolCompensationApplier ℝ) := by
  refine ⟨along_within (by norm_num) (by norm_num) (by norm_num), fun hs => ?_⟩
  have hs := (hs .x).left
  have hr : retarget (Axis.offset .x between) (Axis.target .x boot) = (0.05 : ℝ) :=
    if_pos (by norm_num [Axis.offset, between, along])
  have hc : Axis.current .x (boot : ToolCompensationApplier ℝ) ≤ 0 := by
    norm_num [Axis.current, boot]
  have hl : (0.05 : ℝ) ≤ Axis.limit .x := by
    norm_num [Axis.limit, maxX]
  have hv : (between : ToolCompensation ℝ).valid = true := rfl
  simp only [current_iterate hv, hr] at hs
  exact not_settles_between (by norm_num) (by norm_num) hl hc (clear_boot .x) hs

end Tool
