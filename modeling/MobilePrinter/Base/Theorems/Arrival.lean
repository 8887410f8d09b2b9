import MobilePrinter.Base.Theorems.Envelope

namespace Base

open Serving Smoothing Transition
open scoped Real

namespace BaseMotionController

variable {s s' s₁ : BaseMotionController ℝ}

section Heading

theorem atan2_mem : Cmath.atan2 y x ∈ Set.Icc (-π) π :=
  ⟨(Complex.neg_pi_lt_arg _).le, Complex.arg_le_pi _⟩

theorem reduce_eq (yaw : ℝ) : reduce yaw = if π < yaw then yaw - 2 * π else yaw := by
  norm_num [reduce, rounds, loop, Cmath.pi]

theorem raise_eq (yaw : ℝ) : raise yaw = if yaw < -π then yaw + 2 * π else yaw := by
  norm_num [raise, rounds, loop, Cmath.pi]

theorem reduce_mem (h : yaw ∈ Set.Icc (-(2 * π)) (2 * π)) : reduce yaw ∈ Set.Icc (-(2 * π)) π := by
  have hp := Real.pi_pos
  have ⟨hl, hu⟩ := h
  rw [reduce_eq]
  split <;> constructor <;> linarith

theorem raise_mem (h : yaw ∈ Set.Icc (-(2 * π)) π) : raise yaw ∈ Set.Icc (-π) π := by
  have hp := Real.pi_pos
  have ⟨hl, hu⟩ := h
  rw [raise_eq]
  split <;> constructor <;> linarith

theorem normalize_of_mem (h : yaw ∈ Set.Icc (-π) π) : normalize yaw = yaw := by
  rw [normalize, reduce_eq, if_neg (not_lt.mpr h.right), raise_eq, if_neg (not_lt.mpr h.left)]

theorem Takes.heading (h : Takes s s₁) : s₁.currentTheta = s.currentTheta := by
  cases h
  case current => rfl
  case next    => rfl

theorem heading_mem (e : Run step (boot cmd) is s) : s.currentTheta ∈ Set.Icc (-π) π := by
  refine e.invariant (I := fun s => s.currentTheta ∈ Set.Icc (-π) π) ?_ ?_
  case refine_1 =>
    intro i s s' h hs
    cases step_moves hs
    case queued        => exact h
    case measured      => exact atan2_mem
    case rested        => exact h
    case drove ht _    => simpa [ht.heading] using h
    case finished ht _ => simpa [ht.heading] using h
  case refine_2 =>
    have hp := Real.pi_pos
    constructor <;> norm_num [boot] <;> linarith

theorem yaw_mem (e : Run step (boot cmd) is s) : s.poseError.yaw ∈ Set.Icc (-π) π := by
  have ⟨hl, hu⟩ := heading_mem e
  have ⟨ha, hb⟩ := atan2_mem (y := s.current.ty - s.currentY) (x := s.current.tx - s.currentX)
  apply raise_mem
  apply reduce_mem
  constructor <;> linarith

end Heading

def completed (s : BaseMotionController ℝ) : List (ActiveCommand ℝ) :=
  finished (marks s.published)

-- Some update on the run has been about the command, with the base known to be near its target.
def Approached (base : ActiveCommand ℝ) (is : List (Input ℝ)) (cmd : ActiveCommand ℝ) : Prop :=
  ∃ is₁ is₂ s, is = is₁ ++ .tick :: is₂ ∧ Run step (boot base) is₁ s ∧ s.pursued? = some cmd ∧
    cmd.distance s.currentX s.currentY < 0.05

theorem Approached.concat (h : Approached base is cmd) : Approached base (is ++ [i]) cmd := by
  have ⟨is₁, is₂, s, hi, h⟩ := h
  exact ⟨is₁, is₂ ++ [i], s, by rw [hi, List.append_assoc, List.cons_append], h⟩

-- The base stops only at targets that it has approached.
def Stops (base : ActiveCommand ℝ) (is : List (Input ℝ)) (s : BaseMotionController ℝ) : Prop :=
  s.stopping = true → Approached base is s.current

theorem Stops.keep (h : Stops base is s) (hs : s'.stopping = s.stopping)
    (hc : s'.current = s.current) : Stops base (is ++ [i]) s' := by
  rw [Stops, hs, hc]
  exact fun hs => (h hs).concat

theorem Stops.drive (h : Stops base is s) (e : Run step (boot base) is s) (ht : Takes s s₁) :
    Stops base (is ++ [.tick]) (s₁.drive 0.02) := by
  intro hs
  rw [drive_stopping, Bool.or_eq_true, decide_eq_true_eq] at hs
  rw [drive_current]
  cases hs
  case inl hs =>
    have ⟨hs, _, he⟩ := ht.stopping hs
    exact he ▸ (h hs).concat
  case inr hd =>
    have ⟨hx, hy⟩ := ht.position
    refine ⟨is, [], s, rfl, e, ht.pursued, ?_⟩
    rw [← hx, ← hy]
    exact hd

theorem Stops.next (h : Stops base is s) (e : Run step (boot base) is s) (m : Moves s i s') :
    Stops base (is ++ [i]) s' := by
  cases m
  case queued        => exact h.keep rfl rfl
  case measured      => exact h.keep rfl rfl
  case rested        => exact h.keep rfl rfl
  case drove ht _    => exact h.drive e ht
  case finished ht _ => exact nofun

theorem Stops.run (e : Run step (boot base) is s) : Stops base is s :=
  e.history (fun e h hs => h.next e (step_moves hs)) nofun

theorem completed_takes (h : Takes s s₁) : s₁.completed = s.completed := by
  cases h
  case current => rfl
  case next    =>
    rw [completed, start, publish, marks_cons]
    exact finished_cons.trans (List.append_nil _)

theorem completed_drive : (s.drive dt).completed = s.completed :=
  congrArg finished drive_marks

theorem completed_publish (he : e.mark?.bind Mark.finished? = none) :
    (s.publish e).completed = s.completed := by
  rw [completed, publish, marks_cons]
  cases hm : e.mark?
  case none   => rfl
  case some m =>
    rw [hm] at he
    have he : m.finished? = none := he
    simp [completed, finished_cons, he]

theorem completed_finish : s.finish.completed = s.completed ++ [s.current] := by
  rw [completed, finish, publish, marks_cons]
  exact finished_cons

theorem Moves.completes (m : Moves s i s') (hc : s'.completed = s.completed ++ [cmd]) :
    ∃ s₁, i = .tick ∧ Takes s s₁ ∧ cmd = s₁.current ∧ (s₁.drive 0.02).Finishes ∧
      s' = (s₁.drive 0.02).finish.publishState := by
  have hn : s'.completed ≠ s.completed := by simp [hc]
  cases m
  case queued        => exact absurd (completed_publish rfl) hn
  case measured      => exact absurd (completed_publish rfl) hn
  case rested        => exact absurd (completed_publish rfl) hn
  case drove s₁ ht _ =>
    apply absurd _ hn
    exact (completed_publish rfl).trans (completed_drive.trans (completed_takes ht))
  case finished s₁ ht hf =>
    refine ⟨s₁, rfl, ht, ?_, hf, rfl⟩
    have h : (s₁.drive 0.02).finish.publishState.completed = s.completed ++ [s₁.current] := by
      rw [publishState, completed_publish rfl, completed_finish, completed_drive,
        completed_takes ht, drive_current]
    rw [h, List.append_cancel_left_eq, List.singleton_inj] at hc
    exact hc.symm

end BaseMotionController

open BaseMotionController

section Drift

-- The base is sent one metre ahead.
def ahead : BaseMotionCommand ℝ where
  sequenceId      := 1
  targetX         := 1
  targetY         := 0
  targetTheta     := 0
  linearVelocity  := 0
  angularVelocity := 0

def located (x : ℝ) : Odometry ℝ where
  stamp := 0
  x     := x
  y     := 0
  qw    := 1
  qx    := 0
  qy    := 0
  qz    := 0

-- The base is on its way, on the line to the target and heading along it.
structure OnLine (x v : ℝ) (b : Bool) (s : BaseMotionController ℝ) : Prop where
  active   : s.active = true
  current  : s.current = ahead.queued 0
  position : s.currentX = x ∧ s.currentY = 0
  heading  : s.currentTheta = 0
  velocity : s.currentVx = v
  turning  : s.currentWz = 0
  stopping : s.stopping = b

theorem atan2_zero (x : ℝ) : Cmath.atan2 0 x = if 0 ≤ x then 0 else π := by
  have h : Cmath.atan2 0 x = Complex.arg (x : ℂ) := rfl
  rw [h]
  split
  case isTrue hx  => exact Complex.arg_ofReal_of_nonneg hx
  case isFalse hx => exact Complex.arg_ofReal_of_neg (not_le.mp hx)

namespace OnLine

variable {s s₁ : BaseMotionController ℝ}

theorem error (h : OnLine x v b s) :
    s.poseError = { dist := |1 - x|, forward := 1 - x, yaw := if 0 ≤ 1 - x then 0 else π } := by
  have hd : (ahead.queued 0).distance x 0 = |1 - x| := by
    have h : (ahead.queued 0).distance x 0 = √((1 - x) * (1 - x) + (0 - 0) * (0 - 0)) := rfl
    rw [h, sub_zero, mul_zero, add_zero, Real.sqrt_mul_self_eq_abs]
  have hy : normalize (Cmath.atan2 (0 - 0) (1 - x) - 0) = if 0 ≤ 1 - x then 0 else π := by
    rw [sub_zero, sub_zero, normalize_of_mem atan2_mem, atan2_zero]
  have hc : (ahead.queued 0).tx = 1 ∧ (ahead.queued 0).ty = 0 := ⟨rfl, rfl⟩
  have hf : Cmath.cos (0 : ℝ) = 1 ∧ Cmath.sin (0 : ℝ) = 0 := ⟨Real.cos_zero, Real.sin_zero⟩
  rw [poseError, h.current, h.position.left, h.position.right, h.heading, hd]
  simp only [hc, hf, hy]
  simp

theorem targets_before (h : OnLine 0 v b s) : s.poseError.targets = (0.4, 0) := by
  rw [h.error]
  norm_num [PoseError.targets, clamp]

theorem targets_at (h : OnLine 1 v b s) : s.poseError.targets = (0, 0) := by
  rw [h.error]
  norm_num [PoseError.targets]

theorem targets_behind (h : OnLine 2 v b s) : s.poseError.targets = (0, 0.5) := by
  have hp := Real.two_le_pi
  have hn : ¬|π| < 0.5 := by
    rw [abs_of_pos Real.pi_pos]
    norm_num
    linarith
  have hc : clamp (π * 2.0) (-0.5) 0.5 = 0.5 := by
    rw [clamp, if_neg (by linarith), if_pos (by linarith)]
  have hy : (if (0 : ℝ) ≤ 1 - 2 then 0 else π) = π := if_neg (by norm_num)
  rw [h.error, hy, PoseError.targets, if_pos (by norm_num), if_neg hn, hc]
  norm_num

theorem measure (h : OnLine x v b s) (x' : ℝ) : OnLine x' v b (s.next (.odom (located x'))) where
  active   := h.active
  current  := h.current
  position := ⟨rfl, rfl⟩
  heading  := by
    have hy : (2.0 * (1 * 0 + 0 * 0) : ℝ) = 0 := by norm_num
    have hx : (0 : ℝ) ≤ 1.0 - 2.0 * (0 * 0 + 0 * 0) := by norm_num
    rw [next, odomCallback, publish]
    simp only [located]
    rw [hy, atan2_zero, if_pos hx]
  velocity := h.velocity
  turning  := h.turning
  stopping := h.stopping

theorem update (h : OnLine x v b s₁) (ht : Takes s s₁) (hu : s₁.poseError.targets = (u, 0))
    (hn : b = true ∨ s₁.poseError.dist < 0.05 → 0.05 ≤ |smooth 0.03 u v|) :
    OnLine x (smooth 0.03 u v) (b || decide (s₁.poseError.dist < 0.05)) (s.next .tick) := by
  have hf : ¬(s₁.drive 0.02).Finishes := by
    rw [Finishes, drive_stopping, drive_eq, hu, h.stopping, h.velocity]
    simp only [Bool.or_eq_true, decide_eq_true_eq]
    exact fun hf => absurd (hn hf.left) (not_le.mpr hf.right.left)
  have he : s.next .tick = (s₁.drive 0.02).publishState := by
    rw [next, ht.update, executeActive, if_neg hf]
  rw [he, publishState, publish, drive_eq, hu]
  exact {
    active   := h.active
    current  := h.current
    position := h.position
    heading  := h.heading
    velocity := by simp only [h.velocity]
    turning  := by simp only [h.turning, smooth, sub_zero, zero_mul, add_zero]
    stopping := by simp only [h.stopping] }

theorem depart (h : OnLine 0 v false s₁) (ht : Takes s s₁) :
    OnLine 0 (smooth 0.03 0.4 v) false (s.next .tick) := by
  have hd : ¬s₁.poseError.dist < 0.05 := by
    rw [h.error]
    norm_num
  have hu := h.update ht h.targets_before (by simp [hd])
  rwa [decide_eq_false hd] at hu

theorem slow (h : OnLine 1 v b s) (hv : 0.05 ≤ |smooth 0.03 0 v|) :
    OnLine 1 (smooth 0.03 0 v) true (s.next .tick) := by
  have hd : s.poseError.dist < 0.05 := by
    rw [h.error]
    norm_num
  have hu := h.update (.current h.active) h.targets_at fun _ => hv
  rwa [decide_eq_true hd, Bool.or_true] at hu

theorem pass (h : OnLine 2 v true s) (hv : |smooth 0.03 0 v| < 0.05) :
    (s.next .tick).completed = s.completed ++ [s.current] := by
  have ht := Takes.current h.active
  have hf : (s.drive 0.02).Finishes := by
    rw [Finishes, drive_stopping, drive_eq, h.targets_behind, h.stopping, h.velocity, h.turning]
    refine ⟨rfl, hv, ?_⟩
    norm_num [smooth]
  rw [next, ht.update, executeActive, if_pos hf, publishState, completed_publish rfl,
    completed_finish, completed_drive, drive_current]

end OnLine

-- Five updates on the way and four at the target, before the base has drifted on to `x`.
def drift (x : ℝ) : List (Input ℝ) :=
  [.command ahead, .tick, .tick, .tick, .tick, .tick, .odom (located 1), .tick, .tick, .tick, .tick,
    .odom (located x)]

theorem onLine_drift : ∃ v, OnLine 2 v true ((drift 2).foldl next (boot (ahead.queued 0))) ∧
    |smooth 0.03 0 v| < 0.05 := by
  let s : BaseMotionController ℝ := (boot (ahead.queued 0)).next (.command ahead)
  have ht : Takes s (s.start (ahead.queued 0) []) := .next rfl rfl
  have h₀ : OnLine 0 0 false (s.start (ahead.queued 0) []) := by
    constructor <;> norm_num [start, s, next, commandCallback, boot, publish]
  have h₁ := h₀.depart ht
  have h₂ := h₁.depart (.current h₁.active)
  have h₃ := h₂.depart (.current h₂.active)
  have h₄ := h₃.depart (.current h₃.active)
  have h₅ := h₄.depart (.current h₄.active)
  have h₆ := (h₅.measure 1).slow (by norm_num [smooth])
  have h₇ := h₆.slow (by norm_num [smooth])
  have h₈ := h₇.slow (by norm_num [smooth])
  have h₉ := h₈.slow (by norm_num [smooth])
  exact ⟨_, h₉.measure 2, by norm_num [smooth]⟩

-- Stopping is latched, and the distance is not looked at again when the base comes to rest.
theorem completes_after_approach {s s' : BaseMotionController ℝ} (e : Run step (boot base) is s)
    (hs : step i s = .ok s') (hc : s'.completed = s.completed ++ [cmd]) :
    Approached base (is ++ [i]) cmd ∧ |s'.currentVx| < 0.05 ∧ |s'.currentWz| < 0.05 := by
  have ⟨s₁, hi, ht, hcmd, hf, he⟩ := (step_moves hs).completes hc
  have ha := (Stops.run e).drive e ht hf.left
  rw [drive_current, ← hcmd, ← hi] at ha
  refine ⟨ha, ?_⟩
  rw [he]
  exact hf.right

theorem completes_after_approach_drift : ∃ s s' : BaseMotionController ℝ,
    Run step (boot (ahead.queued 0)) (drift 2) s ∧ step .tick s = .ok s' ∧
    Approached (ahead.queued 0) (drift 2 ++ [.tick]) (ahead.queued 0) ∧
    |s'.currentVx| < 0.05 ∧ |s'.currentWz| < 0.05 := by
  have ⟨v, h, hv⟩ := onLine_drift
  have hc := h.pass hv
  rw [h.current] at hc
  exact ⟨_, _, run_foldl, rfl, completes_after_approach run_foldl rfl hc⟩

-- The base has drifted a metre past its target when the command is completed.
theorem completes_beyond : ∃ (is : List (Input ℝ)) (s s' : BaseMotionController ℝ),
    Run step (boot (ahead.queued 0)) is s ∧ step .tick s = .ok s' ∧
    s'.completed = s.completed ++ [ahead.queued 0] ∧
    0.05 < (ahead.queued 0).distance s.currentX s.currentY := by
  have ⟨v, h, hv⟩ := onLine_drift
  generalize hs : (drift 2).foldl next (boot (ahead.queued 0)) = s at h
  have hd : s.current.distance s.currentX s.currentY = |1 - 2| := congrArg PoseError.dist h.error
  rw [h.current] at hd
  refine ⟨drift 2, s, s.next .tick, hs ▸ run_foldl, rfl, ?_, ?_⟩
  case refine_1 => rw [h.pass hv, h.current]
  case refine_2 =>
    rw [hd]
    norm_num

end Drift
end Base
