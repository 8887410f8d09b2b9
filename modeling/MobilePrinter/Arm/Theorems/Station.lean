import MobilePrinter.Base.Theorems.Arrival
import MobilePrinter.Arm.Theorems.Reach
import MobilePrinter.Fabrication.WorldMotionCoordinator

namespace Fabrication

noncomputable instance : Arithmetic ℝ where
  add    := (· + ·)
  sub    := (· - ·)
  mul    := (· * ·)
  div    := (· / ·)
  sqrt   := Cmath.sqrt
  lt x y := decide (x < y)

namespace Arithmetic

variable {x y : ℝ}

@[simp]
theorem sub_eq : sub x y = x - y :=
  rfl

@[simp]
theorem mul_eq : mul x y = x * y :=
  rfl

@[simp]
theorem div_eq : div x y = x / y :=
  rfl

@[simp]
theorem lt_iff : lt x y = true ↔ x < y :=
  decide_eq_true_iff

end Arithmetic
end Fabrication

namespace Arm

open Base BaseMotionController Fabrication Kinematics Transition WorldMotionController
open WorldMotionCoordinator (error)

variable {target pose : Position ℝ} {base : ℂ} {msg : BaseMotionCommand ℝ}

theorem norm_eq (x y : ℝ) : norm x y = ‖(⟨x, y⟩ : ℂ)‖ := by
  rw [Complex.norm_def]
  rfl

theorem norm_error : norm (error target pose).x (error target pose).y =
    dist pose.plan target.plan := by
  rw [norm_eq, dist_comm, Complex.dist_eq]
  rfl

theorem dist_station (h : baseMotionCommand ready x y seq target = some msg) :
    dist (⟨msg.targetX, msg.targetY⟩ : ℂ) target.plan = 0.75 := by
  simp only [baseMotionCommand, norm_eq, Arithmetic.sub_eq, Arithmetic.mul_eq, Arithmetic.div_eq,
    Arithmetic.lt_iff] at h
  generalize hd : (⟨target.x - x, target.y - y⟩ : ℂ) = offset at h
  split at h
  case isFalse => cases h
  case isTrue  =>
    split at h
    case isFalse => cases h
    case isTrue hn =>
      cases h
      have hp : 0 < ‖offset‖ := by
        refine lt_trans ?_ hn
        norm_num [workRadius]
      have he : (⟨target.x - workRadius * (target.x - x) / ‖offset‖,
          target.y - workRadius * (target.y - y) / ‖offset‖⟩ : ℂ) - target.plan =
          -((workRadius / ‖offset‖ : ℝ) * offset) := by
        rw [← hd]
        apply Complex.ext <;> simp [Position.plan] <;> ring
      rw [Complex.dist_eq, he, norm_neg, norm_mul, Complex.norm_real, Real.norm_eq_abs, abs_div,
        abs_norm, div_mul_cancel₀ _ hp.ne']
      norm_num [workRadius]

-- What the coordinator knows of the tool: the place of `tool_link`.
noncomputable def toolPose (frame : Frame ℝ) (p : Posture ℝ) : Position ℝ where
  x := (p.toolLink frame).x
  y := (p.toolLink frame).y
  z := (p.toolLink frame).z

def Reachable (frame : Frame ℝ) (target : Position ℝ) : Prop :=
  ∃ p : Posture ℝ, p.Allowed ∧ Within (error target (toolPose frame p))

theorem within_toolPose {p : Posture ℝ} {frame : Frame ℝ} :
    Within (error target (toolPose frame p)) ↔ dist (p.toolLink frame).plan target.plan < 0.10 := by
  rw [Within, norm_error, Arithmetic.lt_iff]
  rfl

theorem abs_clamp_sub_lt {distance : ℝ} (h : distance ∈ Set.Ioo (0.8 : ℝ) 3.0) :
    |1.9 + Smoothing.clamp (distance - 1.9) (-1.0) 1.0 - distance| < 0.10 := by
  have ⟨hl, hu⟩ := h
  rw [abs_lt, Smoothing.clamp]
  split_ifs
  all_goals constructor <;> linarith

theorem reachable_iff {frame : Frame ℝ} :
    Reachable frame target ↔ dist frame.plan target.plan ∈ Set.Ioo (0.8 : ℝ) 3.0 := by
  have hd : dist frame.plan target.plan = ‖target.plan - frame.plan‖ := by
    rw [dist_comm, Complex.dist_eq]
  constructor
  case mp =>
    rintro ⟨p, hp, hw⟩
    rw [within_toolPose] at hw
    have ⟨hl, hu⟩ := hp.radius
    have hn := hp.norm frame
    rw [Posture.plan_toolheadLink] at hn
    have ha := abs_norm_sub_le_dist ((p.toolLink frame).plan - frame.plan)
      (target.plan - frame.plan)
    rw [dist_sub_right, hn, ← hd, abs_le] at ha
    constructor <;> linarith
  case mpr =>
    intro h
    rw [hd] at h
    let p : Posture ℝ := {
      baseToMast     := (target.plan - frame.plan).arg - frame.yaw
      mastToCarriage := 0
      carriageToTool := Smoothing.clamp (‖target.plan - frame.plan‖ - 1.9) (-1.0) 1.0
      toolMount      := 0 }
    refine ⟨p, ⟨by norm_num [p], Smoothing.clamp_mem (by norm_num)⟩, ?_⟩
    rw [within_toolPose, Posture.plan_toolLink, add_sub_cancel, dist_aimed]
    exact abs_clamp_sub_lt h

-- Once the base is where it has been sent for a target, it is too close to it: there the target
-- cannot be completed, whatever the arm does and however the base is turned.
theorem completed_out_of_reach {s s' : BaseMotionController ℝ} (e : Run step (boot first) is s)
    (hs : step i s = .ok s') (hc : s'.completed = s.completed ++ [msg.queued place])
    (hm : baseMotionCommand ready x y seq target = some msg) :
    ∃ is₁ is₂ s₁, is ++ [i] = is₁ ++ .tick :: is₂ ∧ Run step (boot first) is₁ s₁ ∧
      s₁.pursued? = some (msg.queued place) ∧
      ∀ yaw, ¬Reachable ⟨s₁.currentX, s₁.currentY, 0, yaw⟩ target := by
  have ⟨s₁, hi, ht, hcmd, hf, _⟩ := (step_moves hs).completes hc
  have ha := (Stops.run e).drive e ht hf.left
  rw [drive_current, ← hcmd, ← hi] at ha
  obtain ⟨is₁, is₂, s₂, his, e₁, hp, hd⟩ := ha
  refine ⟨is₁, is₂, s₂, his, e₁, hp, fun yaw hr => ?_⟩
  have hl : 0.8 < dist (⟨s₂.currentX, s₂.currentY⟩ : ℂ) target.plan := (reachable_iff.mp hr).left
  have hd : dist (⟨s₂.currentX, s₂.currentY⟩ : ℂ) ⟨msg.targetX, msg.targetY⟩ < 0.05 := by
    rw [dist_comm, Complex.dist_eq, Complex.norm_def]
    exact hd
  have hn := dist_triangle (⟨s₂.currentX, s₂.currentY⟩ : ℂ) ⟨msg.targetX, msg.targetY⟩ target.plan
  rw [dist_station hm] at hn
  linarith

section Parked

def beyond : Position ℝ where
  x := 1.75
  y := 0
  z := 1

noncomputable def station : BaseMotionCommand ℝ where
  sequenceId      := 1
  targetX         := 1
  targetY         := 0
  targetTheta     := 0.0
  linearVelocity  := 0.15
  angularVelocity := 0.15

theorem baseMotionCommand_beyond : baseMotionCommand true 0 0 1 beyond = some station := by
  have hn : ‖(⟨1.75, 0⟩ : ℂ)‖ = 1.75 := by
    rw [Complex.norm_def, Complex.normSq_mk, mul_zero, add_zero]
    exact Real.sqrt_mul_self (by norm_num)
  simp only [baseMotionCommand, beyond, norm_eq, Arithmetic.sub_eq, Arithmetic.mul_eq,
    Arithmetic.div_eq, Arithmetic.lt_iff, sub_zero, hn, workRadius, baseVelocity, station, if_true]
  norm_num

noncomputable def parked : List (Input ℝ) :=
  [.command station, .odom (located 1)]

noncomputable def arrived : BaseMotionController ℝ :=
  parked.foldl next (boot (station.queued 0))

theorem arrived_completes :
    (arrived.next .tick).completed = arrived.completed ++ [station.queued 0] := by
  have ht : Takes arrived (arrived.start (station.queued 0) []) := .next rfl rfl
  generalize hs : arrived.start (station.queued 0) [] = s at ht
  have hc : s.current = station.queued 0 := by rw [← hs]; rfl
  have hv : s.currentVx = 0.0 ∧ s.currentWz = 0.0 := by rw [← hs]; exact ⟨rfl, rfl⟩
  have hd : s.poseError.dist = 0 := by
    have h : s.poseError.dist = √((1 - 1) * (1 - 1) + (0 - 0) * (0 - 0)) := by rw [← hs]; rfl
    rw [h]
    norm_num
  have hf : (s.drive 0.02).Finishes := by
    rw [Finishes, drive_stopping, drive_eq, PoseError.targets, hd, hv.left, hv.right]
    norm_num [Smoothing.smooth]
  rw [next, ht.update, executeActive, if_pos hf, publishState, completed_publish rfl,
    completed_finish, completed_drive, drive_current, completed_takes ht, hc]

theorem completed_out_of_reach_parked : ∃ (s s' : BaseMotionController ℝ) (is₁ is₂ : List (Input ℝ))
    (s₁ : BaseMotionController ℝ), Run step (boot (station.queued 0)) parked s ∧
    step .tick s = .ok s' ∧ parked ++ [.tick] = is₁ ++ .tick :: is₂ ∧
    Run step (boot (station.queued 0)) is₁ s₁ ∧ s₁.pursued? = some (station.queued 0) ∧
    ∀ yaw, ¬Reachable ⟨s₁.currentX, s₁.currentY, 0, yaw⟩ beyond := by
  have e : Run step (boot (station.queued 0)) parked arrived := run_foldl
  obtain ⟨is₁, is₂, s₁, h⟩ :=
    completed_out_of_reach e rfl arrived_completes baseMotionCommand_beyond
  exact ⟨arrived, arrived.next .tick, is₁, is₂, s₁, e, rfl, h⟩

end Parked

end Arm
