import MobilePrinter.Library.Transition
import MobilePrinter.Arm.PhysicalCompensationController

-- The place of a target in the plane.
def Fabrication.Position.plan (p : Position ℝ) : ℂ :=
  ⟨p.x, p.y⟩

namespace Arm

open Complex Fabrication Kinematics Smoothing Transition

namespace Posture

variable {p : Posture ℝ} {base : Frame ℝ}

theorem plan_toolLink : (p.toolLink base).plan =
    base.plan + along (1.9 + p.carriageToTool) (base.yaw + p.baseToMast) := by
  simp only [toolLink, baseFootprintJoint, baseToMastJoint, mastToCarriageJoint,
    carriageToToolJoint, Frame.plan_comp, Frame.plan_shift, Frame.plan_turn, Frame.yaw_comp,
    Frame.yaw_shift, Frame.yaw_turn]
  simp only [along, ofReal_add, ofReal_zero, zero_mul, mul_zero, mul_one, exp_zero, add_zero,
    zero_add]

theorem z_toolLink : (p.toolLink base).z = base.z + 1.48 + p.mastToCarriage := by
  simp only [toolLink, baseFootprintJoint, baseToMastJoint, mastToCarriageJoint,
    carriageToToolJoint, Frame.z_comp, Frame.z_shift, Frame.z_turn]
  ring

theorem plan_toolheadLink : (p.toolheadLink base).plan = (p.toolLink base).plan := by
  simp [toolheadLink, toolMountJoint]

theorem z_toolheadLink : (p.toolheadLink base).z = base.z + 1.375 + p.mastToCarriage := by
  simp only [toolheadLink, toolMountJoint, Frame.z_comp, Frame.z_shift, Frame.z_turn, z_toolLink]
  ring

theorem Allowed.radius (h : p.Allowed) : 1.9 + p.carriageToTool ∈ Set.Icc (0.9 : ℝ) 2.9 := by
  have ⟨hl, hu⟩ := h.right
  constructor <;> linarith

theorem Allowed.norm (h : p.Allowed) (base : Frame ℝ) :
    ‖(p.toolheadLink base).plan - base.plan‖ = 1.9 + p.carriageToTool := by
  rw [plan_toolheadLink, plan_toolLink, add_sub_cancel_left]
  exact norm_along (by linarith [h.radius.left])

end Posture

-- How much an error moves a joint.
noncomputable def slack (error : ℝ) : ℝ :=
  if |error| ≤ 0.02 then 0 else min (0.015 * |error|) 0.05

theorem abs_correction (error : ℝ) : |correction error| = slack error := by
  rw [correction, slack]
  split
  case isTrue h =>
    rw [if_neg (not_le.mpr h), clamp]
    split_ifs with hl hu
    case pos =>
      have he : error < 0 := by linarith
      rw [abs_of_neg he, min_eq_right (by linarith)]
      norm_num
    case pos =>
      have he : 0 < error := by linarith
      rw [abs_of_pos he, min_eq_right (by linarith)]
      norm_num
    case neg =>
      rw [abs_mul, abs_of_pos (by norm_num : (0 : ℝ) < 0.015), mul_comm, min_eq_left]
      cases abs_cases error <;> linarith
  case isFalse h =>
    rw [if_pos (not_lt.mp h)]
    norm_num

-- Where the base and the target were when the arm was aimed.
structure Aim where
  baseX  : ℝ
  baseY  : ℝ
  target : Position ℝ

structure Demand where
  aim   : Option Aim
  error : Position ℝ

-- What the node has been told: the arm is to be aimed with the latest messages, and an answer is
-- due for every error.
structure Briefing where
  baseX   : ℝ                   := 0
  baseY   : ℝ                   := 0
  target  : Option (Position ℝ) := none
  aim     : Option Aim          := none
  -- Newest first.
  demands : List Demand         := []

open PhysicalCompensationController

def Briefing.hear (b : Briefing) : Input ℝ → Briefing
  | .target msg   => { b with target := some msg }
  | .baseResult _ => b
  | .error error  => { b with demands := { aim := b.aim, error } :: b.demands }
  | .odom x y     => { b with baseX := x, baseY := y }
  | .tick         =>
    match b.target with
    | none        => b
    | some target => { b with aim := some ⟨b.baseX, b.baseY, target⟩ }

def told (is : List (Input ℝ)) : Briefing :=
  is.foldl Briefing.hear {}

namespace Aim

-- The base stands on the ground where it was when the arm was aimed, however it is turned.
structure Stands (a : Aim) (base : Frame ℝ) : Prop where
  x : base.x = a.baseX
  y : base.y = a.baseY
  z : base.z = 0

noncomputable def offset (a : Aim) : ℂ :=
  ⟨a.target.x - a.baseX, a.target.y - a.baseY⟩

noncomputable def extension (a : Aim) : ℝ :=
  clamp (‖a.offset‖ - 1.9) (-1) 1

noncomputable def lift (a : Aim) : ℝ :=
  clamp (a.target.z - 1.375) (-1) 1

variable {a : Aim} {base : Frame ℝ}

theorem Stands.offset (h : a.Stands base) : a.target.plan - base.plan = a.offset := by
  apply Complex.ext <;> simp [Position.plan, Frame.plan, Aim.offset, h.x, h.y]

theorem norm_offset : Cmath.sqrt ((a.target.x - a.baseX) * (a.target.x - a.baseX) +
    (a.target.y - a.baseY) * (a.target.y - a.baseY)) = ‖a.offset‖ :=
  (norm_def a.offset).symm

end Aim

-- What an answer is worth, once the arm has taken it up: no other posture within the limits of the
-- joints brings the tool much closer to the target.
structure Demand.Meets (d : Demand) (p : Posture ℝ) : Prop where
  plan    : ∀ aim ∈ d.aim, ∀ base, aim.Stands base → ∀ other : Posture ℝ, other.Allowed →
    dist (p.toolheadLink base).plan aim.target.plan ≤
      dist (other.toolheadLink base).plan aim.target.plan + slack d.error.x + 2.9 * |base.yaw|
  height  : ∀ aim ∈ d.aim, ∀ base, aim.Stands base → ∀ other : Posture ℝ, other.Allowed →
    |(p.toolheadLink base).z - aim.target.z| ≤
      |(other.toolheadLink base).z - aim.target.z| + slack d.error.z
  neutral : d.aim = none → p.baseToMast = 0 ∧ |p.carriageToTool| ≤ slack d.error.x ∧
    |p.mastToCarriage| ≤ slack d.error.z

-- The posture that is commanded in answer to an error, for an extension, a lift and a bearing.
noncomputable def answer (error : Position ℝ) (x z theta : ℝ) : Posture ℝ where
  baseToMast     := theta
  mastToCarriage := clamp (z + correction error.z) (-1.0) 1.0
  carriageToTool := clamp (x + correction error.x) (-1.0) 1.0
  toolMount      := 0.0

theorem answer_allowed (error : Position ℝ) (x z theta : ℝ) : (answer error x z theta).Allowed :=
  ⟨clamp_mem (by norm_num), clamp_mem (by norm_num)⟩

theorem corrected_near {desired : ℝ} (h : desired ∈ Set.Icc (-1) 1) (error : ℝ) :
    |clamp (desired + correction error) (-1.0) 1.0 - desired| ≤ slack error := by
  have hd : desired ∈ Set.Icc (-1.0) 1.0 := by
    constructor <;> linarith [h.left, h.right]
  have hc := abs_clamp_sub_le_of_mem hd (desired + correction error)
  rwa [add_sub_cancel_left, abs_correction] at hc

inductive Aimed : Option Aim → ℝ → ℝ → ℝ → Prop
  | neutral : Aimed none 0 0 0
  | at (aim : Aim) : Aimed (some aim) aim.extension aim.lift aim.offset.arg

namespace Aim

variable {aim : Aim} {base : Frame ℝ} {error : Position ℝ} {other : Posture ℝ}

theorem answer_plan (hb : aim.Stands base) (ho : other.Allowed) :
    dist ((answer error aim.extension aim.lift aim.offset.arg).toolheadLink base).plan
        aim.target.plan ≤
      dist (other.toolheadLink base).plan aim.target.plan + slack error.x + 2.9 * |base.yaw| := by
  have ha := answer_allowed error aim.extension aim.lift aim.offset.arg
  generalize hp : answer error aim.extension aim.lift aim.offset.arg = p at ha ⊢
  have hl : |1.9 + p.carriageToTool - (1.9 + aim.extension)| ≤ slack error.x := by
    rw [add_sub_add_left_eq_sub, ← hp]
    exact corrected_near (clamp_mem (by norm_num)) error.x
  have hr : |1.9 + p.carriageToTool - clamp ‖aim.target.plan - base.plan‖ 0.9 2.9| ≤
      slack error.x := by
    rw [extension, add_comm (1.9 : ℝ) (clamp _ _ _), clamp_sub_add] at hl
    norm_num [hb.offset] at hl ⊢
    exact hl
  have hn : ‖(other.toolheadLink base).plan - base.plan‖ ∈ Set.Icc (0.9 : ℝ) 2.9 := by
    rw [ho.norm base]
    exact ho.radius
  have hd := dist_reach_le hr (by linarith [ha.radius.left]) hn base.yaw
  have ht : p.baseToMast = (aim.target.plan - base.plan).arg := by
    rw [hb.offset, ← hp, answer]
  rw [← ht, ← Posture.plan_toolLink, ← Posture.plan_toolheadLink] at hd
  refine hd.trans (add_le_add_right ?_ _)
  exact mul_le_mul_of_nonneg_right ha.radius.right (abs_nonneg _)

theorem answer_height (hb : aim.Stands base) (ho : other.Allowed) :
    |((answer error aim.extension aim.lift aim.offset.arg).toolheadLink base).z - aim.target.z| ≤
      |(other.toolheadLink base).z - aim.target.z| + slack error.z := by
  have hm : aim.lift ∈ Set.Icc (-1 : ℝ) 1 := clamp_mem (by norm_num)
  have hl := corrected_near hm error.z
  have hn : |aim.lift - (aim.target.z - 1.375)| ≤
      |other.mastToCarriage - (aim.target.z - 1.375)| := by
    refine abs_clamp_sub_le ?_
    have ⟨hl, hu⟩ := ho.left
    constructor <;> linarith
  have hz (p : Posture ℝ) : (p.toolheadLink base).z - aim.target.z =
      p.mastToCarriage - (aim.target.z - 1.375) := by
    rw [Posture.z_toolheadLink, hb.z]
    ring
  rw [hz, hz, answer]
  exact (abs_sub_le _ aim.lift _).trans (by linarith)

end Aim

theorem Aimed.meets (h : Aimed aim x z theta) (error : Position ℝ) :
    Demand.Meets { aim, error } (answer error x z theta) := by
  cases h
  case neutral =>
    have h₀ : (0 : ℝ) ∈ Set.Icc (-1) 1 := by simp
    have hx := corrected_near h₀ error.x
    have hz := corrected_near h₀ error.z
    rw [sub_zero] at hx hz
    exact ⟨by rintro _ ⟨⟩, by rintro _ ⟨⟩, fun _ => ⟨rfl, hx, hz⟩⟩
  case «at» aim =>
    constructor
    case plan =>
      rintro _ ⟨⟩ base hb other ho
      exact aim.answer_plan hb ho
    case height =>
      rintro _ ⟨⟩ base hb other ho
      exact aim.answer_height hb ho
    case neutral => simp

-- The message is taken by the arm controller, stays within the limits of the joints and is worth
-- what the demand asks for.
def Serves (data : List ℝ) (d : Demand) : Prop :=
  ∃ p, Posture.ofCommand data = some p ∧ p.Allowed ∧ d.Meets p

-- The state of the node and what it has been told.
structure Follows (b : Briefing) (s : PhysicalCompensationController ℝ) : Prop where
  base      : s.baseX = b.baseX ∧ s.baseY = b.baseY
  target    : b.target = if s.targetReceived then some s.targetPose else none
  aimed     : Aimed b.aim s.desiredX s.desiredZ s.currentTheta
  published : List.Forall₂ Serves s.published b.demands

theorem update_of_received {s : PhysicalCompensationController ℝ} (h : s.targetReceived = true) :
    s.update = { s with
      desiredX     := Aim.extension ⟨s.baseX, s.baseY, s.targetPose⟩
      desiredZ     := Aim.lift ⟨s.baseX, s.baseY, s.targetPose⟩
      currentTheta := (Aim.offset ⟨s.baseX, s.baseY, s.targetPose⟩).arg } := by
  have hn : (armNeutralX : ℝ) = 1.9 := by norm_num [armNeutralX]
  have h₁ : (1.0 : ℝ) = 1 := by norm_num
  simp only [update, h, Bool.not_true, Bool.false_eq_true, if_false, hn, neutralToolZ, h₁,
    Aim.extension, Aim.lift, ← Aim.norm_offset]
  rfl

namespace Follows

variable {s : PhysicalCompensationController ℝ}

theorem boot : Follows {} boot where
  base      := by norm_num [PhysicalCompensationController.boot]
  target    := rfl
  aimed     := by
    have h : (0.0 : ℝ) = 0 := by norm_num
    rw [PhysicalCompensationController.boot, h]
    exact .neutral
  published := .nil

theorem update (h : Follows b s) : Follows (b.hear .tick) s.update := by
  cases hr : s.targetReceived
  case false =>
    have ht : b.target = none := by rw [h.target, hr]; rfl
    rw [Briefing.hear, ht, PhysicalCompensationController.update, hr]
    exact h
  case true =>
    have ht : b.target = some s.targetPose := by rw [h.target, hr]; rfl
    rw [update_of_received hr, Briefing.hear, ht]
    exact {
      base      := h.base
      target    := by simp only [hr, if_true]
      aimed     := by
        rw [← h.base.left, ← h.base.right]
        exact .at _
      published := h.published }

theorem next (h : Follows b s) (i : Input ℝ) : Follows (b.hear i) (s.next i) := by
  cases i
  case target msg     => exact { h with target := rfl }
  case baseResult msg =>
    rw [PhysicalCompensationController.next, baseResultCallback]
    split <;> split <;> exact { h with }
  case error error    =>
    have ha := answer_allowed error s.desiredX s.desiredZ s.currentTheta
    exact { h with published := .cons ⟨_, rfl, ha, h.aimed.meets error⟩ h.published }
  case odom x y       => exact { h with base := ⟨rfl, rfl⟩ }
  case tick           => exact h.update

end Follows

-- Every error is answered by a command within the limits of the joints that, once the arm has taken
-- it up, is no more than the slack and the turn of the base away from the best there is.
theorem commands_reach {s : PhysicalCompensationController ℝ} (e : Run step boot is s) :
    List.Forall₂ Serves s.published (told is).demands := by
  have h : Follows (told is) s := by
    refine e.history (I := fun is s => Follows (told is) s) ?_ Follows.boot
    intro is i s s' _ h hs
    cases hs
    rw [told, List.foldl_append]
    exact h.next i
  exact h.published

-- The target is beside the base and within reach.
def beside : List (Input ℝ) :=
  [.target ⟨1, 1, 1⟩, .odom 0 0, .tick, .error ⟨1, 0, 0⟩]

theorem commands_reach_one : ∃ s : PhysicalCompensationController ℝ, Run step boot beside s ∧
    List.Forall₂ Serves s.published [{ aim := some ⟨0, 0, ⟨1, 1, 1⟩⟩, error := ⟨1, 0, 0⟩ }] := by
  have e : Run step boot beside (beside.foldl PhysicalCompensationController.next boot) :=
    Run.foldl fun _ _ => rfl
  exact ⟨_, e, commands_reach e⟩

end Arm
