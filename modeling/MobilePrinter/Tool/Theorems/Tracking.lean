import Mathlib.Tactic.NormNum
import MobilePrinter.Library.Settling
import MobilePrinter.Tool.ToolCompensationApplier

namespace Tool

open Settling Smoothing

variable {R : Type*} [Field R] [LinearOrder R]

-- What an offset can be behind the clamp and the deadband.
structure Clear (limit current : R) : Prop where
  bounded : |current| ≤ limit
  outside : current = 0 ∨ 0.01 ≤ |current|

variable {limit target current compensation offset d u c : R}

theorem Clear.neg (h : Clear limit c) : Clear limit (-c) where
  bounded := (abs_neg c).trans_le h.bounded
  outside := by
    rw [neg_eq_zero, abs_neg]
    exact h.outside

-- A compensation that replaces the target is reached if it is within the deadband, or outside what
-- the deadband holds back, or on the side of zero where the offset is.
def Overcomes (compensation current : R) : Prop :=
  |compensation| ≤ 0.01 ∨ 0.1 ≤ |compensation| ∨ 0 < current * compensation

-- A compensation that does not replace the target is reached if the deadband takes the offset to
-- zero, or the target is near enough to the compensation.
def Harmless (compensation target current : R) : Prop :=
  |target| < 0.01 ∨ |target| < 0.1 ∧ (current * target ≤ 0 ∨ |target - compensation| < 0.01 ∨
    |target - compensation| = 0.01 ∧ |current| ≤ |target|)

theorem overcomes_neg : Overcomes (-d) (-c) ↔ Overcomes d c := by
  rw [Overcomes, Overcomes, abs_neg, neg_mul_neg]

theorem harmless_neg : Harmless (-d) (-u) (-c) ↔ Harmless d u c := by
  rw [Harmless, Harmless, abs_neg, abs_neg, neg_mul_neg, neg_sub_neg, abs_sub_comm d u]

variable [IsStrictOrderedRing R]

theorem deadband_cases (offset : R) :
    |offset| < 0.01 ∧ deadband offset = 0 ∨ 0.01 ≤ |offset| ∧ deadband offset = offset := by
  by_cases h : |offset| < 0.01
  case pos =>
    refine .inl ⟨h, ?_⟩
    rw [deadband, if_pos h]
    norm_num
  case neg => exact .inr ⟨not_lt.mp h, if_neg h⟩

theorem approach_clear (hl : 0 ≤ limit) : Clear limit (approach limit target current) := by
  have hb : |clamp (smooth 0.1 target current) (-limit) limit| ≤ limit := abs_clamp_le hl
  rw [approach]
  generalize clamp (smooth 0.1 target current) (-limit) limit = offset at hb
  cases deadband_cases offset
  case inl h =>
    rw [h.right]
    exact ⟨abs_zero.trans_le hl, .inl rfl⟩
  case inr h =>
    rw [h.right]
    exact ⟨hb, .inr h.left⟩

theorem approach_eq (ht : |target| ≤ limit) (hc : |current| ≤ limit) :
    approach limit target current = deadband (0.9 * current + 0.1 * target) := by
  have hr : (0.1 : R) ∈ Set.Icc 0 1 := by norm_num
  have hs : smooth 0.1 target current = 0.9 * current + 0.1 * target := by
    rw [smooth_eq]
    norm_num
  rw [approach, clamp_of_mem (abs_le.mp (abs_smooth_le hr ht hc)), hs]

-- With a target on the other side an offset does not get past zero unless the target is far away.
theorem approach_nonpos (hu : u < 0.1) (hul : |u| ≤ limit) (hc : c ≤ 0) (h : |c| ≤ limit) :
    approach limit u c ≤ 0 := by
  rw [approach_eq hul h]
  cases deadband_cases (0.9 * c + 0.1 * u)
  case inl hb => exact hb.right.le
  case inr hb =>
    rw [hb.right]
    cases le_abs.mp hb.left <;> linarith

theorem approach_ahead (hu : 0.01 ≤ u) (hul : |u| ≤ limit) (hc : 0.01 ≤ c) (h : |c| ≤ limit) :
    approach limit u c = 0.9 * c + 0.1 * u := by
  rw [approach_eq hul h]
  refine (deadband_cases _).elim (fun hb => ?_) (·.right)
  have ⟨_, hu⟩ := abs_lt.mp hb.left
  linarith

theorem approach_stays_ahead (hu : 0.01 ≤ u) (hul : |u| ≤ limit) (hc : 0.01 ≤ c)
    (h : |c| ≤ limit) : 0.01 ≤ approach limit u c ∧ |approach limit u c| ≤ limit := by
  refine ⟨?_, (approach_clear ((abs_nonneg c).trans h)).bounded⟩
  rw [approach_ahead hu hul hc h]
  linarith

theorem le_approach (hs : u ≤ smooth 0.1 target current) (hl : u ≤ limit)
    (hu : u = 0 ∨ 0.01 ≤ u) : u ≤ approach limit target current := by
  have hc : u ≤ clamp (smooth 0.1 target current) (-limit) limit := le_clamp hs hl
  rw [approach]
  generalize clamp (smooth 0.1 target current) (-limit) limit = offset at hc
  cases deadband_cases offset
  case inl hb =>
    have ⟨_, hb₂⟩ := abs_lt.mp hb.left
    rw [hb.right]
    cases hu <;> linarith
  case inr hb => rwa [hb.right]

theorem deadband_neg : deadband (-offset) = -deadband offset := by
  rw [deadband, deadband, abs_neg]
  split
  case isTrue  => norm_num
  case isFalse => rfl

theorem clamp_neg (hl : 0 ≤ limit) :
    clamp (-offset) (-limit) limit = -clamp offset (-limit) limit := by
  rw [clamp, clamp]
  split_ifs <;> linarith

theorem approach_neg (hl : 0 ≤ limit) :
    approach limit (-target) (-current) = -approach limit target current := by
  have hs : smooth 0.1 (-target) (-current) = -smooth 0.1 target current := by
    rw [smooth_eq, smooth_eq]
    ring
  rw [approach, approach, hs, clamp_neg hl, deadband_neg]

def distances (limit compensation target current : R) (n : Nat) : R :=
  |(approach limit target)^[n] current - compensation|

theorem distances_neg (hl : 0 ≤ limit) :
    distances limit (-compensation) (-target) (-current) =
      distances limit compensation target current := by
  have hs : Function.Semiconj (fun x => -x) (approach limit target) (approach limit (-target)) :=
    fun x => (approach_neg hl).symm
  funext n
  have hn : -(approach limit target)^[n] current = (approach limit (-target))^[n] (-current) :=
    hs.iterate_right n current
  rw [distances, distances, ← hn, neg_sub_neg, abs_sub_comm]

theorem smooth_gains (d c : R) : |0.9 * c + 0.1 * d - d| ≤ max 0.01 (|c - d| - 0.001) := by
  have h : 0.9 * c + 0.1 * d - d = 0.9 * (c - d) := by ring
  have h9 : |(0.9 : R)| = 0.9 := abs_of_pos (by norm_num)
  rw [h, abs_mul, h9]
  by_cases hb : |c - d| ≤ 0.01
  case pos => exact le_max_of_le_left (by linarith)
  case neg => exact le_max_of_le_right (by linarith)

section Followed

theorem not_settles_between (hd : 0.01 < d) (hu : d < 0.1) (hl : d ≤ limit) (hc : c ≤ 0)
    (h : Clear limit c) : ¬Settles 0.01 (distances limit d d c) := by
  have hdl : |d| ≤ limit := (abs_of_nonneg (by linarith)).trans_le hl
  refine not_settles_of_outside (d := fun x => |x - d|) (I := fun x => x ≤ 0 ∧ Clear limit x)
    ?_ ?_ ⟨hc, h⟩
  case refine_1 =>
    intro x hx
    exact ⟨approach_nonpos hu hdl hx.left hx.right.bounded, approach_clear (by linarith)⟩
  case refine_2 =>
    intro x hx
    rw [abs_of_nonpos (by linarith [hx.left])]
    linarith [hx.left]

variable [Archimedean R]

theorem settles_small (hl : 0.01 ≤ limit) (hd : |d| ≤ 0.01) (h : Clear limit c) :
    Settles 0.01 (distances limit d d c) := by
  refine settles_of_gains (d := fun x => |x - d|) (g := 0.001) (by norm_num)
    (fun _ _ => approach_clear (by linarith)) ?_ h
  intro x hx
  rw [approach_eq (hd.trans hl) hx.bounded]
  cases deadband_cases (0.9 * x + 0.1 * d)
  case inl hb =>
    rw [hb.right, zero_sub, abs_neg]
    exact le_max_of_le_left hd
  case inr hb =>
    rw [hb.right]
    exact smooth_gains d x

-- A large compensation is reached from everywhere: a step that is caught in the deadband has passed
-- zero.
theorem settles_large (hd : 0.1 ≤ d) (hl : d ≤ limit) (h : Clear limit c) :
    Settles 0.01 (distances limit d d c) := by
  have hp : 0 ≤ d := by linarith
  have hdl : |d| ≤ limit := (abs_of_nonneg hp).trans_le hl
  refine settles_of_gains (d := fun x => |x - d|) (g := 0.001) (by norm_num)
    (fun _ _ => approach_clear (by linarith)) ?_ h
  intro x hx
  rw [approach_eq hdl hx.bounded]
  cases deadband_cases (0.9 * x + 0.1 * d)
  case inl hb =>
    have ⟨_, hu⟩ := abs_lt.mp hb.left
    have hx : x ≤ -0.01 := by
      cases hx.outside
      case inl hz => linarith
      case inr hz => cases le_abs.mp hz <;> linarith
    have hc : x - d ≤ 0 := by linarith
    rw [hb.right, zero_sub, abs_neg, abs_of_nonneg hp, abs_of_nonpos hc]
    exact le_max_of_le_right (by linarith)
  case inr hb =>
    rw [hb.right]
    exact smooth_gains d x

theorem settles_ahead (hd : 0.01 < d) (hl : d ≤ limit) (hc : 0.01 ≤ c) (h : |c| ≤ limit) :
    Settles 0.01 (distances limit d d c) := by
  have hdl : |d| ≤ limit := (abs_of_nonneg (by linarith)).trans_le hl
  refine settles_of_gains (d := fun x => |x - d|) (g := 0.001)
    (I := fun x => 0.01 ≤ x ∧ |x| ≤ limit) (by norm_num)
    (fun _ hx => approach_stays_ahead hd.le hdl hx.left hx.right) ?_ ⟨hc, h⟩
  intro x hx
  rw [approach_ahead hd.le hdl hx.left hx.right]
  exact smooth_gains d x

end Followed
section Retained

theorem settles_across [Archimedean R] (hd : |d| ≤ 0.0001) (hu₀ : 0 ≤ u) (hu : u < 0.1)
    (hl : 1 ≤ limit) (hc : c ≤ 0) (h : Clear limit c) : Settles 0.01 (distances limit d u c) := by
  have ⟨hd₁, hd₂⟩ := abs_le.mp hd
  have hul : |u| ≤ limit := (abs_of_nonneg hu₀).trans_le (by linarith)
  refine settles_of_gains (d := fun x => |x - d|) (g := 0.001)
    (I := fun x => x ≤ 0 ∧ Clear limit x) (by norm_num) ?_ ?_ ⟨hc, h⟩
  case refine_1 =>
    intro x hx
    exact ⟨approach_nonpos hu hul hx.left hx.right.bounded, approach_clear (by linarith)⟩
  case refine_2 =>
    intro x hx
    rw [approach_eq hul hx.right.bounded]
    cases deadband_cases (0.9 * x + 0.1 * u)
    case inl hb =>
      rw [hb.right, zero_sub, abs_neg]
      exact le_max_of_le_left (by linarith)
    case inr hb =>
      have hv : 0.9 * x + 0.1 * u ≤ -0.01 := by
        cases le_abs.mp hb.left <;> linarith [hx.left]
      rw [hb.right, abs_of_nonpos (by linarith), abs_of_nonpos (by linarith)]
      exact le_max_of_le_right (by linarith)

theorem settles_within [Archimedean R] (hd : |d| ≤ 0.0001) (hu₀ : 0 ≤ u) (hu : u < 0.01)
    (hl : 1 ≤ limit) (hc : 0 ≤ c) (h : Clear limit c) : Settles 0.01 (distances limit d u c) := by
  have ⟨hd₁, hd₂⟩ := abs_le.mp hd
  have hul : |u| ≤ limit := (abs_of_nonneg hu₀).trans_le (by linarith)
  refine settles_of_gains (d := fun x => |x - d|) (g := 0.1 * (0.01 - u))
    (I := fun x => 0 ≤ x ∧ Clear limit x) (by linarith) ?_ ?_ ⟨hc, h⟩
  case refine_1 =>
    intro x hx
    refine ⟨?_, approach_clear (by linarith)⟩
    rw [approach_eq hul hx.right.bounded]
    cases deadband_cases (0.9 * x + 0.1 * u)
    case inl hb => exact hb.right.ge
    case inr hb =>
      rw [hb.right]
      linarith [hx.left]
  case refine_2 =>
    intro x hx
    rw [approach_eq hul hx.right.bounded]
    cases deadband_cases (0.9 * x + 0.1 * u)
    case inl hb =>
      rw [hb.right, zero_sub, abs_neg]
      exact le_max_of_le_left (by linarith)
    case inr hb =>
      have hx := hx.left
      have hv : 0.01 ≤ 0.9 * x + 0.1 * u := by
        cases le_abs.mp hb.left <;> linarith
      rw [hb.right, abs_of_nonneg (by linarith), abs_of_nonneg (by linarith)]
      exact le_max_of_le_right (by linarith)

theorem settles_near [Archimedean R] (hd : |d| ≤ 0.0001) (hu₀ : 0.01 ≤ u) (hu : u - d < 0.01)
    (hl : 1 ≤ limit) (hc : 0.01 ≤ c) (h : |c| ≤ limit) :
    Settles 0.01 (distances limit d u c) := by
  have ⟨hd₁, hd₂⟩ := abs_le.mp hd
  have hul : |u| ≤ limit := (abs_of_nonneg (by linarith)).trans_le (by linarith)
  refine settles_of_gains (d := fun x => |x - d|) (g := 0.1 * (0.01 - (u - d)))
    (I := fun x => 0.01 ≤ x ∧ |x| ≤ limit) (by linarith)
    (fun _ hx => approach_stays_ahead hu₀ hul hx.left hx.right) ?_ ⟨hc, h⟩
  intro x ⟨hx, hxl⟩
  rw [approach_ahead hu₀ hul hx hxl, abs_of_nonneg (by linarith), abs_of_nonneg (by linarith)]
  by_cases hb : x - d ≤ 0.01
  case pos => exact le_max_of_le_left (by linarith)
  case neg => exact le_max_of_le_right (by linarith)

theorem settles_edge [Archimedean R] (hd : |d| ≤ 0.0001) (hu₀ : 0.01 ≤ u) (hu : u - d = 0.01)
    (hl : 1 ≤ limit) (hc : 0.01 ≤ c) (hcu : c ≤ u) : Settles 0.01 (distances limit d u c) := by
  have ⟨hd₁, hd₂⟩ := abs_le.mp hd
  have hul : |u| ≤ limit := (abs_of_nonneg (by linarith)).trans_le (by linarith)
  have hxl (x : R) (hx : 0.01 ≤ x ∧ x ≤ u) : |x| ≤ limit :=
    (abs_of_nonneg (by linarith [hx.left])).trans_le (by linarith [hx.right])
  refine settles_of_gains (d := fun x => |x - d|) (g := 0.001) (I := fun x => 0.01 ≤ x ∧ x ≤ u)
    (by norm_num) ?_ ?_ ⟨hc, hcu⟩
  case refine_1 =>
    intro x hx
    refine ⟨(approach_stays_ahead hu₀ hul hx.left (hxl x hx)).left, ?_⟩
    rw [approach_ahead hu₀ hul hx.left (hxl x hx)]
    linarith [hx.right]
  case refine_2 =>
    intro x hx
    rw [approach_ahead hu₀ hul hx.left (hxl x hx), abs_of_nonneg (by linarith [hx.left])]
    exact le_max_of_le_left (by linarith [hx.right])

theorem not_settles_edge (hu₀ : 0.01 ≤ u) (hu : 0.01 ≤ u - d) (hul : u ≤ limit) (hcu : u < c)
    (h : |c| ≤ limit) :
    ¬Settles 0.01 (distances limit d u c) := by
  have hua : |u| ≤ limit := (abs_of_nonneg (by linarith)).trans_le hul
  refine not_settles_of_outside (d := fun x => |x - d|) (I := fun x => u < x ∧ |x| ≤ limit)
    ?_ ?_ ⟨hcu, h⟩
  case refine_1 =>
    intro x ⟨hx, hxl⟩
    refine ⟨?_, (approach_stays_ahead hu₀ hua (by linarith) hxl).right⟩
    rw [approach_ahead hu₀ hua (by linarith) hxl]
    linarith
  case refine_2 =>
    intro x ⟨hx, _⟩
    rw [abs_of_nonneg (by linarith)]
    linarith

theorem not_settles_drawn [Archimedean R] (hd : |d| ≤ 0.0001) (hu₀ : 0.01 ≤ u) (hu : 0.01 < u - d)
    (hul : u ≤ limit) (hc : 0.01 ≤ c) (h : |c| ≤ limit) :
    ¬Settles 0.01 (distances limit d u c) := by
  have ⟨hd₁, hd₂⟩ := abs_le.mp hd
  have hua : |u| ≤ limit := (abs_of_nonneg (by linarith)).trans_le hul
  refine not_settles_of_drift (d := fun x => |x - d|) (p := fun x => x) (b := d + 0.01)
    (g := 0.1 * (u - d - 0.01)) (I := fun x => 0.01 ≤ x ∧ |x| ≤ limit) (by linarith)
    (fun _ hx => approach_stays_ahead hu₀ hua hx.left hx.right) ?_ ⟨hc, h⟩
  intro x ⟨hx, hxl⟩ hb
  have hb := (abs_le.mp hb).right
  rw [approach_ahead hu₀ hua hx hxl]
  constructor <;> linarith

theorem settles_ahead_iff [Archimedean R] (hd : |d| ≤ 0.0001) (hu₀ : 0.01 ≤ u) (hu : u < 0.1)
    (hl : 1 ≤ limit) (hc : 0.01 ≤ c) (h : |c| ≤ limit) :
    Settles 0.01 (distances limit d u c) ↔ u - d < 0.01 ∨ u - d = 0.01 ∧ c ≤ u := by
  rcases lt_trichotomy (u - d) 0.01 with hn | he | hf
  case inl     => exact iff_of_true (settles_near hd hu₀ hn hl hc h) (.inl hn)
  case inr.inl =>
    rcases le_or_gt c u with hcu | hcu
    case inl => exact iff_of_true (settles_edge hd hu₀ he hl hc hcu) (.inr ⟨he, hcu⟩)
    case inr =>
      refine iff_of_false (not_settles_edge hu₀ he.ge (by linarith) hcu h) ?_
      rintro (hn | hn)
      case inl => linarith
      case inr => exact absurd hn.right (not_le.mpr hcu)
  case inr.inr =>
    refine iff_of_false (not_settles_drawn hd hu₀ hf (by linarith) hc h) ?_
    rintro (hn | hn)
    case inl => linarith
    case inr => exact hf.ne' hn.left

theorem not_settles_far [Archimedean R] (hd : |d| ≤ 0.0001) (hu : 0.1 ≤ u) (hl : 1 ≤ limit)
    (h : Clear limit c) : ¬Settles 0.01 (distances limit d u c) := by
  have ⟨hd₁, hd₂⟩ := abs_le.mp hd
  refine not_settles_of_drift (d := fun x => |x - d|) (p := fun x => x) (b := d + 0.01)
    (g := 0.008) (I := Clear limit) (by norm_num) (fun _ _ => approach_clear (by linarith)) ?_ h
  intro x hx hb
  have ⟨hb₁, hb₂⟩ := abs_le.mp hb
  suffices hn : x + 0.008 ≤ approach limit u x from ⟨hn, by linarith⟩
  have hs : smooth 0.1 u x = 0.9 * x + 0.1 * u := by
    rw [smooth_eq]
    norm_num
  cases hx.outside
  case inl hz =>
    have hv : 0.01 ≤ smooth 0.1 u x := by linarith
    have ha : 0.01 ≤ approach limit u x := le_approach hv (by linarith) (.inr le_rfl)
    linarith
  case inr ho =>
    cases le_abs.mp ho
    case inl hp =>
      have hv : 0.019 ≤ smooth 0.1 u x := by linarith
      have ha : 0.019 ≤ approach limit u x := le_approach hv (by linarith) (.inr (by norm_num))
      linarith
    case inr hn =>
      have hv : 0 ≤ smooth 0.1 u x := by linarith
      have ha : 0 ≤ approach limit u x := le_approach hv (by linarith) (.inl rfl)
      linarith

end Retained

theorem Clear.of_pos (h : Clear limit c) (hc : 0 < c) : 0.01 ≤ c :=
  h.outside.elim (fun hz => absurd hz hc.ne') (abs_of_pos hc ▸ ·)

variable [Archimedean R]

theorem settles_followed_iff (hd : 0.0001 < |d|) (hdl : |d| ≤ limit) (hl : 1 ≤ limit)
    (h : Clear limit c) : Settles 0.01 (distances limit d d c) ↔ Overcomes d c := by
  wlog hp : 0 ≤ d generalizing d c
  case inr =>
    have h := this (d := -d) (c := -c) (by rwa [abs_neg]) (by rwa [abs_neg]) h.neg (by linarith)
    rwa [distances_neg (by linarith), overcomes_neg] at h
  rw [Overcomes, abs_of_nonneg hp]
  rw [abs_of_nonneg hp] at hd hdl
  constructor
  case mp =>
    intro hs
    by_contra hn
    rw [not_or, not_or, not_le, not_le, not_lt] at hn
    have ⟨h₁, h₂, h₃⟩ := hn
    have hc : c ≤ 0 := by
      by_contra hc
      exact absurd (mul_pos (not_le.mp hc) (by linarith : 0 < d)) (not_lt.mpr h₃)
    exact not_settles_between h₁ h₂ hdl hc h hs
  case mpr =>
    rintro (h₁ | h₂ | h₃)
    case inl     => exact settles_small (by linarith) (by rwa [abs_of_nonneg hp]) h
    case inr.inl => exact settles_large h₂ hdl h
    case inr.inr =>
      have hc : 0 < c := pos_of_mul_pos_left h₃ hp
      by_cases h₁ : d ≤ 0.01
      case pos => exact settles_small (by linarith) (by rwa [abs_of_nonneg hp]) h
      case neg => exact settles_ahead (not_le.mp h₁) hdl (h.of_pos hc) h.bounded

theorem settles_retained_iff (hd : |d| ≤ 0.0001) (hl : 1 ≤ limit) (h : Clear limit c) :
    Settles 0.01 (distances limit d u c) ↔ Harmless d u c := by
  wlog hp : 0 ≤ u generalizing d u c
  case inr =>
    have h := this (d := -d) (u := -u) (c := -c) (by rwa [abs_neg]) h.neg (by linarith)
    rwa [distances_neg (by linarith), harmless_neg] at h
  have ⟨hd₁, hd₂⟩ := abs_le.mp hd
  rw [Harmless, abs_of_nonneg hp]
  by_cases hu₂ : u < 0.01
  case pos =>
    refine iff_of_true ?_ (.inl hu₂)
    rcases le_total c 0 with hc | hc
    case inl => exact settles_across hd hp (by linarith) hl hc h
    case inr => exact settles_within hd hp hu₂ hl hc h
  case neg =>
    have hu₂ := not_lt.mp hu₂
    have hud : |u - d| = u - d := abs_of_nonneg (by linarith)
    rw [hud]
    by_cases hu₃ : u < 0.1
    case neg =>
      refine iff_of_false (not_settles_far hd (not_lt.mp hu₃) hl h) ?_
      rintro (hn | hn)
      case inl => linarith
      case inr => exact hu₃ hn.left
    case pos =>
      by_cases hc : c ≤ 0
      case pos =>
        refine iff_of_true (settles_across hd hp hu₃ hl hc h) (.inr ⟨hu₃, .inl ?_⟩)
        exact mul_nonpos_of_nonpos_of_nonneg hc hp
      case neg =>
        have hc := not_le.mp hc
        have hcu : ¬c * u ≤ 0 := not_le.mpr (mul_pos hc (by linarith))
        have ho := h.of_pos hc
        rw [abs_of_pos hc, settles_ahead_iff hd hu₂ hu₃ hl ho h.bounded]
        simp only [not_lt.mpr hu₂, hu₃, hcu, false_or, true_and]

end Tool
