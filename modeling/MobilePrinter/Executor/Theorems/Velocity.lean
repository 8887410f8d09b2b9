import MobilePrinter.Executor.Theorems.SoftLimits

namespace Executor

open Transition Approach

noncomputable def QueuedSegment.effectiveVelocity (seg : QueuedSegment ℝ) : ℝ :=
  if seg.vMax ≤ 1e-6 then 0.1 else seg.vMax

noncomputable def QueuedSegment.structuralVelocities (seg : QueuedSegment ℝ) : List ℝ :=
  (seg.jointNames.filter (isStructuralAxis ℝ)).filterMap fun name =>
    (axisConfig name).map (·.maxVelocity)

-- The velocity with which the segment may move an axis under the feedrate override.
noncomputable def QueuedSegment.authority (seg : QueuedSegment ℝ) (override : ℝ) : ℝ :=
  seg.structuralVelocities.foldr min (seg.effectiveVelocity * override)

theorem QueuedSegment.authority_le (seg : QueuedSegment ℝ) (override : ℝ) :
    seg.authority override ≤ seg.effectiveVelocity * override := by
  rw [authority]
  induction seg.structuralVelocities
  case nil            => exact le_rfl
  case cons v vs ih   => exact (min_le_right _ _).trans ih

namespace MotionExecutor

variable {s s' : MotionExecutor ℝ} {i : Input ℝ}

-- Every command that is published in the step moves each structural axis by no more than the
-- authority of the segment allows in one control period.
def Moderate (i : Input ℝ) (s : MotionExecutor ℝ) : Prop :=
  ∀ names positions, .actuatorCommand names positions ∈ news s (s.next i) →
    ∃ seg, s.lastExecuted? = some seg ∧
      ∀ (i : Nat) name, names[i]? = some name → isStructuralAxis ℝ name →
        ∃ q p, s.qCurrent[i]? = some q ∧ positions[i]? = some p ∧
          |p - q| ≤ controlPeriod * seg.authority s.feedrateOverrideCmd

-- The segment asks for a velocity within its authority, or each of its structural axes is both one
-- step and one control period under the authority away from its target.
def Authorized : Input ℝ → MotionExecutor ℝ → Prop
  | .control stray, s =>
    s.execState = .running → ∀ seg, s.lastExecuted? = some seg →
      ∀ (i : Nat) name q, s.jointNames[i]? = some name → isStructuralAxis ℝ name →
        s.qCurrent[i]? = some q →
          |seg.vMax| ≤ seg.authority s.feedrateOverrideCmd ∨
          |read s.qTarget stray.target i - q| ≤ seg.vMax * controlPeriod ∧
          |read s.qTarget stray.target i - q| ≤
            controlPeriod * seg.authority s.feedrateOverrideCmd
  | _, _ => True

theorem controlPeriod_pos : (0 : ℝ) < controlPeriod := by
  norm_num [controlPeriod]

theorem step_le_iff :
    |velocity * controlPeriod| ≤ controlPeriod * bound ↔ |velocity| ≤ (bound : ℝ) := by
  rw [abs_mul, abs_of_pos controlPeriod_pos, mul_comm, mul_le_mul_iff_right₀ controlPeriod_pos]

theorem command_sub_le_iff {seg : QueuedSegment ℝ} (h : Executes seg s)
    (hs : isStructuralAxis ℝ name) (hq : s.qCurrent[j]? = some q) :
    |(s.command stray j name).1 - q| ≤ controlPeriod * bound ↔
      |seg.vMax| ≤ bound ∨
      |read s.qTarget stray.target j - q| ≤ seg.vMax * controlPeriod ∧
      |read s.qTarget stray.target j - q| ≤ controlPeriod * bound := by
  rw [command_eq hs, List.getD_eq_getElem?_getD, hq, Option.getD_some, abs_approach_sub_le_iff,
    h.velocity, step_le_iff]

theorem moderate_iff (h : Current s) : Moderate i s ↔ Authorized i s := by
  constructor
  case mp =>
    intro hm
    cases i
    case control stray =>
      intro hr seg hl j name q hn hs hq
      have ⟨_, hx⟩ := h hr
      cases hx.last.symm.trans hl
      have hj : s.jointNames ≠ [] := List.ne_nil_of_mem (List.mem_of_getElem? hn)
      have hc := hm _ _ (mem_news_command.mpr ⟨stray, rfl, hr, hj, rfl, rfl⟩)
      obtain ⟨_, hl', hc⟩ := hc
      cases hl.symm.trans hl'
      obtain ⟨_, _, hq', hp, hd⟩ := hc j name hn hs
      cases hq.symm.trans hq'
      cases (getElem?_commands hn).symm.trans hp
      exact (command_sub_le_iff hx hs hq).mp hd
    all_goals trivial
  case mpr =>
    intro ha names positions hm
    obtain ⟨stray, rfl, hr, hj, rfl, rfl⟩ := mem_news_command.mp hm
    have ⟨seg, hx⟩ := h hr
    refine ⟨seg, hx.last, fun j name hn hs => ?_⟩
    have hj : j < s.qCurrent.length := hx.current ▸ (List.getElem?_eq_some_iff.mp hn).choose
    have hq := List.getElem?_eq_getElem hj
    refine ⟨_, _, hq, getElem?_commands hn, ?_⟩
    exact (command_sub_le_iff hx hs hq).mpr (ha hr seg hx.last j name _ hn hs hq)

end MotionExecutor

open MotionExecutor

theorem moves_moderate_iff : Along step Moderate (boot segmentId velocity) is ↔
    Along step Authorized (boot segmentId velocity) is :=
  along_congr (fun h _ => moderate_iff h) (fun h hs => h.next (step_moves hs)) .boot

namespace Underway

variable {s : MotionExecutor ℝ}

theorem override (u : Underway target vMax s) (value : ℝ) :
    Underway target vMax (s.overrideCallback value) :=
  ⟨u.running, u.names, u.targets, u.current, u.velocity, u.queue⟩

theorem stays (u : Underway target vMax s) (ho : s.feedrateOverrideCmd = 0)
    (h : Moderate (.control still) s) : approach (vMax * controlPeriod) target 0 = 0 := by
  have hj : s.jointNames ≠ [] := by simp [u.names]
  obtain ⟨seg, _, hc⟩ := h _ _ (mem_news_command.mpr ⟨still, rfl, u.running, hj, rfl, rfl⟩)
  obtain ⟨q, p, hq, hp, hd⟩ := hc 0 "mast_to_carriage_joint" (by rw [u.names]; rfl) mast_structural
  rw [u.current] at hq
  rw [u.commands] at hp
  cases hq
  cases hp
  have ha := seg.authority_le 0
  rw [mul_zero] at ha
  rw [ho, sub_zero] at hd
  exact abs_nonpos_iff.mp (hd.trans (mul_nonpos_of_nonneg_of_nonpos controlPeriod_pos.le ha))

end Underway

-- Under an override of zero the mast moves with the velocity of its segment.
theorem moves_beyond_authority :
    ¬Along step Moderate (boot 0 0) (departure 1 1 ++ [.override 0, .control still]) := by
  intro h
  have h := ((((h _ rfl).right _ rfl).right _ rfl).right _ rfl).left
  have hs := ((departure_underway 1 1 (by norm_num)).override 0).stays
    (by norm_num [overrideCallback]) h
  norm_num [approach, controlPeriod] at hs

end Executor
