import Mathlib.Tactic.NormNum
import MobilePrinter.Base.Theorems.Protocol

namespace Base

open Serving Smoothing Transition

variable {R : Type*} [Field R] [LinearOrder R]

def Twist.Moderate (twist : Twist R) : Prop :=
  |twist.linearX| ≤ 0.4 ∧ |twist.angularZ| ≤ 0.5

section Moderation

variable [IsStrictOrderedRing R]

theorem stopCmd_moderate : (stopCmd : Twist R).Moderate := by
  constructor <;> norm_num [stopCmd]

theorem PoseError.targets_moderate (error : PoseError R) :
    |error.targets.1| ≤ 0.4 ∧ |error.targets.2| ≤ 0.5 := by
  have hz : |(0.0 : R)| = 0 := by norm_num
  rw [targets]
  split
  case isFalse => rw [hz]; norm_num
  case isTrue  =>
    refine ⟨?_, abs_clamp_le (by norm_num)⟩
    split
    case isTrue  => exact abs_clamp_le (by norm_num)
    case isFalse => rw [hz]; norm_num

end Moderation

namespace BaseMotionController

variable {s s' s₁ : BaseMotionController R}

structure Envelope (s : BaseMotionController R) : Prop where
  linear  : |s.currentVx| ≤ 0.4
  angular : |s.currentWz| ≤ 0.5
  twists  : ∀ twist, .cmdVel twist ∈ s.published → twist.Moderate

namespace Envelope

theorem keep (h : Envelope s) (hv : s'.currentVx = s.currentVx) (hw : s'.currentWz = s.currentWz)
    (hp : s'.published = s.published) : Envelope s' where
  linear  := hv ▸ h.linear
  angular := hw ▸ h.angular
  twists  := hp ▸ h.twists

theorem publish (h : Envelope s) (he : ∀ twist, e = .cmdVel twist → twist.Moderate) :
    Envelope (s.publish e) where
  linear       := h.linear
  angular      := h.angular
  twists twist := by
    intro ht
    cases List.mem_cons.mp ht
    case inl ht => exact he twist ht.symm
    case inr ht => exact h.twists twist ht

theorem takes (h : Envelope s) (ht : Takes s s₁) : Envelope s₁ := by
  cases ht
  case current => exact h
  case next    =>
    apply publish
    case h  => exact h.keep rfl rfl rfl
    case he => rintro _ ⟨⟩

variable [IsStrictOrderedRing R]

theorem boot : Envelope (boot cmd : BaseMotionController R) where
  linear  := by norm_num [BaseMotionController.boot]
  angular := by norm_num [BaseMotionController.boot]
  twists  := by
    rintro _ ⟨⟩

theorem finish (h : Envelope s) : Envelope s.finish := by
  apply publish
  case h =>
    apply publish
    case h  => exact h.keep rfl rfl rfl
    case he =>
      rintro _ ⟨⟩
      exact stopCmd_moderate
  case he =>
    rintro _ ⟨⟩

variable [Cmath R]

-- The targets do not leave the envelope, and so neither do the velocities that approach them.
theorem drive (h : Envelope s) : Envelope (s.drive dt) := by
  have hr : (0.03 : R) ∈ Set.Icc 0 1 := by norm_num
  have ht := s.poseError.targets_moderate
  have hl : |(s.drive dt).currentVx| ≤ 0.4 := by
    rw [drive_eq]
    exact abs_smooth_le hr ht.left h.linear
  have ha : |(s.drive dt).currentWz| ≤ 0.5 := by
    rw [drive_eq]
    exact abs_smooth_le hr ht.right h.angular
  refine ⟨hl, ha, ?_⟩
  rw [drive_published]
  intro twist ht
  cases List.mem_cons.mp ht
  case inl ht => cases ht; exact ⟨hl, ha⟩
  case inr ht => exact h.twists twist ht

theorem next (h : Envelope s) (m : Moves s i s') : Envelope s' := by
  cases m
  case queued =>
    apply publish
    case h  => exact h.keep rfl rfl rfl
    case he => rintro _ ⟨⟩
  case measured =>
    apply publish
    case h  => exact h.keep rfl rfl rfl
    case he => rintro _ ⟨⟩
  case rested        => exact h.publish (by rintro _ ⟨⟩)
  case drove ht _    => exact (h.takes ht).drive.publish (by rintro _ ⟨⟩)
  case finished ht _ => exact (h.takes ht).drive.finish.publish (by rintro _ ⟨⟩)

theorem run (e : Run step (BaseMotionController.boot cmd) is s) : Envelope s :=
  e.invariant (fun h hs => h.next (step_moves hs)) boot

end Envelope
end BaseMotionController

open BaseMotionController

theorem commands_in_turn {s : BaseMotionController ℝ} (e : Run step (boot cmd) is s) :
    accepted (marks s.published) = received is ∧
    (received is).Nodup ∧
    (∀ h, h <:+ s.published →
      started (marks h) <+: accepted (marks h) ∧
      finished (marks h) <+: started (marks h) ∧
      (started (marks h)).length ≤ (finished (marks h)).length + 1) ∧
    ∀ twist, .cmdVel twist ∈ s.published → |twist.linearX| ≤ 0.4 ∧ |twist.angularZ| ≤ 0.5 := by
  refine ⟨(Accepts.run e).accepted, received_nodup, ?_, (Envelope.run e).twists⟩
  intro h hs
  exact inTurn_prefix ((InTurn.run e).inTurn.of_suffix (hs.filterMap _))

def here : BaseMotionCommand ℝ where
  sequenceId      := 1
  targetX         := 0
  targetY         := 0
  targetTheta     := 0
  linearVelocity  := 3
  angularVelocity := 3

theorem commands_in_turn_two : ∃ s : BaseMotionController ℝ,
    Run step (boot (here.queued 0)) [.command here, .command here, .tick, .tick] s ∧
    accepted (marks s.published) = [here.queued 0, here.queued 1] ∧
    ∀ twist, .cmdVel twist ∈ s.published → |twist.linearX| ≤ 0.4 ∧ |twist.angularZ| ≤ 0.5 :=
  have h := commands_in_turn run_foldl
  ⟨_, run_foldl, h.left, h.right.right.right⟩

end Base
