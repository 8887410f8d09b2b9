import MobilePrinter.Executor.Theorems.Moves

namespace Executor

open Transition

namespace MotionExecutor

variable {R : Type*} {s s' : MotionExecutor R} {i : Input R}

-- The message is a reset that is not refused.
def Resets : Input R → MotionExecutor R → Prop
  | .reset, s => s.machineState ≠ .estop
  | _, _      => False

instance : Decidable (Resets i s) :=
  match i with
  | .reset => inferInstanceAs (Decidable (_ ≠ _))
  | .segment .. | .jointState .. | .control _ | .override _ | .estop _ | .abort => .isFalse id

def Releases : Input R → MotionExecutor R → Prop
  | .estop false, s => s.machineState = .estop
  | _, _            => False

variable [Arithmetic R]

-- A segment message is answered with status 4 and not queued.
def Refuses : Input R → MotionExecutor R → Prop
  | .segment msg stray, s =>
    let s' := s.segmentCallback msg stray
    s'.segmentQueue = s.segmentQueue ∧
      s'.published.filterMap Event.status? =
        { segmentId := msg.segmentId, status := 4 } :: s.published.filterMap Event.status?
  | _, _ => True

theorem refuses_of_not_normal (i : Input R) (h : s.machineState ≠ .normal) : Refuses i s := by
  cases i
  case segment =>
    simp only [Refuses, segmentCallback, h, ne_eq, not_false_eq_true, true_or, if_true]
    exact ⟨rfl, rfl⟩
  all_goals trivial

theorem Starts.not_normal (h : Starts stray s s') (hm : s.machineState ≠ .normal) :
    s'.machineState ≠ .normal := by
  cases h
  case latched => exact nofun
  all_goals exact hm

theorem Moves.not_normal (m : Moves s i s') (hm : s.machineState ≠ .normal) (hs : ¬Resets i s)
    (hr : ¬Releases i s) : s'.machineState ≠ .normal := by
  cases m
  case started hn _ _ _ _  => exact absurd hn hm
  case completed hc        => exact hc.not_normal hm
  case cleared he          => exact absurd he hs
  case released he         => exact absurd he hr
  case stopped             => exact nofun
  all_goals exact hm

theorem Moves.normal_of_releases (m : Moves s i s') (h : Releases i s) :
    s'.machineState = .normal := by
  cases m
  case released    => rfl
  case ignored he  => exact absurd h he
  all_goals cases h

end MotionExecutor

open MotionExecutor

variable {R : Type*} [Arithmetic R] {s : MotionExecutor R} {is : List (Input R)}

theorem latched_iff_not_released (hl : s.machineState = .faultLatched)
    (hs : Along step (¬Resets · ·) s is) :
    Always step (·.machineState ≠ .normal) s is ∧ Along step Refuses s is ↔
      Along step (¬Releases · ·) s is := by
  have h : Always step (·.machineState ≠ .normal) s is ↔ Along step (¬Releases · ·) s is :=
    always_iff_along_of (I := fun s => s.machineState ≠ .normal) id
      (fun hm hs hr h => (step_moves h).not_normal hm hs hr)
      (fun _ _ hm h hr => hm ((step_moves h).normal_of_releases hr)) (by simp [hl]) hs
  constructor
  case mp  => exact fun hr => h.mp hr.left
  case mpr =>
    intro hr
    exact ⟨h.mpr hr, (h.mpr hr).along fun hm => refuses_of_not_normal _ hm⟩

-- A target beyond the limit latches the fault. During an emergency stop it stays, and so it does
-- over an abort.
theorem latched_iff_not_released_stop :
    ∃ s : MotionExecutor ℚ, Run step (boot 0 0) [.jointState {} zero, mastTo 1 3 1] s ∧
      s.machineState = .faultLatched ∧
      (Always step (·.machineState ≠ .normal) s [.estop true, .reset, .abort, mastTo 2 1 1] ∧
        Along step Refuses s [.estop true, .reset, .abort, mastTo 2 1 1] ↔
      Along step (¬Releases · ·) s [.estop true, .reset, .abort, mastTo 2 1 1]) :=
  ⟨_, run_foldl, by decide +kernel,
    latched_iff_not_released (by decide +kernel) (by decide +kernel)⟩

-- Pressing and releasing the emergency stop clears the latch, and a segment is queued.
theorem latch_released :
    ∃ s : MotionExecutor ℚ, Run step (boot 0 0) [.jointState {} zero, mastTo 1 3 1] s ∧
      s.machineState = .faultLatched ∧
      Along step (¬Resets · ·) s [.estop true, .estop false, mastTo 2 1 1] ∧
      ¬Always step (·.machineState ≠ .normal) s [.estop true, .estop false, mastTo 2 1 1] ∧
      Reaches step (fun s => s.segmentQueue.length = 1) s
        [.estop true, .estop false, mastTo 2 1 1] :=
  ⟨_, run_foldl, by decide +kernel, by decide +kernel, by decide +kernel, by decide +kernel⟩

end Executor
