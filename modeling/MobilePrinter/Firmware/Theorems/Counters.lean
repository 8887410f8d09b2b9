import MobilePrinter.Firmware.Theorems.Motion
import MobilePrinter.Library.Numbering

namespace Firmware

open Numbering

def SpinCallback.completed? : SpinCallback → Option UInt32
  | .worldComplete seq _ => some seq
  | _                    => none

def SpinCallback.Within (capacity : UInt32) : SpinCallback → Prop
  | .motionStatus _ _ reported _ => reported ≤ capacity
  | _                            => True

namespace RosSimMotionController

variable {c : RosSimMotionController} {capacity : UInt32}

theorem deliver_targetPub {callback : SpinCallback} :
    (c.deliver callback).targetPub = c.targetPub := by
  cases callback <;> rfl

theorem foldl_deliver_completed (callbacks : List SpinCallback) :
    (callbacks.foldl .deliver c).lastCompletedSeq =
      (callbacks.filterMap SpinCallback.completed?).foldl (fun _ seq => seq)
        c.lastCompletedSeq := by
  induction callbacks generalizing c
  case nil                => rfl
  case cons callback _ ih => cases callback <;> exact ih

theorem foldl_deliver_capacity {callbacks : List SpinCallback}
    (h : c.executorQueueCapacity ≤ capacity)
    (hw : ∀ callback ∈ callbacks, callback.Within capacity) :
    (callbacks.foldl .deliver c).executorQueueCapacity ≤ capacity := by
  induction callbacks generalizing c
  case nil => exact h
  case cons callback _ ih =>
    have ⟨hc, hw⟩ := List.forall_mem_cons.mp hw
    refine ih ?_ hw
    cases callback
    case motionStatus => exact hc
    all_goals exact h

end RosSimMotionController

namespace RosMotion

variable {m : RosMotion} {capacity : UInt32} {n d k : Nat}

theorem spin_schedule_eq : m.spin.schedule = m.schedule.tail := by
  simp only [spin]
  split
  case _ h => simp [h]
  case _   => rfl

theorem inflight_keeps {I : RosMotion → Prop} (h : ∀ {m}, I m → I m.spin) (hi : I m) :
    I m.inflight.2 :=
  h (h hi)

theorem isReady_keeps {I : RosMotion → Prop} (h : ∀ {m}, I m → I m.spin) (hi : I m) :
    I m.isReady.2 := by
  simp only [isReady]
  split
  · exact h hi
  split
  · exact inflight_keeps h (h (h (h hi)))
  · split <;> split
    all_goals
      first
      | exact h (h (h hi))
      | exact inflight_keeps h (h (h (h hi)))

open RosSimMotionController in
theorem isReady_targetPub : m.isReady.2.controller.targetPub = m.controller.targetPub :=
  isReady_keeps (I := fun m' => m'.controller.targetPub = m.controller.targetPub)
    (spin_controller deliver_targetPub).trans rfl

theorem submit_of_busy (h : m.isReady.1 = false) : m.submit cmd = (.rejected, m.isReady.2) := by
  simp [submit, h]

-- The number that a command gets which is submitted now.
def nextSeq (m : RosMotion) : UInt32 :=
  m.controller.lastSubmittedSeq + 1

def withSubmitted (m : RosMotion) : RosMotion :=
  { m with controller := { m.controller with lastSubmittedSeq := m.nextSeq } }

theorem submit_of_ready (h : m.isReady.1 = true) : m.submit cmd = (.accepted,
    m.isReady.2.spin.withSubmitted.publishMotionCommand m.isReady.2.spin.nextSeq cmd) := by
  simp [submit, h, withSubmitted, nextSeq]

def due (m : RosMotion) : List UInt32 :=
  m.schedule.flatMap fun slice => slice.callbacks.filterMap SpinCallback.completed?

-- `n` commands have been submitted and `d` have been completed, and the schedule runs through the
-- completions up to `k`.
structure Tracks (capacity : UInt32) (n d k : Nat) (m : RosMotion) : Prop where
  submitted : m.controller.lastSubmittedSeq = .ofNat n
  completed : m.controller.lastCompletedSeq = .ofNat d
  due       : m.due = between .ofNat d k
  ordered   : d ≤ k
  reported  : m.controller.executorQueueCapacity ≤ capacity
  within    : ∀ slice ∈ m.schedule, ∀ callback ∈ slice.callbacks, callback.Within capacity

namespace Tracks

open RosSimMotionController

theorem inflight (t : Tracks capacity n d k m) (h : d ≤ n) :
    m.controller.inflight = .ofNat (n - d) := by
  rw [RosSimMotionController.inflight, t.submitted, t.completed, UInt32.ofNat_sub h]

theorem spin_of_nil (hs : m.schedule = []) : m.spin = m := by
  simp [RosMotion.spin, hs]

theorem spin (t : Tracks capacity n d k m) : ∃ d', d ≤ d' ∧ Tracks capacity n d' k m.spin := by
  cases hs : m.schedule
  case nil =>
    rw [spin_of_nil hs]
    exact ⟨d, Nat.le_refl d, t⟩
  case cons slice rest =>
    have ⟨hc, hw⟩ := List.forall_mem_cons.mp (hs ▸ t.within)
    have hd := t.due
    rw [RosMotion.due, hs, List.flatMap_cons] at hd
    have ⟨d', hl, hk, hx, hy⟩ := between_split hd.symm t.ordered
    refine ⟨d', hl, ?_⟩
    constructor
    case submitted => exact spin_lastSubmittedSeq.trans t.submitted
    case ordered   => exact hk
    all_goals simp only [RosMotion.spin, RosMotion.due, hs, List.tail_cons]
    case completed =>
      rw [RosSimMotionController.foldl_deliver_completed, ← hx, t.completed, foldl_between hl]
    case due       => exact hy.symm
    case reported  => exact RosSimMotionController.foldl_deliver_capacity t.reported hc
    case within    => exact hw

theorem spin_from (h : ∃ d', d ≤ d' ∧ Tracks capacity n d' k m) :
    ∃ d', d ≤ d' ∧ Tracks capacity n d' k m.spin := by
  have ⟨d₁, h₁, t⟩ := h
  have ⟨d₂, h₂, t⟩ := t.spin
  exact ⟨d₂, Nat.le_trans h₁ h₂, t⟩

theorem isReady (t : Tracks capacity n d k m) :
    ∃ d', d ≤ d' ∧ Tracks capacity n d' k m.isReady.2 :=
  isReady_keeps (I := fun m => ∃ d', d ≤ d' ∧ Tracks capacity n d' k m) spin_from
    ⟨d, Nat.le_refl d, t⟩

theorem target_le {cap : UInt32} : (if cap > 2 then cap - 2 else cap) ≤ cap := by
  grind

theorem room_le (t : Tracks capacity n d k m) : m.room.1.toNat ≤ max 5 capacity.toNat := by
  have ⟨_, _, t⟩ := spin_from t.spin
  have hr := t.reported
  simp only [room]
  split
  · exact Nat.zero_le _
  split
  · exact Nat.le_max_left _ _
  have hc := UInt32.le_trans target_le hr
  generalize (if m.spin.spin.controller.executorQueueCapacity > 2
    then m.spin.spin.controller.executorQueueCapacity - 2
    else m.spin.spin.controller.executorQueueCapacity) = target at hc
  split
  · exact Nat.zero_le _
  · exact Nat.le_trans hc (Nat.le_max_right _ _)

theorem window (t : Tracks capacity n d k m) (hk : k ≤ n) (hw : n ≤ d + max 5 capacity.toNat)
    (hr : m.isReady.1 = true) :
    ∃ d', d ≤ d' ∧ n < d' + max 5 capacity.toNat ∧ Tracks capacity n d' k m.isReady.2 := by
  have ⟨d', hd, t'⟩ := t.isReady
  have hl := UInt32.lt_iff_toNat_lt.mp (isReady_iff_room.mp hr)
  have hc := capacity.toNat_lt
  have hn := t'.ordered
  rw [← isReady_inflight hr, t'.inflight (by omega), UInt32.toNat_ofNat_of_lt' (by grind)] at hl
  have hm := t.room_le
  exact ⟨d', hd, by omega, t'⟩

theorem submit (cmd : MotionCommand) (t : Tracks capacity n d k m) (hk : k ≤ n)
    (hw : n ≤ d + max 5 capacity.toNat) :
    ((m.submit cmd).1 = .rejected ∧
      (m.submit cmd).2.controller.targetPub = m.controller.targetPub ∧
      ∃ d', d ≤ d' ∧ Tracks capacity n d' k (m.submit cmd).2) ∨
    (m.submit cmd).1 = .accepted ∧
      (∃ msg, msg.sequenceId = .ofNat (n + 1) ∧
        (m.submit cmd).2.controller.targetPub = msg :: m.controller.targetPub) ∧
      ∃ d', d ≤ d' ∧ n < d' + max 5 capacity.toNat ∧
        Tracks capacity (n + 1) d' k (m.submit cmd).2 := by
  cases hr : m.isReady.1
  case false =>
    have ⟨d', hd, t'⟩ := t.isReady
    rw [submit_of_busy hr]
    exact .inl ⟨rfl, isReady_targetPub, d', hd, t'⟩
  case true =>
    have ⟨d₁, h₁, hw, t₁⟩ := t.window hk hw hr
    have ⟨d₂, h₂, t₂⟩ := t₁.spin
    have hs : m.isReady.2.spin.nextSeq = .ofNat (n + 1) := by
      rw [nextSeq, t₂.submitted, UInt32.ofNat_add]
      rfl
    have hp := (spin_controller deliver_targetPub).trans (isReady_targetPub (m := m))
    rw [submit_of_ready hr]
    exact .inr ⟨rfl, ⟨_, hs, congrArg (List.cons _) hp⟩, d₂, Nat.le_trans h₁ h₂, by omega,
      { t₂ with submitted := hs }⟩

end Tracks
end RosMotion
end Firmware
