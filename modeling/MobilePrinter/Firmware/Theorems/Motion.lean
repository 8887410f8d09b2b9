import MobilePrinter.Firmware.Motion.RosSim

namespace Firmware
namespace RosSimMotionController

variable {c : RosSimMotionController} {callback : SpinCallback}

theorem deliver_abortActive : (c.deliver callback).abortActive = c.abortActive := by
  cases callback <;> rfl

theorem deliver_lastSubmittedSeq :
    (c.deliver callback).lastSubmittedSeq = c.lastSubmittedSeq := by
  cases callback <;> rfl

theorem deliver_abortPub : (c.deliver callback).abortPub = c.abortPub := by
  cases callback <;> rfl

theorem foldl_deliver {α : Type} {f : RosSimMotionController → α}
    (h : ∀ {c callback}, f (c.deliver callback) = f c) (callbacks : List SpinCallback) :
    f (callbacks.foldl .deliver c) = f c := by
  induction callbacks generalizing c
  case nil          => rfl
  case cons _ _ ih  => exact ih.trans h

end RosSimMotionController

namespace RosMotion

variable {m : RosMotion} {cmd : MotionCommand}

theorem spin_controller {α : Type} {f : RosSimMotionController → α}
    (h : ∀ {c callback}, f (c.deliver callback) = f c) :
    f m.spin.controller = f m.controller := by
  simp only [spin]
  split
  · rfl
  · exact RosSimMotionController.foldl_deliver h _

@[simp]
theorem spin_abortActive : m.spin.controller.abortActive = m.controller.abortActive :=
  spin_controller RosSimMotionController.deliver_abortActive

@[simp]
theorem spin_abortPub : m.spin.controller.abortPub = m.controller.abortPub :=
  spin_controller RosSimMotionController.deliver_abortPub

theorem spin_lastSubmittedSeq :
    m.spin.controller.lastSubmittedSeq = m.controller.lastSubmittedSeq :=
  spin_controller RosSimMotionController.deliver_lastSubmittedSeq

@[simp]
theorem inflight_abortActive : m.inflight.2.controller.abortActive = m.controller.abortActive := by
  simp [inflight]

@[simp]
theorem isReady_abortActive : m.isReady.2.controller.abortActive = m.controller.abortActive := by
  simp only [isReady]
  split
  · simp
  split
  · simp
  · split <;> split <;> simp

@[simp]
theorem abortFallback_abortActive :
    m.abortFallback.2.controller.abortActive = m.controller.abortActive := by
  simp only [abortFallback]
  split
  · simp
  split <;> simp

@[simp]
theorem checkWatchdog_abortActive :
    m.checkWatchdog.2.controller.abortActive = m.controller.abortActive := by
  simp only [checkWatchdog]
  split
  · simp
  split <;> simp

theorem clearDrainedAbort_abortActive (h : m.controller.abortActive = false) :
    m.clearDrainedAbort.controller.abortActive = false := by
  simp [clearDrainedAbort, h]

theorem poll_abortActive (h : m.controller.abortActive = false) :
    (m.poll b).2.2.controller.abortActive = false := by
  simp only [poll]
  split
  · simp [h]
  split
  · simp [h]
  · exact clearDrainedAbort_abortActive (by simp [h])

theorem submit_abortActive (h : m.controller.abortActive = false) :
    (m.submit cmd).2.controller.abortActive = false := by
  simp only [submit]
  split
  · simp [h]
  · simp [publishMotionCommand, h]

theorem keeps_inactive :
    MotionController.Keeps fun m : RosMotion => m.controller.abortActive = false where
  submit    := submit_abortActive
  poll      := poll_abortActive
  isReady h := isReady_abortActive.trans h

theorem setAbortActive_abortActive : (m.setAbortActive b).controller.abortActive = b :=
  rfl

theorem setAbortActive_abortPub :
    (m.setAbortActive b).controller.abortPub = m.controller.abortPub := by
  simp [setAbortActive]

theorem abort_abortPub : m.abort.controller.abortPub = m.controller.abortPub + 1 := by
  simp [abort, setAbortActive_abortPub]

-- The number of commands that `is_ready` lets be in flight, and the controller in which it then
-- counts them.
def room (m : RosMotion) : UInt32 × RosMotion :=
  let m := m.spin
  if !m.controller.executorReady then
    (0, m)
  else
    let m   := m.spin
    let cap := m.controller.executorQueueCapacity
    let m   := m.spin
    if cap == 0 then
      (RosSimMotionController.streamWindow, m)
    else
      let target := if cap > 2 then cap - 2 else cap
      if m.controller.executorQueueDepth ≥ target then (0, m) else (target, m)

def pending (m : RosMotion) : UInt32 :=
  m.room.2.inflight.1

-- What is in flight, if there is anything, takes up all the room.
def Filled (m : RosMotion) : Prop :=
  m.pending = 0 ∨ m.room.1 ≤ m.pending

instance : Decidable (Filled m) :=
  inferInstanceAs (Decidable (_ ∨ _))

theorem inflight_controller : m.inflight.2.controller.inflight = m.inflight.1 := by
  simp only [inflight, RosSimMotionController.inflight, spin_lastSubmittedSeq]

theorem isReady_cases :
    (m.isReady = (false, m.room.2) ∧ m.room.1 = 0) ∨
    m.isReady = (decide (m.pending < m.room.1), m.room.2.inflight.2) := by
  simp only [isReady, pending, room]
  split
  case isTrue => exact .inl ⟨rfl, rfl⟩
  split
  case isTrue => exact .inr rfl
  generalize (if m.spin.spin.controller.executorQueueCapacity > 2
    then m.spin.spin.controller.executorQueueCapacity - 2
    else m.spin.spin.controller.executorQueueCapacity) = target
  split
  case isTrue  => exact .inl ⟨rfl, rfl⟩
  case isFalse => exact .inr (by simp [← UInt32.not_lt])

theorem isReady_iff_room : m.isReady.1 = true ↔ m.pending < m.room.1 := by
  cases isReady_cases (m := m)
  case inl h => simp [h.left, h.right]
  case inr h => simp [h]

theorem isReady_inflight (h : m.isReady.1 = true) :
    m.isReady.2.controller.inflight = m.pending := by
  cases isReady_cases (m := m)
  case inl hr => simp [hr.left] at h
  case inr hr =>
    rw [hr]
    exact inflight_controller

theorem filled_iff :
    m.Filled ↔ (m.isReady.1 = true → m.isReady.2.controller.inflight = 0) := by
  constructor
  case mp =>
    intro hf hr
    rw [isReady_inflight hr]
    exact hf.resolve_right (UInt32.not_le.mpr (isReady_iff_room.mp hr))
  case mpr =>
    intro hd
    by_cases hr : m.isReady.1 = true
    case pos => exact .inl ((isReady_inflight hr).symm.trans (hd hr))
    case neg => exact .inr (UInt32.not_lt.mp (mt isReady_iff_room.mpr hr))

-- The spin thread runs at most once more, and then the executor is ready, limits no queue and has
-- `inflight` commands left.
structure Serves (m : RosMotion) (inflight : UInt32) : Prop where
  last     : m.schedule.tail = []
  ready    : m.spin.controller.executorReady = true
  capacity : m.spin.controller.executorQueueCapacity = 0
  inflight : m.spin.controller.inflight = inflight

theorem spin_spin (h : m.schedule.tail = []) : m.spin.spin = m.spin := by
  cases hs : m.schedule
  case nil         => simp [spin, hs]
  case cons _ rest =>
    have hr : rest = [] := by simpa [hs] using h
    simp [spin, hs, hr]

theorem spin_schedule (h : m.schedule.tail = []) : m.spin.schedule = [] := by
  cases hs : m.schedule
  case nil         => simp [spin, hs]
  case cons _ rest => simpa [spin, hs] using h

namespace Serves

theorem of_spin (h : Serves m k) (hs : m'.schedule = [])
    (hr : m'.controller.executorReady = m.spin.controller.executorReady)
    (hc : m'.controller.executorQueueCapacity = m.spin.controller.executorQueueCapacity)
    (hi : m'.controller.inflight = n) : Serves m' n := by
  have he : m'.spin = m' := by simp [RosMotion.spin, hs]
  exact ⟨by rw [hs]; rfl, by rw [he, hr, h.ready], by rw [he, hc, h.capacity], by rw [he, hi]⟩

theorem spin (h : Serves m k) : Serves m.spin k :=
  h.of_spin (spin_schedule h.last) rfl rfl h.inflight

theorem isReady (h : Serves m k) (hk : k < RosSimMotionController.streamWindow) :
    m.isReady = (true, m.spin) := by
  have hi := h.inflight
  simp only [RosSimMotionController.inflight] at hi
  simp [RosMotion.isReady, RosMotion.inflight, spin_spin h.last, h.ready, h.capacity, hi, hk]

theorem submit (h : Serves m k) (hk : k < RosSimMotionController.streamWindow) :
    (m.submit cmd).1 = .accepted ∧ Serves (m.submit cmd).2 (k + 1) := by
  simp only [RosMotion.submit, h.isReady hk, spin_spin h.last]
  refine ⟨rfl, h.of_spin (spin_schedule h.last) rfl rfl ?_⟩
  have hi : m.spin.controller.lastSubmittedSeq - m.spin.controller.lastCompletedSeq = k :=
    h.inflight
  change m.spin.controller.lastSubmittedSeq + 1 - m.spin.controller.lastCompletedSeq = k + 1
  grind

theorem poll (h : Serves m k) : Serves (m.poll b).2.2 k := by
  have hs := spin_spin h.last
  have hf : m.spin.abortFallback.2 = m.spin := by
    simp only [abortFallback, hs]
    split
    · rfl
    · split <;> rfl
  have hw : m.spin.checkWatchdog.2 = m.spin := by
    simp only [checkWatchdog, RosMotion.inflight, hs]
    split
    · rfl
    · split <;> rfl
  simp only [RosMotion.poll, RosMotion.inflight, hs, hf, hw]
  split
  · exact h.spin
  split
  · exact h.of_spin (spin_schedule h.last) rfl rfl h.inflight
  simp only [clearDrainedAbort, RosMotion.inflight, hs]
  split
  · exact h.spin
  split
  · exact h.spin
  · exact h.of_spin (spin_schedule h.last) rfl rfl h.inflight

end Serves

end RosMotion
end Firmware
