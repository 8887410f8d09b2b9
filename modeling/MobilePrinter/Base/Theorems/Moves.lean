import MobilePrinter.Base.BaseMotionController
import MobilePrinter.Library.Transition

namespace Base.BaseMotionController

open Smoothing Transition

variable {R : Type*} {s s' s₁ : BaseMotionController R}

def pursued? (s : BaseMotionController R) : Option (ActiveCommand R) :=
  if s.active then some s.current else s.queue.head?

section Taking

variable [Field R]

-- An update has a command in hand, or takes the next one.
inductive Takes (s : BaseMotionController R) : BaseMotionController R → Prop
  | current : s.active = true → Takes s s
  | next : s.active = false → s.queue = cmd :: cmds → Takes s (s.start cmd cmds)

namespace Takes

theorem active (h : Takes s s₁) : s₁.active = true := by
  cases h
  case current ha => exact ha
  case next       => rfl

theorem pursued (h : Takes s s₁) : s.pursued? = some s₁.current := by
  cases h
  case current ha => rw [pursued?, if_pos ha]
  case next ha hq => rw [pursued?, if_neg (by simp [ha]), hq]; rfl

theorem position (h : Takes s s₁) : s₁.currentX = s.currentX ∧ s₁.currentY = s.currentY := by
  cases h
  case current => exact ⟨rfl, rfl⟩
  case next    => exact ⟨rfl, rfl⟩

theorem stopping (h : Takes s s₁) (hs : s₁.stopping = true) :
    s.stopping = true ∧ s.active = true ∧ s₁ = s := by
  cases h
  case current ha => exact ⟨hs, ha, rfl⟩
  case next       => cases hs

end Takes

@[simp]
theorem publishState_currentTheta : s.publishState.currentTheta = s.currentTheta :=
  rfl

@[simp]
theorem finish_currentTheta : s.finish.currentTheta = s.currentTheta :=
  rfl

end Taking

variable [Field R] [LinearOrder R] [Cmath R] {dt : R}

theorem drive_eq : s.drive dt =
    let velocities := s.poseError.targets
    let twist := {
      linearX  := smooth 0.03 velocities.1 s.currentVx
      angularZ := smooth 0.03 velocities.2 s.currentWz }
    { s with
      elapsedTime := s.elapsedTime + dt
      targetVx    := velocities.1
      targetWz    := velocities.2
      currentVx   := twist.linearX
      currentWz   := twist.angularZ
      stopping    := s.stopping || decide (s.poseError.dist < 0.05)
      published   := .cmdVel twist :: s.published } :=
  rfl

@[simp]
theorem drive_queue : (s.drive dt).queue = s.queue := by
  rw [drive_eq]

@[simp]
theorem drive_active : (s.drive dt).active = s.active := by
  rw [drive_eq]

@[simp]
theorem drive_current : (s.drive dt).current = s.current := by
  rw [drive_eq]

@[simp]
theorem drive_receivedCount : (s.drive dt).receivedCount = s.receivedCount := by
  rw [drive_eq]

@[simp]
theorem drive_currentTheta : (s.drive dt).currentTheta = s.currentTheta := by
  rw [drive_eq]

theorem drive_stopping :
    (s.drive dt).stopping = (s.stopping || decide (s.poseError.dist < 0.05)) := by
  rw [drive_eq]

theorem drive_published : (s.drive dt).published =
    .cmdVel { linearX := (s.drive dt).currentVx, angularZ := (s.drive dt).currentWz } ::
      s.published := by
  simp only [drive_eq]

inductive Moves (s : BaseMotionController R) : Input R → BaseMotionController R → Prop
  | queued : Moves s (.command msg) (s.commandCallback msg)
  | measured : Moves s (.odom msg) (s.odomCallback msg)
  | rested : s.active = false → s.queue = [] → Moves s .tick s.publishState
  | drove :
    Takes s s₂ → ¬(s₂.drive 0.02).Finishes → Moves s .tick (s₂.drive 0.02).publishState
  | finished :
    Takes s s₂ → (s₂.drive 0.02).Finishes → Moves s .tick (s₂.drive 0.02).finish.publishState

theorem executeActive_moves (h : Takes s s₁) :
    Moves s .tick (s₁.executeActive 0.02).publishState := by
  by_cases hf : (s₁.drive 0.02).Finishes
  case pos =>
    rw [executeActive, if_pos hf]
    exact .finished h hf
  case neg =>
    rw [executeActive, if_neg hf]
    exact .drove h hf

theorem Takes.update (h : Takes s s₁) : s.update = (s₁.executeActive 0.02).publishState := by
  rw [BaseMotionController.update, startNext]
  cases h
  case current ha => simp only [ha, if_true]
  case next ha hq => simp only [ha, hq, start, publish, Bool.false_eq_true, if_false, if_true]

theorem update_moves (s : BaseMotionController R) : Moves s .tick s.update := by
  by_cases ha : s.active = true
  case pos =>
    have ht := Takes.current ha
    exact ht.update ▸ executeActive_moves ht
  case neg =>
    have ha := eq_false_of_ne_true ha
    cases hq : s.queue
    case nil =>
      rw [update, startNext]
      simp only [ha, hq, Bool.false_eq_true, if_false]
      exact .rested ha hq
    case cons cmd cmds =>
      have ht := Takes.next ha hq
      exact ht.update ▸ executeActive_moves ht

theorem next_moves (s : BaseMotionController R) (i : Input R) : Moves s i (s.next i) := by
  cases i
  case command => exact .queued
  case odom    => exact .measured
  case tick    => exact update_moves s

theorem step_moves (h : step i s = .ok s') : Moves s i s' := by
  cases h
  exact next_moves s i

theorem run_foldl : Run step s is (is.foldl next s) :=
  .foldl fun _ _ => rfl

end Base.BaseMotionController
