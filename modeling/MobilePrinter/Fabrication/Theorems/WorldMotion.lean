import MobilePrinter.Fabrication.WorldMotionController

namespace Fabrication

open Firmware

-- Operations that are those on doubles for zero and one, as long as the result is zero or one.
abbrev zeroOne : Arithmetic Double where
  add a b := if a = ⟨0⟩ then b else a
  sub a b := if a = b then ⟨0⟩ else a
  mul a b := if a = ⟨0⟩ then ⟨0⟩ else b
  div a _ := a
  sqrt a  := a
  lt a b  := decide (a.bits < b.bits)

namespace WorldMotionController

variable {c : WorldMotionController} {error : Position Double} {msg : MotionTarget}

theorem enterThreshold_pending :
    (c.enterThreshold start).pendingTargets = c.pendingTargets := by
  simp only [enterThreshold]
  split <;> rfl

theorem enterThreshold_active : (c.enterThreshold start).targetActive = c.targetActive := by
  simp only [enterThreshold]
  split <;> rfl

theorem enterThreshold_activeSeq : (c.enterThreshold start).activeSeq = c.activeSeq := by
  simp only [enterThreshold]
  split <;> rfl

theorem enterThreshold_within : (c.enterThreshold start).withinThreshold = true := by
  cases h : c.withinThreshold <;> simp [enterThreshold, h]

theorem complete_within : c.complete.2.withinThreshold = false := by
  simp only [complete]
  split <;> rfl

theorem complete_pending : c.complete.2.pendingTargets = c.pendingTargets.tail := by
  simp only [complete]
  split <;> rfl

theorem complete_seq : c.complete.1 = c.activeSeq := by
  simp only [complete]
  split <;> rfl

-- A target is active exactly if there are pending ones, and then it is the oldest of them.
structure Fronted (c : WorldMotionController) : Prop where
  active : c.targetActive = true ↔ c.pendingTargets ≠ []
  front  : ∀ seq ∈ c.pendingTargets.head?, c.activeSeq = seq

namespace Fronted

theorem enterThreshold (f : Fronted c) : Fronted (c.enterThreshold start) where
  active := by rw [enterThreshold_active, enterThreshold_pending, f.active]
  front  := by rw [enterThreshold_activeSeq, enterThreshold_pending]; exact f.front

theorem complete : Fronted c.complete.2 := by
  cases hp : c.pendingTargets.tail
  all_goals constructor <;> simp [WorldMotionController.complete, hp]

end Fronted

-- What all callbacks but that of an error leave of the controller: a target that is active stays
-- so, and so does the dwell at it.
structure Steady (c c' : WorldMotionController) : Prop where
  within : c'.withinThreshold = c.withinThreshold
  start  : c'.withinThresholdStart = c.withinThresholdStart
  active : c.targetActive = true → c'.targetActive = true ∧ c'.activeSeq = c.activeSeq

theorem Steady.refl : Steady c c :=
  ⟨rfl, rfl, fun h => ⟨h, rfl⟩⟩

variable [Arithmetic Double]

theorem Steady.motionTargetCallback : Steady c (c.motionTargetCallback msg).2.2 := by
  cases h : c.targetActive
  all_goals constructor <;> simp [WorldMotionController.motionTargetCallback, h]

-- What is done about an error: nothing without an active target, and otherwise a dwell is given up,
-- goes on or completes the active target.
inductive Handles (c : WorldMotionController) (error : Position Double) (start now : Int) :
    Option UInt32 × WorldMotionController → Prop
  | idle : c.targetActive = false → Handles c error start now (none, c)
  | lost :
    c.targetActive = true → ¬Within error →
    Handles c error start now (none, { c with withinThreshold := false })
  | dwells :
    c.targetActive = true → Within error →
    now - (c.enterThreshold start).withinThresholdStart < completeTime →
    Handles c error start now (none, c.enterThreshold start)
  | completes :
    c.targetActive = true → Within error →
    now - (c.enterThreshold start).withinThresholdStart ≥ completeTime →
    Handles c error start now
      (some (c.enterThreshold start).complete.1, (c.enterThreshold start).complete.2)

theorem errorCallback_handles (c : WorldMotionController) (error : Position Double)
    (start now : Int) :
    Handles c error start now (c.errorCallback error start now) := by
  simp only [errorCallback]
  split
  case isTrue h => exact .idle (by simpa using h)
  case isFalse h =>
    have ha : c.targetActive = true := by simpa using h
    split
    case isFalse hw => exact .lost ha hw
    case isTrue hw =>
      split
      case isFalse ht => exact .dwells ha hw (Int.not_le.mp ht)
      case isTrue ht  => exact .completes ha hw ht

theorem motionTargetCallback_pending :
    (c.motionTargetCallback msg).2.2.pendingTargets = c.pendingTargets ++ [msg.sequenceId] := by
  simp only [motionTargetCallback]
  split <;> rfl

namespace Fronted

theorem motionTargetCallback (f : Fronted c) : Fronted (c.motionTargetCallback msg).2.2 := by
  cases ha : c.targetActive
  case false =>
    have hp : c.pendingTargets = [] := by simpa [ha] using f.active
    constructor <;> simp [WorldMotionController.motionTargetCallback, ha, hp]
  case true =>
    have ⟨seq, rest, hc⟩ := List.exists_cons_of_ne_nil (f.active.mp ha)
    have hf : c.activeSeq = seq := f.front seq (by rw [hc]; rfl)
    constructor <;> simp [WorldMotionController.motionTargetCallback, ha, hc, hf]

theorem errorCallback (error : Position Double) (start now : Int) (f : Fronted c) :
    Fronted (c.errorCallback error start now).2 ∧
      c.pendingTargets = (c.errorCallback error start now).1.toList ++
        (c.errorCallback error start now).2.pendingTargets := by
  have h := errorCallback_handles c error start now
  generalize c.errorCallback error start now = r at h
  cases h
  case idle => exact ⟨f, rfl⟩
  case lost => exact ⟨⟨f.active, f.front⟩, rfl⟩
  case dwells => exact ⟨f.enterThreshold, enterThreshold_pending.symm⟩
  case completes ha _ _ =>
    have ⟨seq, rest, hc⟩ := List.exists_cons_of_ne_nil (f.active.mp ha)
    have hf : c.activeSeq = seq := f.front seq (by rw [hc]; rfl)
    refine ⟨complete, ?_⟩
    rw [complete_seq, complete_pending, enterThreshold_activeSeq, enterThreshold_pending, hc, hf]
    rfl

end Fronted
end WorldMotionController
end Fabrication
