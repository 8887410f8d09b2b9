import Mathlib.Data.Rat.Defs
import MobilePrinter.Executor.MotionExecutor
import MobilePrinter.Library.Transition

namespace Executor.MotionExecutor

open Transition

variable {R : Type*}

-- Only events that satisfy `P` are published between the two states.
def Publishes (P : Event R → Prop) (s s' : MotionExecutor R) : Prop :=
  ∃ events, s'.published = events ++ s.published ∧ ∀ e ∈ events, P e

namespace Publishes

variable {P Q : Event R → Prop} {s₁ s₂ s₃ : MotionExecutor R}

theorem none (h : s₂.published = s₁.published) : Publishes P s₁ s₂ :=
  ⟨[], h, List.forall_mem_nil _⟩

theorem one (h : s₂.published = e :: s₁.published) (he : P e) : Publishes P s₁ s₂ :=
  ⟨[e], h, List.forall_mem_singleton.mpr he⟩

theorem two (h : s₂.published = e :: e' :: s₁.published) (he : P e) (he' : P e') :
    Publishes P s₁ s₂ :=
  ⟨[e, e'], h, List.forall_mem_cons.mpr ⟨he, List.forall_mem_singleton.mpr he'⟩⟩

theorem trans (h₁ : Publishes P s₁ s₂) (h₂ : Publishes P s₂ s₃) : Publishes P s₁ s₃ := by
  have ⟨events₁, h₁, hp₁⟩ := h₁
  have ⟨events₂, h₂, hp₂⟩ := h₂
  refine ⟨events₂ ++ events₁, ?_, List.forall_mem_append.mpr ⟨hp₂, hp₁⟩⟩
  rw [h₂, h₁, List.append_assoc]

theorem split (h : Publishes P s₁ s₃) (h₁ : Publishes Q s₁ s₂) (h₂ : Publishes Q s₂ s₃) :
    Publishes P s₁ s₂ ∧ Publishes P s₂ s₃ := by
  have ⟨events, he, hp⟩ := h
  have ⟨events₁, h₁, _⟩ := h₁
  have ⟨events₂, h₂, _⟩ := h₂
  rw [h₂, h₁, ← List.append_assoc] at he
  have ⟨hp₂, hp₁⟩ := List.forall_mem_append.mp (List.append_cancel_right he ▸ hp)
  exact ⟨⟨events₁, h₁, hp₁⟩, ⟨events₂, h₂, hp₂⟩⟩

theorem head (events : List (Event R)) (h : Publishes P s₁ s₂)
    (he : s₂.published = e :: (events ++ s₁.published)) : P e := by
  have ⟨events', h, hp⟩ := h
  rw [h, ← List.cons_append] at he
  exact hp e (List.append_cancel_right he ▸ List.mem_cons_self)

end Publishes

variable [Arithmetic R]

inductive Starts (stray : Stray R) (s : MotionExecutor R) : MotionExecutor R → Prop
  | drained : s.segmentQueue = [] → Starts stray s { s with execState := .idle }
  | refused :
    s.segmentQueue = seg :: queue →
    s.axisRuntime.authorize seg.jointNames = (false, axes) →
    Starts stray s { s.load seg with segmentQueue := queue, axisRuntime := axes }.refuseAxis
  | latched :
    s.segmentQueue = seg :: queue →
    s.axisRuntime.authorize seg.jointNames = (true, axes) →
    seg.softLimitViolation? stray = some name →
    Starts stray s
      (({ s.load seg with segmentQueue := queue, axisRuntime := axes }.position seg
        stray).latchFault name)
  | executes :
    s.segmentQueue = seg :: queue →
    s.axisRuntime.authorize seg.jointNames = (true, axes) →
    seg.softLimitViolation? stray = none →
    Starts stray s
      (({ s.load seg with segmentQueue := queue, axisRuntime := axes }.position seg
        stray).execute seg)

inductive Moves (s : MotionExecutor R) : Input R → MotionExecutor R → Prop
  | rejected (reason : Reason) :
    Moves s (.segment msg stray) (s.publish (.rejected msg.segmentId reason))
  | queued :
    s.machineState = .normal → s.execState ≠ .aborting → s.execState ≠ .idle →
    s.segmentQueue.length < maxQueueSize →
    Moves s (.segment msg stray) (s.enqueue msg)
  | started :
    s.machineState = .normal → s.execState = .idle → s.jointStateReady = true →
    s.segmentQueue.length < maxQueueSize → Starts stray (s.enqueue msg) s' →
    Moves s (.segment msg stray) s'
  | measured : Moves s (.jointState msg stray) (s.jointStateCallback msg stray)
  | rests : Moves s (.control stray) s
  | moved :
    s.execState = .running → s.jointNames ≠ [] →
    Moves s (.control stray) (s.move ((s.commands stray).map (·.1)))
  | completed :
    s.execState = .running → s.jointNames ≠ [] → (s.commands stray).all (·.2) →
    Starts stray
      ((s.move ((s.commands stray).map (·.1))).publish (.completed s.activeSegmentId)) s' →
    Moves s (.control stray) s'
  | kept : s.machineState = .estop → Moves s .reset s
  | cleared : s.machineState ≠ .estop → Moves s .reset s.clearFaults
  | overridden : Moves s (.override value) (s.overrideCallback value)
  | held : s.machineState = .estop → Moves s (.estop true) s
  | stopped : s.machineState ≠ .estop → Moves s (.estop true) s.stop
  | released : s.machineState = .estop → Moves s (.estop false) { s with machineState := .normal }
  | ignored : s.machineState ≠ .estop → Moves s (.estop false) s
  | aborted : Moves s .abort s.abortCallback

variable {s s' : MotionExecutor R} {stray : Stray R}

theorem startNextSegment_starts (stray : Stray R) (s : MotionExecutor R) :
    Starts stray s (s.startNextSegment stray) := by
  simp only [startNextSegment]
  split
  case h_1 h => exact .drained h
  case h_2 seg queue h =>
    cases ha : s.axisRuntime.authorize seg.jointNames
    case mk authorized axes =>
      simp only [load, ha]
      cases authorized
      case false => exact .refused h ha
      case true =>
        cases hv : seg.softLimitViolation? stray
        case none => exact .executes h ha hv
        case some => exact .latched h ha hv

theorem segmentCallback_moves {msg : MotionSegment R} :
    Moves s (.segment msg stray) (s.segmentCallback msg stray) := by
  simp only [segmentCallback]
  split
  case isTrue => exact .rejected .notNormal
  case isFalse hn =>
    have ⟨hm, ha⟩ : s.machineState = .normal ∧ s.execState ≠ .aborting := by simpa using hn
    split
    case isTrue => exact .rejected .jointStateNotReady
    case isFalse hr =>
      have hr : s.jointStateReady = true := by simpa using hr
      split
      case isTrue => exact .rejected .queueFull
      case isFalse hq =>
        have hq := Nat.not_le.mp hq
        split
        case isTrue hi => exact .started hm hi.left hr hq (startNextSegment_starts stray _)
        case isFalse hi =>
          have hi : s.execState ≠ .idle := by simpa [enqueue, publish, hm] using hi
          exact .queued hm ha hi hq

theorem controlLoop_moves : Moves s (.control stray) (s.controlLoop stray) := by
  simp only [controlLoop]
  split
  case isTrue => exact .rests
  case isFalse hr =>
    have hr : s.execState = .running := not_not.mp hr
    split
    case isTrue => exact .rests
    case isFalse hj =>
      split
      case isFalse => exact .moved hr hj
      case isTrue hc =>
        split
        case isTrue => exact .completed hr hj hc (startNextSegment_starts stray _)
        case isFalse hq =>
          have hq : s.segmentQueue = [] := by simpa [publish, move] using hq
          exact .completed hr hj hc (.drained hq)

theorem next_moves (s : MotionExecutor R) (i : Input R) : Moves s i (s.next i) := by
  cases i
  case segment    => exact segmentCallback_moves
  case jointState => exact .measured
  case control    => exact controlLoop_moves
  case override   => exact .overridden
  case abort      => exact .aborted
  case reset =>
    simp only [next, resetCallback]
    split
    case isTrue h  => exact .kept h
    case isFalse h => exact .cleared h
  case estop data =>
    cases data
    case false =>
      simp only [next, estopCallback, Bool.false_eq_true, if_false]
      split
      case isTrue h  => exact .released h
      case isFalse h => exact .ignored h
    case true =>
      simp only [next, estopCallback, if_true]
      split
      case isTrue h  => exact .stopped h
      case isFalse h => exact .held (not_not.mp h)

theorem step_moves {i : Input R} (h : step i s = .ok s') : Moves s i s' := by
  cases h
  exact next_moves s i

theorem Starts.publishes (h : Starts stray s s') : Publishes (fun _ => True) s s' := by
  cases h
  case drained => exact .none rfl
  all_goals exact .one rfl trivial

theorem Moves.publishes (m : Moves s i s') : Publishes (fun _ => True) s s' := by
  cases m
  case started h =>
    apply Publishes.trans _ h.publishes
    exact .one rfl trivial
  case completed h =>
    apply Publishes.trans _ h.publishes
    exact .two rfl trivial trivial
  case rejected => exact .one rfl trivial
  case queued   => exact .one rfl trivial
  case moved    => exact .one rfl trivial
  case cleared  => exact .one rfl trivial
  case stopped  => exact .one rfl trivial
  all_goals exact .none rfl

theorem publishes_run (e : Run step s is s') : Publishes (fun _ => True) s s' := by
  induction e
  case refl         => exact .none rfl
  case cons hs _ ih => exact (step_moves hs).publishes.trans ih

omit [Arithmetic R] in
theorem accepted_of (h : s'.published = e :: s.published) :
    s'.accepted = s.accepted ++ e.accepted?.toList := by
  cases e <;> simp [accepted, h, Event.accepted?]

omit [Arithmetic R] in
theorem executed_of (h : s'.published = e :: s.published) :
    s'.executed = s.executed ++ e.executing?.toList := by
  cases e <;> simp [executed, h, Event.executing?]

-- Runs can be evaluated on the rationals.
instance : Arithmetic ℚ where

abbrev zero : Stray ℚ :=
  ⟨fun _ => 0, fun _ => 0, fun _ => 0, fun _ => 0⟩

abbrev mastTo (segmentId : UInt32) (target vMax : ℚ) : Input ℚ :=
  .segment {
    segmentId       := segmentId
    jointNames      := ["mast_to_carriage_joint"]
    targetPositions := [target]
    vMax            := vMax } zero

theorem run_foldl {is : List (Input R)} : Run step s is (is.foldl MotionExecutor.next s) :=
  .foldl fun _ _ => rfl

end Executor.MotionExecutor
