import MobilePrinter.Library.Transition
import MobilePrinter.SimMotion.SimMotionController

namespace SimMotion.SimMotionController

open Transition

variable {R : Type*} [Field R] [LinearOrder R] [Cmath R]

inductive Underway (s : SimMotionController R) (t : Int) : SimMotionController R → Prop
  | goesOn : s.moving = true → Underway s t s
  | begins :
    s.moving = false → s.commandQueue = seq :: seqs → s.targets seq = some goal →
    ¬distance s.currentPos goal.pos < 1e-6 →
    Underway s t ((s.take seq seqs goal).begin seq goal.feedrate t)

inductive Moves (s : SimMotionController R) : Input R → SimMotionController R → Prop
  | queued : Moves s (.command seq) (s.onCommand seq)
  | delivered : Moves s (.target msg) (s.onTarget msg)
  | rested : s.moving = false → Moves s (.tick t now) s
  | snapped :
    s.moving = false → s.commandQueue = seq :: seqs → s.targets seq = some goal →
    distance s.currentPos goal.pos < 1e-6 →
    Moves s (.tick t now) ((s.take seq seqs goal).complete seq)
  | moved : Underway s t s₁ → ¬1.0 ≤ s₁.progress now → Moves s (.tick t now) (s₁.move now)
  | arrived :
    Underway s t s₁ → 1.0 ≤ s₁.progress now →
    Moves s (.tick t now) ((s₁.move now).complete s₁.activeSeq)

variable {s s' s₁ : SimMotionController R}

theorem advance_moves (h : Underway s t s₁) : Moves s (.tick t now) (s₁.advance now) := by
  rw [advance]
  split
  case isTrue hp  => exact .arrived h (of_decide_eq_true hp)
  case isFalse hp => exact .moved h (of_decide_eq_false (eq_false_of_ne_true hp))

theorem onTick_moves (s : SimMotionController R) : Moves s (.tick t now) (s.onTick t now) := by
  rw [onTick]
  cases hm : s.moving
  case true =>
    rw [if_pos rfl]
    exact advance_moves (.goesOn hm)
  case false =>
    rw [if_neg Bool.false_ne_true]
    cases hq : s.commandQueue
    case nil            => exact .rested hm
    case cons seq queue =>
      cases ht : s.targets seq
      case none =>
        simp only [ht]
        exact .rested hm
      case some target =>
        simp only [ht]
        by_cases hl : distance s.currentPos target.pos < 1e-6
        case pos =>
          rw [if_pos (by exact hl)]
          exact .snapped hm hq ht hl
        case neg =>
          rw [if_neg (by exact hl)]
          exact advance_moves (.begins hm hq ht hl)

theorem next_moves (s : SimMotionController R) (i : Input R) : Moves s i (s.next i) := by
  cases i
  case command => exact .queued
  case target  => exact .delivered
  case tick    => exact onTick_moves s

theorem step_moves (h : step i s = .ok s') : Moves s i s' := by
  cases h
  exact next_moves s i

theorem run_foldl : Run step s is (is.foldl next s) :=
  .foldl fun _ _ => rfl

theorem Underway.moving (h : Underway s t s₁) : s₁.moving = true := by
  cases h
  case goesOn hm => exact hm
  case begins    => rfl

end SimMotion.SimMotionController
