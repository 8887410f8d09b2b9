import MobilePrinter.Library.Serving
import MobilePrinter.SimMotion.Theorems.Moves

namespace SimMotion

open Serving Transition

variable {R : Type*}

def Event.mark? : Event R → Option (Mark UInt32)
  | .accepted seq    => some (.accepted seq)
  | .started trip    => some (.started trip.seq)
  | .completed seq _ => some (.finished seq)
  | _                => none

def marks (h : List (Event R)) : List (Mark UInt32) :=
  h.filterMap Event.mark?

namespace SimMotionController

variable {s s' s₁ : SimMotionController R}

def received (is : List (Input R)) : List UInt32 :=
  is.filterMap fun
    | .command seq => some seq
    | _            => none

def served? (s : SimMotionController R) : Option UInt32 :=
  if s.moving then some s.activeSeq else none

def InTurn (s : SimMotionController R) : Prop :=
  Serves s.commandQueue s.served? (marks s.history)

theorem InTurn.resting (h : InTurn s) (hm : s.moving = false) :
    Serves s.commandQueue none (marks s.history) := by
  rwa [InTurn, served?, if_neg (by simp [hm])] at h

theorem InTurn.moving (h : InTurn s) (hm : s.moving = true) :
    Serves s.commandQueue (some s.activeSeq) (marks s.history) := by
  rwa [InTurn, served?, if_pos hm] at h

variable [Field R] [LinearOrder R] [Cmath R]

namespace InTurn

theorem underway (h : InTurn s) (hu : Underway s t s₁) : InTurn s₁ := by
  cases hu
  case goesOn => exact h
  case begins hm hq _ _ =>
    have h := h.resting hm
    rw [hq] at h
    exact h.start

theorem next (h : InTurn s) (m : Moves s i s') : InTurn s' := by
  cases m
  case queued    => exact h.accept
  case delivered => exact h
  case rested    => exact h
  case moved s₁ hu _ =>
    have h := h.underway hu
    exact h
  case snapped hm hq _ _ =>
    have h := h.resting hm
    rw [hq] at h
    exact h.start.finish
  case arrived s₁ hu _ =>
    have h := (h.underway hu).moving hu.moving
    exact h.finish

theorem run (e : Run step boot is s) : InTurn s :=
  e.invariant (fun h hs => h.next (step_moves hs)) Serves.nil

end InTurn

theorem Underway.accepted (h : Underway s t s₁) :
    accepted (marks s₁.history) = accepted (marks s.history) := by
  cases h
  case goesOn => rfl
  case begins => exact accepted_cons_of_none rfl

theorem accepted_run (e : Run step boot is s) : accepted (marks s.history) = received is := by
  refine e.history (I := fun is s => accepted (marks s.history) = received is) ?_ rfl
  intro is i s s' _ h hs
  rw [received, List.filterMap_append, ← received, ← h]
  have hn := List.append_nil (accepted (marks s.history))
  cases step_moves hs
  case queued       => exact accepted_cons
  case delivered    => exact hn.symm
  case rested       => exact hn.symm
  case moved hu _   => exact hu.accepted.trans hn.symm
  case snapped      =>
    exact (accepted_cons_of_none rfl).trans ((accepted_cons_of_none rfl).trans hn.symm)
  case arrived hu _ => exact (accepted_cons_of_none rfl).trans (hu.accepted.trans hn.symm)

end SimMotionController
end SimMotion
