import MobilePrinter.Base.Theorems.Moves
import MobilePrinter.Library.Serving

namespace Base

open Serving Transition

variable {R : Type*} {is : List (BaseMotionController.Input R)}

def Event.mark? : Event R → Option (Mark (ActiveCommand R))
  | .result cmd .accepted   => some (.accepted cmd)
  | .result cmd .inProgress => some (.started cmd)
  | .result cmd .completed  => some (.finished cmd)
  | _                       => none

def marks (h : List (Event R)) : List (Mark (ActiveCommand R)) :=
  h.filterMap Event.mark?

theorem marks_cons {h : List (Event R)} : marks (e :: h) = e.mark?.toList ++ marks h := by
  rw [marks, marks, List.filterMap_cons]
  cases e.mark? <;> rfl

theorem marks_cons_of_none {h : List (Event R)} (he : e.mark? = none) :
    marks (e :: h) = marks h :=
  List.filterMap_cons_none he

def received (is : List (BaseMotionController.Input R)) : List (ActiveCommand R) :=
  (is.filterMap fun
    | .command msg => some msg
    | _            => none).mapIdx fun place msg => msg.queued place

theorem received_command : received (is ++ [.command msg]) =
    received is ++ [msg.queued (received is).length] := by
  simp [received, List.mapIdx_append]

theorem received_odom : received (is ++ [.odom msg]) = received is := by
  simp [received]

theorem received_tick : received (is ++ [.tick]) = received is := by
  simp [received]

theorem received_nodup : (received is).Nodup := by
  apply List.Nodup.of_map (·.place)
  have h : (received is).map (·.place) = List.range (received is).length := by
    apply List.ext_getElem
    case hl => simp
    case h  => simp [received, BaseMotionCommand.queued]
  rw [h]
  exact List.nodup_range

namespace BaseMotionController

variable {s s' s₁ : BaseMotionController R}

def served? (s : BaseMotionController R) : Option (ActiveCommand R) :=
  if s.active then some s.current else none

def InTurn (s : BaseMotionController R) : Prop :=
  Serves s.queue s.served? (marks s.published)

theorem InTurn.keep (h : InTurn s) (hq : s'.queue = s.queue) (hs : s'.served? = s.served?)
    (hm : marks s'.published = marks s.published) : InTurn s' := by
  rw [InTurn, hq, hs, hm]
  exact h

theorem InTurn.publish (h : InTurn s) (he : e.mark? = none) : InTurn (s.publish e) :=
  h.keep rfl rfl (marks_cons_of_none he)

structure Accepts (is : List (Input R)) (s : BaseMotionController R) : Prop where
  accepted : accepted (marks s.published) = received is
  count    : s.receivedCount = (received is).length

namespace Accepts

theorem keep (h : Accepts is s)
    (ha : Serving.accepted (marks s'.published) = Serving.accepted (marks s.published))
    (hc : s'.receivedCount = s.receivedCount) : Accepts is s' where
  accepted := ha.trans h.accepted
  count    := hc.trans h.count

theorem pass (h : Accepts is s) (hr : received (is ++ [i]) = received is) :
    Accepts (is ++ [i]) s where
  accepted := h.accepted.trans hr.symm
  count    := hr ▸ h.count

theorem publish (h : Accepts is s) (he : (e.mark?.bind Mark.accepted?) = none) :
    Accepts is (s.publish e) := by
  refine h.keep ?_ rfl
  rw [BaseMotionController.publish, marks_cons]
  cases hm : e.mark?
  case none   => rfl
  case some m =>
    rw [hm] at he
    exact accepted_cons_of_none he

end Accepts

section Taking

variable [Field R]

theorem InTurn.takes (h : InTurn s) (ht : Takes s s₁) : InTurn s₁ := by
  cases ht
  case current => exact h
  case next cmd cmds ha hq =>
    rw [InTurn, served?, if_neg (by simp [ha]), hq] at h
    exact h.start

theorem InTurn.finish (h : InTurn s) (ha : s.active = true) : InTurn s.finish := by
  rw [InTurn, served?, if_pos ha] at h
  exact Serves.finish h

theorem Accepts.takes (h : Accepts is s) (ht : Takes s s₁) : Accepts is s₁ := by
  cases ht
  case current => exact h
  case next    =>
    apply publish _ rfl
    exact h.keep rfl rfl

theorem Accepts.finish (h : Accepts is s) : Accepts is s.finish := by
  apply publish _ rfl
  apply publish _ rfl
  exact h.keep rfl rfl

end Taking

variable [Field R] [LinearOrder R] [Cmath R]

theorem drive_marks : marks (s.drive dt).published = marks s.published := by
  rw [drive_published, marks_cons_of_none rfl]

theorem InTurn.drive (h : InTurn s) : InTurn (s.drive dt) := by
  apply h.keep drive_queue _ drive_marks
  rw [served?, served?, drive_active, drive_current]

theorem Accepts.drive (h : Accepts is s) : Accepts is (s.drive dt) :=
  h.keep (congrArg Serving.accepted drive_marks) drive_receivedCount

theorem InTurn.next (h : InTurn s) (m : Moves s i s') : InTurn s' := by
  cases m
  case queued        => exact Serves.accept h
  case measured      => exact h.keep rfl rfl rfl
  case rested        => exact h.publish rfl
  case drove ht _    => exact (h.takes ht).drive.publish rfl
  case finished ht _ =>
    exact ((h.takes ht).drive.finish (drive_active.trans ht.active)).publish rfl

theorem Accepts.next (h : Accepts is s) (m : Moves s i s') : Accepts (is ++ [i]) s' := by
  cases m
  case queued msg =>
    constructor
    case accepted =>
      rw [received_command, ← h.count, ← h.accepted]
      exact accepted_cons
    case count =>
      rw [received_command, List.length_append, ← h.count]
      rfl
  case measured      => exact pass (h.keep rfl rfl) received_odom
  case rested        => exact (h.publish rfl).pass received_tick
  case drove ht _    => exact ((h.takes ht).drive.publish rfl).pass received_tick
  case finished ht _ => exact ((h.takes ht).drive.finish.publish rfl).pass received_tick

theorem InTurn.run (e : Run step (boot cmd) is s) : InTurn s :=
  e.invariant (fun h hs => h.next (step_moves hs)) Serves.nil

theorem Accepts.run (e : Run step (boot cmd) is s) : Accepts is s :=
  e.history (fun _ h hs => h.next (step_moves hs)) ⟨rfl, rfl⟩

end BaseMotionController
end Base
