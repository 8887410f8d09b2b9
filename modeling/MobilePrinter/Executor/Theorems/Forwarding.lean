import MobilePrinter.Executor.MotionResultAdapter
import MobilePrinter.Executor.Theorems.Moves

namespace Executor

open Transition MotionExecutor

-- The result for a completion that has not been received during a suspension.
def Receipt.due? (receipt : Receipt) : Option MotionResult :=
  if receipt.status.status = 2 ∧ !receipt.suspended
  then some { sequenceId := receipt.status.segmentId, status := 2 } else none

namespace Forwarding

variable {R : Type*} {s s' : Forwarding R}

-- The adapter has received the first of the statuses of the executor and has published a result for
-- each completion among them, except for those that were received during a suspension.
structure Forwards (s : Forwarding R) : Prop where
  received  : s.received.map (·.status) <+: s.executor.statuses
  forwarded : s.forwarded = s.received.filterMap Receipt.due?

instance : DecidablePred (Forwards (R := R)) :=
  fun s => decidable_of_iff
    (s.received.map (·.status) <+: s.executor.statuses ∧
      s.forwarded = s.received.filterMap Receipt.due?)
    ⟨fun h => ⟨h.left, h.right⟩, fun h => ⟨h.received, h.forwarded⟩⟩

-- The adapter receives a completion after an abort, and outside of a suspension.
def Drops : Input R → Forwarding R → Prop
  | .deliver, s =>
    (∃ msg, s.pending? = some msg ∧ msg.status = 2) ∧ 0 < s.adapterAborts ∧ ¬s.Suspended
  | _, _ => False

-- The adapter takes no abort back.
structure Latched (s : Forwarding R) : Prop extends Forwards s where
  active : s.adapter.abortActive = true ↔ 0 < s.adapterAborts

theorem prefix_concat {xs ys : List α} (h : xs <+: ys) (hx : ys[xs.length]? = some x) :
    xs ++ [x] <+: ys := by
  have ⟨zs, h⟩ := h
  rw [← h, List.getElem?_append_right (Nat.le_refl _), Nat.sub_self] at hx
  have ⟨zs', hz⟩ : ∃ zs', zs = x :: zs' := by
    cases zs <;> simp_all
  exact ⟨zs', by rw [← h, hz, List.append_assoc]; rfl⟩

namespace Latched

-- The adapter answers a status as it should exactly if it does not drop a completion.
theorem answers_iff (h : Latched s) (hp : s.pending? = some msg) :
    (s.adapter.onSegmentStatus msg).2 = Receipt.due? { status := msg, suspended := s.Suspended } ↔
      ¬Drops .deliver s := by
  have hs : s.Suspended → 0 < s.adapterAborts := Nat.zero_lt_of_lt
  by_cases hm : msg.status = 2
  case neg => simp [MotionResultAdapter.onSegmentStatus, Receipt.due?, Drops, hp, hm]
  case pos =>
    by_cases ha : 0 < s.adapterAborts
    case pos =>
      have hb : s.adapter.abortActive = true := h.active.mpr ha
      simp [MotionResultAdapter.onSegmentStatus, Receipt.due?, Drops, hp, hm, ha, hb]
    case neg =>
      have hb : s.adapter.abortActive = false := by simpa [ha] using h.active
      have hs : ¬s.Suspended := mt hs ha
      simp [MotionResultAdapter.onSegmentStatus, MotionResultAdapter.completed, Receipt.due?, Drops,
        hm, ha, hb, hs]

theorem deliver_iff (h : Latched s) : Forwards s.deliver ↔ ¬Drops .deliver s := by
  cases hp : s.pending?
  case none =>
    have hd : s.deliver = s := by simp [deliver, hp]
    simp [hd, h.toForwards, Drops, hp]
  case some msg =>
    have hr : s.received.map (·.status) ++ [msg] <+: s.executor.statuses :=
      prefix_concat h.received (by rw [List.length_map]; exact hp)
    rw [← h.answers_iff hp]
    constructor
    case mp =>
      intro hf
      have hf := hf.forwarded
      simp only [deliver, hp, List.filterMap_append, h.forwarded, List.append_cancel_left_eq] at hf
      cases hd : Receipt.due? { status := msg, suspended := s.Suspended }
      all_goals simpa [hd] using hf
    case mpr =>
      intro ha
      constructor
      case received => simpa [deliver, hp] using hr
      case forwarded =>
        simp only [deliver, hp, List.filterMap_append, h.forwarded, ha]
        cases hd : Receipt.due? { status := msg, suspended := s.Suspended }
        all_goals simp [hd]

theorem abortExecutor (h : Latched s) : Latched s.abortExecutor := by
  simp only [Forwarding.abortExecutor]
  split
  case isTrue  => exact ⟨⟨h.received, h.forwarded⟩, h.active⟩
  case isFalse => exact h

theorem abortAdapter (h : Latched s) : Latched s.abortAdapter := by
  simp only [Forwarding.abortAdapter]
  split
  case isTrue  => exact ⟨⟨h.received, h.forwarded⟩, by simp [MotionResultAdapter.abortCallback]⟩
  case isFalse => exact h

theorem runtime (msg : MotionRuntimeState) (h : Latched s) : Latched (s.runtime msg) := by
  have ha : (s.adapter.runtimeCallback msg).2.abortActive = s.adapter.abortActive := by
    simp only [MotionResultAdapter.runtimeCallback]
    split_ifs <;> rfl
  exact ⟨⟨h.received, h.forwarded⟩, ha ▸ h.active⟩

theorem deliver (h : Latched s) (hd : ¬Drops .deliver s) : Latched s.deliver where
  toForwards := h.deliver_iff.mpr hd
  active     := by
    simp only [Forwarding.deliver]
    cases s.pending? <;> exact h.active

variable [Arithmetic R] {i : Input R}

theorem boot : Latched (Forwarding.boot segmentId velocity : Forwarding R) where
  received  := List.nil_prefix
  forwarded := rfl
  active    := by simp [Forwarding.boot]

theorem statuses_next (s : MotionExecutor R) (i : MotionExecutor.Input R) :
    s.statuses <+: (s.next i).statuses := by
  have ⟨events, h, _⟩ := (s.next_moves i).publishes
  rw [MotionExecutor.statuses, MotionExecutor.statuses, h, List.reverse_append,
    List.filterMap_append]
  exact List.prefix_append _ _

theorem execute (i : MotionExecutor.Input R) (h : Latched s) : Latched (s.execute i) := by
  have hr := h.received.trans (statuses_next s.executor i)
  cases i
  case abort => exact h
  all_goals exact ⟨⟨hr, h.forwarded⟩, h.active⟩

theorem next (h : Latched s) (hd : ¬Drops i s) : Latched (s.next i) := by
  cases i
  case execute       => exact h.execute _
  case abort         => exact ⟨⟨h.received, h.forwarded⟩, h.active⟩
  case abortExecutor => exact h.abortExecutor
  case abortAdapter  => exact h.abortAdapter
  case deliver       => exact h.deliver hd
  case runtime       => exact h.runtime _

theorem not_drops (h : Latched s) (hf : Forwards (s.next i)) : ¬Drops i s := by
  cases i
  case deliver => exact h.deliver_iff.mp hf
  all_goals exact id

end Latched
end Forwarding

open Forwarding

variable {R : Type*} [Arithmetic R] {is : List (Forwarding.Input R)}

theorem forwarded_iff_not_dropped :
    Always Forwarding.step Forwards (Forwarding.boot segmentId velocity) is ↔
      Along Forwarding.step (¬Drops · ·) (Forwarding.boot segmentId velocity) is :=
  always_iff_along (I := Latched) Latched.toForwards (fun h hd hs => by cases hs; exact h.next hd)
    (fun h hf hs => by cases hs; exact h.not_drops hf) .boot

-- After an abort and the reset that ends it, the completion of the next segment is not forwarded.
theorem completion_dropped :
    Reaches Forwarding.step (fun s => ¬Forwards s ∧ s.executor.executed.length = 1)
      (Forwarding.boot 0 0 : Forwarding ℚ) [
        .abort, .abortExecutor, .abortAdapter, .execute .reset, .deliver,
        .execute (.jointState {} zero), .execute (mastTo 1 0 1), .execute (.control zero),
        .deliver, .deliver, .deliver] := by
  decide +kernel

end Executor
