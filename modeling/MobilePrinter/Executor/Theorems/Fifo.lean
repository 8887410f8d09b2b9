import MobilePrinter.Executor.Theorems.Moves
import MobilePrinter.Library.Trace

namespace Executor

open Transition Trace

-- The event is about the execution of a segment.
def Event.isRun : Event R → Bool
  | .executing _ => true
  | .completed _ => true
  | _            => false

-- A completion is that of the last segment that has been executed, and its first.
def CompletesLast (e : Event R) (older : List (Event R)) : Prop :=
  ∀ segmentId, e = .completed segmentId →
    ∃ seg, older.find? Event.isRun = some (.executing seg) ∧ seg.segmentId = segmentId

-- The event neither accepts nor executes a segment.
def Event.Quiet (e : Event R) : Prop :=
  e.accepted? = none ∧ e.executing? = none

def Event.RefusesStart : Event R → Prop
  | .rejected _ .notAuthorized => True
  | .rejected _ .softLimit     => True
  | _                          => False

instance : DecidablePred (Event.RefusesStart (R := R)) :=
  fun e => match e with
    | .rejected _ .notAuthorized | .rejected _ .softLimit => .isTrue trivial
    | .rejected _ .notNormal | .rejected _ .jointStateNotReady | .rejected _ .queueFull
    | .rejected _ .emergencyStop | .accepted _ | .executing _ | .completed _ | .reset
    | .actuatorCommand .. => .isFalse id

namespace MotionExecutor

variable {R : Type*} {s s' s₀ : MotionExecutor R}

-- The message is a reset, a press of the emergency stop or an abort.
def Input.Interrupts : Input R → Prop
  | .reset      => True
  | .estop true => True
  | .abort      => True
  | _           => False

theorem Publishes.quiet (h : Publishes Event.Quiet s s') :
    s'.accepted = s.accepted ∧ s'.executed = s.executed := by
  have ⟨events, h, hq⟩ := h
  have ha : events.reverse.filterMap Event.accepted? = [] :=
    List.filterMap_eq_nil_iff.mpr fun e he => (hq e (List.mem_reverse.mp he)).left
  have he : events.reverse.filterMap Event.executing? = [] :=
    List.filterMap_eq_nil_iff.mpr fun e he => (hq e (List.mem_reverse.mp he)).right
  simp [accepted, executed, h, ha, he]

-- The segments that have been executed or are waiting are among the accepted ones, in their order.
structure Fifo (s : MotionExecutor R) : Prop where
  bounded  : s.segmentQueue.length ≤ maxQueueSize
  ordered  : (s.executed ++ s.segmentQueue).Sublist s.accepted
  numbered : s.accepted.map (·.place) = List.range s.acceptedCount

namespace Fifo

theorem keep (h : Fifo s) (hp : Publishes Event.Quiet s s')
    (hq : s'.segmentQueue.Sublist s.segmentQueue) (hc : s'.acceptedCount = s.acceptedCount) :
    Fifo s' where
  bounded  := Nat.le_trans hq.length_le h.bounded
  ordered  := by
    rw [hp.quiet.left, hp.quiet.right]
    exact ((List.Sublist.refl _).append hq).trans h.ordered
  numbered := by
    rw [hp.quiet.left, hc, h.numbered]

theorem enqueue {msg : MotionSegment R} (h : Fifo s) (hl : s.segmentQueue.length < maxQueueSize) :
    Fifo (s.enqueue msg) where
  bounded  := by
    rw [MotionExecutor.enqueue, publish, List.length_append]
    exact hl
  ordered  := by
    rw [accepted_of (s := s) rfl, executed_of (s := s) rfl]
    have h := h.ordered.append (List.Sublist.refl [msg.queued s.acceptedCount])
    simpa [MotionExecutor.enqueue, publish, Event.accepted?, Event.executing?] using h
  numbered := by
    rw [accepted_of (s := s) rfl]
    simp [MotionExecutor.enqueue, publish, Event.accepted?, MotionSegment.queued, h.numbered,
      List.range_succ]

theorem execute (h : Fifo s) (hq : s.segmentQueue = seg :: s'.segmentQueue)
    (hp : s'.published = .executing seg :: s.published)
    (hc : s'.acceptedCount = s.acceptedCount) : Fifo s' where
  bounded  := by
    have hb := h.bounded
    rw [hq] at hb
    exact Nat.le_of_succ_le hb
  ordered  := by
    have ho := h.ordered
    rw [hq, List.append_cons] at ho
    simpa [accepted_of hp, executed_of hp, Event.accepted?, Event.executing?] using ho
  numbered := by
    simpa [accepted_of hp, hc, Event.accepted?] using h.numbered

variable [Arithmetic R] {i : Input R}

theorem boot : Fifo (boot active velocity : MotionExecutor R) where
  bounded  := Nat.zero_le _
  ordered  := List.Sublist.refl _
  numbered := rfl

theorem starts (h : Fifo s) (hs : Starts stray s s') : Fifo s' := by
  cases hs
  case drained hq      => exact h.keep (.none rfl) (List.Sublist.refl _) rfl
  case executes hq _ _ => exact h.execute hq rfl rfl
  case refused hq _ =>
    refine h.keep (.one rfl ⟨rfl, rfl⟩) ?_ rfl
    exact hq ▸ List.sublist_cons_self _ _
  case latched hq _ _ =>
    refine h.keep (.one rfl ⟨rfl, rfl⟩) ?_ rfl
    exact hq ▸ List.sublist_cons_self _ _

theorem next (h : Fifo s) (m : Moves s i s') : Fifo s' := by
  cases m
  case queued hl      => exact h.enqueue hl
  case started hl hs  => exact (h.enqueue hl).starts hs
  case completed hs   =>
    apply starts _ hs
    exact h.keep (.two rfl ⟨rfl, rfl⟩ ⟨rfl, rfl⟩) (List.Sublist.refl _) rfl
  case rejected       => exact h.keep (.one rfl ⟨rfl, rfl⟩) (List.Sublist.refl _) rfl
  case moved          => exact h.keep (.one rfl ⟨rfl, rfl⟩) (List.Sublist.refl _) rfl
  case cleared        => exact h.keep (.one rfl ⟨rfl, rfl⟩) (List.nil_sublist _) rfl
  case stopped        => exact h.keep (.one rfl ⟨rfl, rfl⟩) (List.nil_sublist _) rfl
  case aborted        => exact h.keep (.none rfl) (List.nil_sublist _) rfl
  all_goals exact h.keep (.none rfl) (List.Sublist.refl _) rfl

theorem run (e : Run step (MotionExecutor.boot active velocity) is s) : Fifo s :=
  e.invariant (fun h hs => h.next (step_moves hs)) boot

end Fifo

-- While a segment is running, the last execution is that of the segment, and it has not completed.
structure Completing (s : MotionExecutor R) : Prop where
  running   : s.execState = .running → ∃ seg,
    s.published.find? Event.isRun = some (.executing seg) ∧ seg.segmentId = s.activeSegmentId
  completed : Obeys CompletesLast s.published

namespace Completing

theorem publish (h : Completing s) (hp : s'.published = e :: s.published) (he : e.isRun = false)
    (hr : s'.execState = .running → s.execState = .running)
    (ha : s'.activeSegmentId = s.activeSegmentId) : Completing s' where
  running hs := by
    rw [hp, ha, List.find?_cons_of_neg (by simp [he])]
    exact h.running (hr hs)
  completed := by
    rw [hp]
    refine ⟨?_, h.completed⟩
    rintro _ rfl
    cases he

theorem rest (h : Completing s) (hp : s'.published = s.published)
    (hr : s'.execState = .running → s.execState = .running)
    (ha : s'.activeSegmentId = s.activeSegmentId) : Completing s' where
  running hs := hp ▸ ha ▸ h.running (hr hs)
  completed  := hp ▸ h.completed

variable [Arithmetic R] {i : Input R}

theorem boot : Completing (boot active velocity : MotionExecutor R) where
  running   := nofun
  completed := trivial

theorem starts (h : Obeys CompletesLast s.published) (hs : Starts stray s s') : Completing s' := by
  cases hs
  case drained  => exact ⟨nofun, h⟩
  case refused  => exact ⟨nofun, nofun, h⟩
  case latched  => exact ⟨nofun, nofun, h⟩
  case executes => exact ⟨fun _ => ⟨_, rfl, rfl⟩, nofun, h⟩

theorem next (h : Completing s) (m : Moves s i s') : Completing s' := by
  cases m
  case started hs =>
    apply starts _ hs
    exact ⟨nofun, h.completed⟩
  case completed hr _ _ hs =>
    apply starts _ hs
    refine ⟨?_, nofun, h.completed⟩
    rintro _ ⟨⟩
    exact h.running hr
  case rejected       => exact h.publish rfl rfl id rfl
  case queued         => exact h.publish rfl rfl id rfl
  case moved          => exact h.publish rfl rfl id rfl
  case cleared        => exact ⟨nofun, nofun, h.completed⟩
  case stopped        => exact h.publish rfl rfl nofun rfl
  case aborted        => exact h.rest rfl nofun rfl
  all_goals exact h.rest rfl id rfl

theorem run (e : Run step (MotionExecutor.boot active velocity) is s) : Completing s :=
  e.invariant (fun h hs => h.next (step_moves hs)) boot

end Completing
-- What has been accepted since `s₀` has been executed since then or is still waiting.
def Fed (s₀ s : MotionExecutor R) : Prop :=
  ∃ accepted executed,
    s.accepted = s₀.accepted ++ accepted ∧ s.executed = s₀.executed ++ executed ∧
      accepted = executed ++ s.segmentQueue

namespace Fed

theorem keep (h : Fed s₀ s) (hp : Publishes Event.Quiet s s')
    (hq : s'.segmentQueue = s.segmentQueue) : Fed s₀ s' := by
  have ⟨accepted, executed, ha, he, hf⟩ := h
  rw [← hp.quiet.left] at ha
  rw [← hp.quiet.right] at he
  exact ⟨accepted, executed, ha, he, hq ▸ hf⟩

theorem enqueue {msg : MotionSegment R} (h : Fed s₀ s) : Fed s₀ (s.enqueue msg) := by
  have ⟨accepted, executed, ha, he, hf⟩ := h
  refine ⟨accepted ++ [msg.queued s.acceptedCount], executed, ?_, ?_, ?_⟩
  case refine_1 => rw [accepted_of (s := s) rfl, ha, List.append_assoc]; rfl
  case refine_2 => rw [executed_of (s := s) rfl, he, List.append_assoc]; simp [Event.executing?]
  case refine_3 => rw [hf, List.append_assoc]; rfl

theorem execute (h : Fed s₀ s) (hq : s.segmentQueue = seg :: s'.segmentQueue)
    (hp : s'.published = .executing seg :: s.published) : Fed s₀ s' := by
  have ⟨accepted, executed, ha, he, hf⟩ := h
  refine ⟨accepted, executed ++ [seg], ?_, ?_, ?_⟩
  case refine_1 => rw [accepted_of hp, ha]; simp [Event.accepted?]
  case refine_2 => rw [executed_of hp, he, List.append_assoc]; rfl
  case refine_3 => rw [hf, hq, List.append_cons]

end Fed

-- In a stretch without interruptions the executor is idle only when nothing is waiting.
structure Clean (s₀ s : MotionExecutor R) : Prop where
  fed  : Fed s₀ s
  live : s.execState = .idle ∧ s.segmentQueue = [] ∨ s.execState = .running

namespace Clean

theorem refl (hq : s.segmentQueue = []) (hi : s.execState = .idle) : Clean s s where
  fed  := ⟨[], [], by simp, by simp, by simp [hq]⟩
  live := .inl ⟨hi, hq⟩

variable [Arithmetic R] {i : Input R}

theorem starts (h : Fed s₀ s) (hs : Starts stray s s') :
    Clean s₀ s' ∨ ∃ e, s'.published = e :: s.published ∧ e.RefusesStart := by
  cases hs
  case drained hq      => exact .inl ⟨h.keep (.none rfl) rfl, .inl ⟨rfl, hq⟩⟩
  case executes hq _ _ => exact .inl ⟨h.execute hq rfl, .inr rfl⟩
  case refused         => exact .inr ⟨_, rfl, trivial⟩
  case latched         => exact .inr ⟨_, rfl, trivial⟩

theorem next (h : Clean s₀ s) (m : Moves s i s') (hi : ¬i.Interrupts)
    (hp : Publishes (¬·.RefusesStart) s s') : Clean s₀ s' := by
  cases m
  case rejected    => exact ⟨h.fed.keep (.one rfl ⟨rfl, rfl⟩) rfl, h.live⟩
  case moved       => exact ⟨h.fed.keep (.one rfl ⟨rfl, rfl⟩) rfl, h.live⟩
  case cleared     => exact absurd trivial hi
  case stopped     => exact absurd trivial hi
  case aborted     => exact absurd trivial hi
  case queued hn _ => exact ⟨h.fed.enqueue, .inr (h.live.resolve_left fun hl => hn hl.left)⟩
  case started hs =>
    apply (starts h.fed.enqueue hs).resolve_right
    intro ⟨e, hr, he⟩
    exact hp.head [_] hr he
  case completed hs =>
    refine (starts ?_ hs).resolve_right ?_
    case refine_1 => exact h.fed.keep (.two rfl ⟨rfl, rfl⟩ ⟨rfl, rfl⟩) rfl
    case refine_2 =>
      intro ⟨e, hr, he⟩
      exact hp.head [_, _] hr he
  all_goals exact ⟨h.fed.keep (.none rfl) rfl, h.live⟩

theorem run (e : Run step s is s') (h : Clean s₀ s) (hi : ∀ i ∈ is, ¬i.Interrupts)
    (hp : Publishes (¬·.RefusesStart) s s') : Clean s₀ s' := by
  induction e
  case refl => exact h
  case cons hs e ih =>
    have ⟨hi, hn⟩ := List.forall_mem_cons.mp hi
    have ⟨hp, hr⟩ := hp.split (step_moves hs).publishes (publishes_run e)
    exact ih (h.next (step_moves hs) hi hp) hn hr

end Clean
end MotionExecutor

open MotionExecutor

variable {R : Type*} [Arithmetic R] {s : MotionExecutor R}

theorem segments_fifo (e : Run step (boot active velocity) is s) :
    s.segmentQueue.length ≤ maxQueueSize ∧
    s.executed.Sublist s.accepted ∧
    s.accepted.map (·.place) = List.range s.acceptedCount ∧
    (s.executed.map (·.place)).Nodup ∧
    Obeys CompletesLast s.published ∧
    ∀ is' s', Run step s is' s' → s.segmentQueue = [] → s.execState = .idle →
      (∀ i ∈ is', ¬i.Interrupts) → Publishes (¬·.RefusesStart) s s' →
      ∃ accepted executed, s'.accepted = s.accepted ++ accepted ∧
        s'.executed = s.executed ++ executed ∧ executed <+: accepted := by
  have h := Fifo.run e
  have ho := (List.sublist_append_left _ _).trans h.ordered
  refine ⟨h.bounded, ho, h.numbered, ?_, (Completing.run e).completed, ?_⟩
  case refine_1 =>
    apply (ho.map (·.place)).nodup
    rw [h.numbered]
    exact List.nodup_range
  case refine_2 =>
    intro is' s' e hq hs hi hp
    have ⟨accepted, executed, ha, he, hf⟩ := (Clean.run e (.refl hq hs) hi hp).fed
    exact ⟨accepted, executed, ha, he, hf ▸ List.prefix_append _ _⟩

-- The second segment waits until the first one is complete, and the third is still waiting.
theorem segments_fifo_three :
    ∃ s : MotionExecutor ℚ, Run step (boot 0 0) [
        .jointState {} zero, mastTo 1 0 1, mastTo 2 1 1, mastTo 3 2 1, .control zero] s ∧
      s.executed.map (·.segmentId) = [1, 2] ∧ s.accepted.map (·.segmentId) = [1, 2, 3] ∧
      ∃ accepted executed, s.accepted = [] ++ accepted ∧ s.executed = [] ++ executed ∧
        executed <+: accepted :=
  have hp {s : MotionExecutor ℚ} (h : ∀ e ∈ s.published, ¬e.RefusesStart) :
      Publishes (¬·.RefusesStart) (boot 0 0) s :=
    ⟨s.published, by simp [boot], h⟩
  ⟨_, run_foldl, by decide +kernel, by decide +kernel,
    (segments_fifo .refl).2.2.2.2.2 _ _ run_foldl rfl rfl (by simp [Input.Interrupts])
      (hp (by decide +kernel))⟩

end Executor
