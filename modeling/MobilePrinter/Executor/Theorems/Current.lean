import MobilePrinter.Executor.Theorems.Moves

namespace Executor

open Transition

variable {R : Type*}

def Event.command? : Event R → Option (List String × List R)
  | .actuatorCommand names positions => some (names, positions)
  | _                                => none

def QueuedSegment.Matched (seg : QueuedSegment R) : Prop :=
  seg.jointNames.length = seg.qTarget.length

namespace MotionExecutor

variable {s s' : MotionExecutor R}

def lastExecuted? (s : MotionExecutor R) : Option (QueuedSegment R) :=
  s.executed.getLast?

-- The events between the two states, newest first.
def news (s s' : MotionExecutor R) : List (Event R) :=
  s'.published.take (s'.published.length - s.published.length)

theorem news_of {events : List (Event R)} (h : s'.published = events ++ s.published) :
    news s s' = events := by
  simp [news, h]

theorem lastExecuted_of (h : s'.published = e :: s.published) :
    s'.lastExecuted? = e.executing?.or s.lastExecuted? := by
  rw [lastExecuted?, executed_of h, List.getLast?_append]
  cases e.executing? <;> rfl

theorem executed_of_none (h : s'.published = e :: s.published) (he : e.executing? = none) :
    s'.executed = s.executed := by
  rw [executed_of h, he]
  exact List.append_nil _

structure Executes (seg : QueuedSegment R) (s : MotionExecutor R) : Prop where
  last     : s.lastExecuted? = some seg
  active   : s.activeSegmentId = seg.segmentId
  names    : s.jointNames = seg.jointNames
  target   : s.qTarget = seg.qTarget
  velocity : s.maxVelocity = seg.vMax
  current  : s.qCurrent.length = s.jointNames.length
  previous : s.qTargetPrevious = seg.qTarget
  first    : s.firstSegment = false

def Current (s : MotionExecutor R) : Prop :=
  s.execState = .running → ∃ seg, Executes seg s

theorem startPositions_length [Arithmetic R] :
    (s.startPositions stray).length = s.jointNames.length := by
  simp only [startPositions]
  split <;> simp

namespace Executes

theorem publish (h : Executes seg s) (he : e.executing? = none) : Executes seg (s.publish e) where
  last     := by rw [lastExecuted_of rfl, he]; exact h.last
  active   := h.active
  names    := h.names
  target   := h.target
  velocity := h.velocity
  current  := h.current
  previous := h.previous
  first    := h.first

theorem enqueue {msg : MotionSegment R} (h : Executes seg s) : Executes seg (s.enqueue msg) where
  last     := by rw [lastExecuted_of (s := s) rfl]; exact h.last
  active   := h.active
  names    := h.names
  target   := h.target
  velocity := h.velocity
  current  := h.current
  previous := h.previous
  first    := h.first

variable [Arithmetic R]

theorem execute {seg : QueuedSegment R} (ha : s.activeSegmentId = seg.segmentId)
    (hn : s.jointNames = seg.jointNames) (ht : s.qTarget = seg.qTarget) :
    Executes seg ((s.position seg stray).execute seg) where
  last     := lastExecuted_of (s := s) (e := .executing seg) rfl
  active   := ha
  names    := hn
  target   := ht
  velocity := rfl
  current  := startPositions_length
  previous := ht
  first    := rfl

theorem move (h : Executes seg s) : Executes seg (s.move ((s.commands stray).map (·.1))) where
  last     := by rw [lastExecuted_of rfl]; exact h.last
  active   := h.active
  names    := h.names
  target   := h.target
  velocity := h.velocity
  current  := by simp [MotionExecutor.move, MotionExecutor.publish, commands]
  previous := h.previous
  first    := h.first

theorem jointStateCallback {msg : JointState R} (h : Executes seg s) :
    Executes seg (s.jointStateCallback msg stray) where
  last     := h.last
  active   := h.active
  names    := h.names
  target   := h.target
  velocity := h.velocity
  current  := by
    simp only [MotionExecutor.jointStateCallback]
    split
    case isTrue  => simp
    case isFalse => exact h.current
  previous := h.previous
  first    := h.first

end Executes

namespace Current

variable [Arithmetic R] {i : Input R}

theorem boot : Current (boot segmentId velocity : MotionExecutor R) :=
  nofun

theorem starts (h : Starts stray s s') : Current s' := by
  cases h
  case drained  => exact nofun
  case refused  => exact nofun
  case latched  => exact nofun
  case executes => exact fun _ => ⟨_, .execute rfl rfl rfl⟩

theorem next (h : Current s) (m : Moves s i s') : Current s' := by
  have keep {s'} (hs : ∀ seg, Executes seg s → Executes seg s')
      (hr : s'.execState = .running → s.execState = .running) : Current s' := by
    intro hr'
    have ⟨seg, hx⟩ := h (hr hr')
    exact ⟨seg, hs seg hx⟩
  cases m
  case started hs         => exact starts hs
  case completed hs       => exact starts hs
  case rejected           => exact keep (fun _ hx => hx.publish rfl) id
  case queued             => exact keep (fun _ hx => hx.enqueue) id
  case measured           => exact keep (fun _ hx => hx.jointStateCallback) id
  case moved              => exact keep (fun _ hx => hx.move) id
  case cleared            => exact nofun
  case stopped            => exact nofun
  case aborted            => exact nofun
  all_goals exact keep (fun _ hx => ⟨hx.last, hx.active, hx.names, hx.target, hx.velocity,
    hx.current, hx.previous, hx.first⟩) id

theorem run (e : Run step (MotionExecutor.boot segmentId velocity) is s) : Current s :=
  e.invariant (fun h hs => h.next (step_moves hs)) boot

end Current

variable [Arithmetic R] {i : Input R}

theorem Starts.no_command (h : Starts stray s s') : Publishes (·.command? = none) s s' := by
  cases h
  case drained => exact .none rfl
  all_goals exact .one rfl rfl

theorem Moves.no_command (m : Moves s i s') :
    (∃ stray, i = .control stray ∧ s.execState = .running ∧ s.jointNames ≠ []) ∨
      Publishes (·.command? = none) s s' := by
  cases m
  case moved hr hj         => exact .inl ⟨_, rfl, hr, hj⟩
  case completed hr hj _ _ => exact .inl ⟨_, rfl, hr, hj⟩
  case started hs =>
    refine .inr (.trans ?_ hs.no_command)
    exact .one rfl rfl
  case rejected => exact .inr (.one rfl rfl)
  case queued   => exact .inr (.one rfl rfl)
  case cleared  => exact .inr (.one rfl rfl)
  case stopped  => exact .inr (.one rfl rfl)
  all_goals exact .inr (.none rfl)

theorem controlLoop_publishes (stray : Stray R) (hr : s.execState = .running)
    (hj : s.jointNames ≠ []) :
    Publishes (·.command? = none) (s.move ((s.commands stray).map (·.1)))
      (s.controlLoop stray) := by
  simp only [controlLoop, hr, hj, ne_eq, not_true, if_false]
  split
  case isFalse => exact .none rfl
  case isTrue =>
    split
    case isFalse => exact .one rfl rfl
    case isTrue =>
      refine .trans ?_ (startNextSegment_starts stray _).no_command
      exact .one rfl rfl

theorem mem_news_command : .actuatorCommand names positions ∈ news s (s.next i) ↔
    ∃ stray, i = .control stray ∧ s.execState = .running ∧ s.jointNames ≠ [] ∧
      names = s.jointNames ∧ positions = (s.commands stray).map (·.1) := by
  have quiet {s'} (h : Publishes (·.command? = none) s s') :
      ¬.actuatorCommand names positions ∈ news s s' := by
    obtain ⟨events, h, hp⟩ := h
    rw [news_of h]
    intro hm
    cases hp _ hm
  have moves {stray} (hr : s.execState = .running) (hj : s.jointNames ≠ []) :
      .actuatorCommand names positions ∈ news s (s.controlLoop stray) ↔
        names = s.jointNames ∧ positions = (s.commands stray).map (·.1) := by
    obtain ⟨events, h, hp⟩ := controlLoop_publishes stray hr hj
    have h : (s.controlLoop stray).published =
        (events ++ [.actuatorCommand s.jointNames ((s.commands stray).map (·.1))]) ++ s.published :=
      h.trans (List.append_cons ..)
    rw [news_of h, List.mem_append, List.mem_singleton, Event.actuatorCommand.injEq]
    refine or_iff_right fun hm => ?_
    cases hp _ hm
  constructor
  case mp =>
    intro hm
    have ⟨stray, hi, hr, hj⟩ := (next_moves s i).no_command.resolve_right fun h => quiet h hm
    subst hi
    exact ⟨stray, rfl, hr, hj, (moves hr hj).mp hm⟩
  case mpr =>
    rintro ⟨stray, rfl, hr, hj, h⟩
    exact (moves hr hj).mpr h

end MotionExecutor
end Executor
