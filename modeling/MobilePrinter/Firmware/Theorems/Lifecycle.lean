import MobilePrinter.Library.Replay
import MobilePrinter.Library.Trace
import MobilePrinter.Firmware.Lifecycle
import MobilePrinter.Firmware.Theorems.Orchestration

open Replay Trace Transition

namespace Firmware
namespace State

-- The log has led the lifecycle from `l₀` to what is seen of the state.
def Replays (l₀ : Lifecycle) (s : State) : Prop :=
  replay Lifecycle.next l₀ s.history = some s.lifecycle

variable {l₀ : Lifecycle} {s s' : State} {i : TickInput} {io : FileOutcomes} {e : Event}

theorem Replays.cons (h : s.Replays l₀) (hh : s'.history = e :: s.history)
    (hn : Lifecycle.next e s.lifecycle = some s'.lifecycle) : s'.Replays l₀ := by
  rw [Replays, hh, replay_cons h, hn]

theorem Replays.of_eq (h : s.Replays l₀) (hh : s'.history = s.history)
    (hl : s'.lifecycle = s.lifecycle) : s'.Replays l₀ := by
  rwa [Replays, hh, hl]

theorem printable?_of_absent (h : s.machine.jobPresent = false) : s.printable? = none := by
  simp [printable?, h]

theorem Bound.printable? (b : s.Bound segs) (h : s.machine.jobPresent = true) :
    s.printable? = some (s.machine.jobId, segs) := by
  have ⟨p, hp, hd⟩ := b.pointer
  simp [State.printable?, h, hp, hd]

theorem lifecycle_segment? (h : s.machine.jobPresent = true) :
    s.lifecycle.segment? = s.activeJob.segment? s.heap s.exec.cursor := by
  simp only [Lifecycle.segment?, lifecycle, State.printable?, if_pos h, Job.segment?]
  cases s.activeJob.segments.bind s.heap.deref <;> rfl

theorem WellFormed.segment?_isSome (w : s.WellFormed) (hp : s.machine.jobPresent = true)
    (hc : s.exec.cursor < s.activeJob.totalSegments) : s.lifecycle.segment?.isSome := by
  have ⟨segs, b⟩ := w.bound hp
  rw [← b.length] at hc
  rw [lifecycle_segment? hp, b.segment?, List.getElem?_eq_getElem hc]
  rfl

theorem WellFormed.spent (w : s.WellFormed) (hc : s.Completes) : s.lifecycle.Spent := by
  have hp := w.running hc.left
  have ⟨segs, b⟩ := w.bound hp
  exact ⟨_, b.printable? hp, b.length.trans_le hc.right.left⟩

theorem Replays.accepts (h : s.Replays l₀) (w : s.WellFormed) (a : Accepts s io c s') :
    (s'.note q c .accepted).Replays l₀ := by
  cases a
  case start hr _ hp hc _ _ =>
    exact h.cons rfl (if_pos ⟨hr, w.segment?_isSome hp hc⟩)
  case pause hs             => exact h.cons rfl (if_pos hs)
  case resume hs _ _ _ _ _  => exact h.cons rfl (if_pos hs)
  case abort hs             => exact h.cons rfl (if_pos hs)
  case clearJob hs _        => exact h.cons rfl (if_pos hs)
  case setLocalizationMode hs _ => exact h.cons rfl (if_pos hs)
  case recover hs _         => exact h.cons rfl (if_pos hs)

theorem Replays.acceptJob (h : s.Replays l₀) (w : s.WellFormed) (a : s.Submittable blob) :
    (s.acceptJob blob q).Replays l₀ := by
  have hj : s.machine.jobPresent = false := w.stored.symm.trans a.vacant
  have hn : decodeSegments (segmentCount blob) blob ≠ [] := by
    rw [← List.length_pos_iff, decodeSegments_length]
    exact segmentCount_pos a.nonempty a.size
  have w' := w.acceptJob (q := q) a
  have ⟨segs, b⟩ := w'.bound rfl
  have hs : segs = decodeSegments (segmentCount blob) blob := by
    have ha := b.accepted
    cases ha
    rfl
  refine h.cons rfl ?_
  have hl : (s.acceptJob blob q).lifecycle =
      { s.lifecycle with job := some (s.nextJobId, segs) } := by
    simp only [lifecycle, b.printable? rfl]
    rfl
  rw [hl, hs]
  exact if_pos ⟨a.ready, printable?_of_absent hj, hn⟩

theorem Replays.fed {f : Feed RosMotion} (h : s.Replays l₀) (w : s.WellFormed)
    (hs : s.Steps safety) (hf : Feed.Fed s.activeJob s.heap s.feed f seg res) :
    (s.withFeed f).Replays l₀ := by
  have hp := w.running hs.right.right.left
  have hg : s.lifecycle.segment?.map Segment.command = some seg.command := by
    rw [lifecycle_segment? hp]
    exact congrArg (Option.map _) hf.segment
  have hc : (s.withFeed f).lifecycle =
      if res = .faulted then s.lifecycle
      else { s.lifecycle with position := s.lifecycle.position + 1 } := by
    have hx : (s.withFeed f).exec = f.ctx := rfl
    simp only [lifecycle, hx, hf.ctx]
    split <;> rfl
  refine h.cons (Executed.history_of_fed hf) ?_
  rw [hc]
  exact if_pos ⟨hs.right.left, hg⟩

theorem kept_replays : Kept (Replays l₀) i where
  accepted w h a := h.accepts w a
  rejected h     := h.cons rfl rfl
  job w h a      := h.acceptJob w a
  armed _ h _    := h
  fault _ h _    := h.cons rfl rfl
  run _ h _      := h
  executed {_ f} w h e := by
    cases e.moves
    case inl hm =>
      refine h.of_eq (Executed.history_of_held hm) ?_
      have hc : f.ctx = _ := hm.ctx
      rw [lifecycle, withFeed, hc]
      rfl
    case inr hm =>
      obtain ⟨hs, _, _, _, hm⟩ := hm
      exact h.fed w hs hm

theorem Replays.aborting (h : s.Replays l₀) (hs : s.machine.system = .aborting)
    (a : Aborting s io s') : s'.Replays l₀ := by
  cases a
  case begun => exact h.cons rfl (if_pos hs)
  case stale => exact h

theorem Replays.pausing (h : s.Replays l₀) (hs : s.machine.system = .paused)
    (a : Pausing s io s') : s'.Replays l₀ := by
  cases a
  case captured => exact h.cons rfl (if_pos ⟨hs, rfl⟩)
  case kept     => exact h

theorem Replays.completed {p : Heap.Ptr} (h : s.Replays l₀)
    (hs : s.machine.system = .executingPrint ∨ s.machine.system = .idle)
    (hc : s.lifecycle.Spent) : (s.completed p).Replays l₀ := by
  refine h.cons rfl ?_
  have hl : (s.completed p).lifecycle =
      { system := if s.machine.system = .executingPrint then .ready else s.machine.system
        job    := none, position := 0 } := by
    rw [← completed_system (p := p)]
    rfl
  rw [hl]
  cases hs
  case inl hs =>
    rw [if_pos hs]
    exact if_pos ⟨hs, hc⟩
  case inr hs =>
    rw [hs, if_neg nofun]
    exact (if_neg fun hn => by cases hs.symm.trans hn.left).trans (if_pos ⟨hs, hc⟩)

theorem next_not_boot {l l' : Lifecycle} (h : Lifecycle.next e l = some l')
    (hl : l.system ≠ .boot) : l'.system ≠ .boot := by
  revert h
  fun_cases Lifecycle.next e l
  case case2 _ c => cases c <;> grind [Lifecycle.command, Lifecycle.enter]
  all_goals grind [Lifecycle.enter]

theorem Replays.not_boot (h : s.Replays l₀) (h₀ : l₀.system ≠ .boot) :
    s.machine.system ≠ .boot :=
  replay_invariant (I := fun _ l => l.system ≠ .boot) h₀ (fun hl hn => next_not_boot hn hl) h

theorem Orchestrated.replays (o : Orchestrated s io s') (w : s.WellFormed) (h : s.Replays l₀)
    (h₀ : l₀.system ≠ .boot) : s'.Replays l₀ := by
  cases o
  case stopped | held | started | continued => exact h
  case draining hs _ a _ => exact h.aborting hs a
  case aborted hs a _    => exact (h.aborting hs a).cons rfl (if_pos (a.system.trans hs))
  case paused hs a _ _   => exact h.pausing hs a
  case released hs a     =>
    have h := h.pausing hs a
    exact h
  case lost              => exact h.cons rfl rfl
  case restored hs _ _   => exact h.cons rfl (if_pos hs)
  case completed p n hs hc _ =>
    have hx : s.machine.system = .executingPrint ∨ s.machine.system = .idle := by
      cases hm : s.machine.system
      case executingPrint => exact .inl rfl
      case idle           => exact .inr rfl
      case boot           => exact absurd hm (h.not_boot h₀)
      case ready          => cases (w.ready hm).left.symm.trans hc.left
      all_goals simp [hm, SystemState.finishing] at hs
    have h : (s.tracked n).Replays l₀ := h
    exact h.completed hx (w.spent hc)

theorem tick_replays (h₀ : l₀.system ≠ .boot) (w : s.WellFormed) (h : s.Replays l₀)
    (ht : tick i s = .ok s') : s'.Replays l₀ :=
  kept_replays.tick w h ht fun w o h => o.replays w h h₀

end State

open State

theorem Booted.replays (b : Booted s₀) (e : Run tick s₀ is s) : s.Replays s₀.lifecycle := by
  have h₀ : s₀.history = [] ∧ s₀.machine.system ≠ .boot := by
    have ⟨_, b⟩ := b.boots
    cases b <;> exact ⟨rfl, nofun⟩
  refine WellFormed.invariant (tick_replays h₀.right) b.wellFormed ?_ e
  rw [Replays, h₀.left]
  rfl

-- The log of every session is accepted by the lifecycle, entry by entry, and leads it from what the
-- boot has shown to what the machine shows.
theorem log_replays (b : Booted s₀) (e : Run tick s₀ is s) :
    replay Lifecycle.next s₀.lifecycle s.history = some s.lifecycle :=
  b.replays e

-- A job that is paused and resumed.
theorem log_replays_resume :
    ∃ s₀ s : State, Booted s₀ ∧ s.history.length = 8 ∧
      replay Lifecycle.next s₀.lifecycle s.history = some s.lifecycle := by
  have ⟨s₀, hb, h⟩ : ∃ s₀, boot {} none = .ok s₀ ∧
      Reaches tick (·.history.length = 8) s₀
        [{}, .submit 1 3, .issue 1 1, .issue 2 2, .issue 3 3, {}] :=
    ⟨_, rfl, by decide +kernel⟩
  have ⟨s, e, hn⟩ := h.run
  exact ⟨s₀, s, ⟨_, _, hb⟩, hn, log_replays ⟨_, _, hb⟩ e⟩

def Event.goes : Event → Bool
  | .commandHandled _ c .accepted => c == .start
  | .snapshotRestored _           => true
  | _                             => false

def Event.stops : Event → Bool
  | .commandHandled _ c .accepted             => c == .pause || c == .abort
  | .abortStarted | .finalized _ | .faulted _ => true
  | _                                         => false

def Event.drops : Event → Bool
  | .commandHandled _ c .accepted => c == .clearJob
  | .finalized reason             => reason == .normal
  | _                             => false

-- How many segments have been passed on since the last completion. A snapshot that is restored
-- brings its own count.
def History.position : History → Nat
  | []                          => 0
  | .motionSubmitted _ res :: h => if res = .faulted then position h else position h + 1
  | .snapshotRestored snap :: _ => snap.cursor
  | .finalized .normal :: _     => 0
  | _ :: h                      => position h

-- What a log has to tell of a lifecycle that it has led to `l`: what executes has been set going
-- and not been stopped since, a job that is present is the one that was accepted last, and the
-- segments that have been passed on are counted.
structure Lifecycle.Told (log : History) (l : Lifecycle) : Prop where
  going    : l.system = .executingPrint →
    (∃ e ∈ log, e.goes = true) ∧ ∀ e ∈ since Event.goes log, e.stops = false
  bound    : ∀ job ∈ l.job,
    lastAccepted log = some job ∧ ∀ e ∈ since Event.acceptsJob log, e.drops = false
  position : l.position = log.position

namespace Lifecycle

variable {log : History} {l l' : Lifecycle} {e : Event}

theorem Told.cons (t : Told log l)
    (hs : l'.system = .executingPrint →
      e.goes = true ∨ (l.system = .executingPrint ∧ e.stops = false))
    (hj : ∀ job ∈ l'.job, e = .jobAccepted job.1 job.2 ∨
      (job ∈ l.job ∧ e.drops = false ∧ e.acceptsJob = false))
    (hp : l'.position = History.position (e :: log)) : Told (e :: log) l' where
  position := hp
  going h := by
    cases hs h
    case inl hg => exact ⟨⟨e, List.mem_cons_self, hg⟩, forall_since_of_pos hg⟩
    case inr hn =>
      have ⟨⟨e', hm, hg⟩, ht⟩ := t.going hn.left
      exact ⟨⟨e', List.mem_cons_of_mem _ hm, hg⟩, forall_since_cons hn.right ht⟩
  bound job h := by
    cases hj job h
    case inl he =>
      subst he
      exact ⟨rfl, forall_since_of_pos rfl⟩
    case inr hn =>
      have ⟨hl, ht⟩ := t.bound job hn.left
      refine ⟨?_, forall_since_cons hn.right.left ht⟩
      cases e
      case jobAccepted => cases hn.right.right
      all_goals exact hl

theorem next_going (h : Lifecycle.next e l = some l') (hs : l'.system = .executingPrint) :
    e.goes = true ∨ (l.system = .executingPrint ∧ e.stops = false) := by
  revert h
  fun_cases Lifecycle.next e l
  case case2 _ c => cases c <;> grind [Lifecycle.command, Lifecycle.enter, Event.goes, Event.stops]
  all_goals grind [Lifecycle.enter, Event.goes, Event.stops]

theorem next_job (h : Lifecycle.next e l = some l') : ∀ job ∈ l'.job,
    e = .jobAccepted job.1 job.2 ∨ (job ∈ l.job ∧ e.drops = false ∧ e.acceptsJob = false) := by
  revert h
  fun_cases Lifecycle.next e l
  case case2 _ c =>
    cases c <;> grind [Lifecycle.command, Lifecycle.enter, Event.drops, Event.acceptsJob]
  all_goals grind [Lifecycle.enter, Event.drops, Event.acceptsJob]

theorem next_position (h : Lifecycle.next e l = some l') (hp : l.position = log.position) :
    l'.position = History.position (e :: log) := by
  revert h
  fun_cases Lifecycle.next e l
  case case2 _ c => cases c <;> grind [Lifecycle.command, Lifecycle.enter, History.position]
  all_goals grind [Lifecycle.enter, History.position]

theorem Told.next (t : Told log l) (h : Lifecycle.next e l = some l') : Told (e :: log) l' :=
  t.cons (next_going h) (next_job h) (next_position h t.position)

end Lifecycle

theorem Booted.told (b : Booted s) : Lifecycle.Told [] s.lifecycle := by
  have ⟨_, b⟩ := b.boots
  cases b <;> exact ⟨nofun, nofun, rfl⟩

-- The command is that of the next segment of the job that was accepted last, which has neither been
-- completed nor cleared since. The execution has been set going, and has not been paused, aborted,
-- finalized or stopped by a fault since.
structure Driven (c : MotionCommand) (older : History) : Prop where
  going   : ∃ e ∈ older, e.goes = true
  ongoing : ∀ e ∈ since Event.goes older, e.stops = false
  segment : ∃ id segs, lastAccepted older = some (id, segs) ∧
    segs[older.position]?.map Segment.command = some c
  kept    : ∀ e ∈ since Event.acceptsJob older, e.drops = false

theorem Driven.mem (d : Driven c older) :
    ∃ id segs, lastAccepted older = some (id, segs) ∧ c ∈ segs.map Segment.command := by
  have ⟨id, segs, hl, hc⟩ := d.segment
  have ⟨seg, hg, hc⟩ := Option.map_eq_some_iff.mp hc
  exact ⟨id, segs, hl, List.mem_map.mpr ⟨seg, List.mem_of_getElem? hg, hc⟩⟩

theorem Lifecycle.Told.driven {l l' : Lifecycle} {log : History} (t : Lifecycle.Told log l)
    (h : Lifecycle.next (.motionSubmitted c res) l = some l') : Driven c log := by
  simp only [Lifecycle.next, Option.ite_none_right_eq_some, Option.map_eq_some_iff] at h
  have ⟨⟨hs, seg, hg, hc⟩, _⟩ := h
  have ⟨job, hj, hg⟩ := Option.bind_eq_some_iff.mp hg
  have ⟨hl, hd⟩ := t.bound job hj
  have ⟨hx, ht⟩ := t.going hs
  rw [t.position] at hg
  exact ⟨hx, ht, ⟨_, _, hl, Option.map_eq_some_iff.mpr ⟨seg, hg, hc⟩⟩, hd⟩

theorem Reachable.driven (r : Reachable s) (h : .motionSubmitted c res :: older <:+ s.history) :
    Driven c older := by
  cases r
  case intro s₀ _ b e =>
    have ⟨l, _, hl, hn⟩ := replay_at (b.replays e) h
    have t := replay_invariant (I := Lifecycle.Told) b.told Lifecycle.Told.next hl
    exact t.driven hn

-- Nothing moves while the machine is stopped, and nothing but what belongs to its job.
theorem moves_driven (r : Reachable s) (h : .motionSubmitted c res :: older <:+ s.history) :
    Driven c older :=
  r.driven h

-- The command that is submitted behind a RESUME.
theorem moves_driven_resume :
    ∃ s c older, Reachable s ∧ s.history = .motionSubmitted c .accepted :: older ∧
      Driven c older := by
  have ⟨s₀, hb, h⟩ : ∃ s₀, boot {} none = .ok s₀ ∧
      Reaches tick
        (fun s => s.history.head? = some (.motionSubmitted (decodeSegment []).command .accepted)) s₀
        [{}, .submit 1 3, .issue 1 1, .issue 2 2, .issue 3 3, {}] :=
    ⟨_, rfl, by decide +kernel⟩
  have ⟨s, e, hn⟩ := h.run
  have ⟨older, hh⟩ := List.head?_eq_some_iff.mp hn
  have r : Reachable s := .intro ⟨_, _, hb⟩ e
  have hs : .motionSubmitted (decodeSegment []).command .accepted :: older <:+ s.history := by
    simp [hh]
  exact ⟨s, _, older, r, hh, moves_driven r hs⟩

end Firmware
