import Mathlib.Data.List.Basic
import MobilePrinter.Library.Ranking
import MobilePrinter.Firmware.Theorems.Executions
import MobilePrinter.Firmware.Theorems.Submissions
import MobilePrinter.Firmware.Theorems.Wedge

open Transition

namespace Firmware

-- The number of commands in flight from which on `is_ready` refuses another one.
def RosSimMotionController.room (c : RosSimMotionController) : UInt32 :=
  let cap    := c.executorQueueCapacity
  let target := if cap > 2 then cap - 2 else cap
  if !c.executorReady then
    0
  else if cap == 0 then
    streamWindow
  else if c.executorQueueDepth ≥ target then
    0
  else
    target

namespace RosMotion

structure Rests (m : RosMotion) (c : RosSimMotionController) : Prop where
  last       : m.schedule.tail = []
  controller : m.spin.controller = c

-- The motion layer has room for a command.
structure Admits (m : RosMotion) : Prop where
  last : m.schedule.tail = []
  room : m.spin.controller.inflight < m.spin.controller.room

instance : Decidable (Admits m) :=
  decidable_of_iff (m.schedule.tail = [] ∧ m.spin.controller.inflight < m.spin.controller.room)
    ⟨fun h => ⟨h.left, h.right⟩, fun h => ⟨h.last, h.room⟩⟩

variable {m : RosMotion} {c : RosSimMotionController} {cmd : MotionCommand}

theorem Admits.rests (h : m.Admits) : Rests m m.spin.controller :=
  ⟨h.last, rfl⟩

theorem submit_ne_faulted : (m.submit cmd).1 ≠ .faulted := by
  simp only [submit]
  split <;> simp

namespace Rests

theorem of_spin (h : m.schedule = []) : Rests m m.controller :=
  ⟨by simp [h], by simp [RosMotion.spin, h]⟩

theorem spin (h : Rests m c) : Rests m.spin c :=
  ⟨by simp [spin_schedule h.last], by rw [spin_spin h.last, h.controller]⟩

theorem isReady (h : Rests m c) : m.isReady = (decide (c.inflight < c.room), m.spin) := by
  simp only [RosMotion.isReady, RosMotion.inflight, spin_spin h.last, h.controller,
    RosSimMotionController.room]
  split
  case isTrue => simp
  split
  case isTrue => rfl
  generalize (if c.executorQueueCapacity > 2 then c.executorQueueCapacity - 2
    else c.executorQueueCapacity) = target
  split
  case isTrue  => simp
  case isFalse =>
    simp only [RosSimMotionController.inflight, ← UInt32.not_lt, decide_not, Bool.not_not]
    exact congrArg (·, m.spin) (decide_eq_decide.mpr .rfl)

theorem submit (cmd : MotionCommand) (h : Rests m c) (hr : c.inflight < c.room) :
    (m.submit cmd).1 = .accepted := by
  simp [RosMotion.submit, h.isReady, hr]

theorem poll (h : Rests m c) : ∃ c', Rests (m.poll b).2.2 c' ∧
    c'.inflight = c.inflight ∧ c'.room = c.room := by
  have hs := spin_spin h.last
  have hf : m.spin.abortFallback.2 = m.spin := by
    simp only [abortFallback, hs]
    split
    · rfl
    · split <;> rfl
  have hw : m.spin.checkWatchdog.2 = m.spin := by
    simp only [checkWatchdog, RosMotion.inflight, hs]
    split
    · rfl
    · split <;> rfl
  have hr : Rests m.spin c := h.spin
  simp only [RosMotion.poll, RosMotion.inflight, hs, hf, hw]
  split
  case isTrue => exact ⟨c, hr, rfl, rfl⟩
  split
  case isTrue =>
    refine ⟨_, of_spin (spin_schedule h.last), ?_, ?_⟩ <;> simp only [h.controller] <;> rfl
  simp only [clearDrainedAbort, RosMotion.inflight, hs]
  split
  case isTrue => exact ⟨c, hr, rfl, rfl⟩
  split
  case isTrue => exact ⟨c, hr, rfl, rfl⟩
  refine ⟨_, of_spin (spin_schedule h.last), ?_, ?_⟩ <;> simp only [h.controller] <;> rfl

end Rests
end RosMotion

-- No command is read in the tick, and the safety inputs are good.
structure TickInput.Undisturbed (i : TickInput) : Prop where
  command : i.command = none
  safe    : (evaluateSafety i.safety).status = .safe

namespace State

def Admits (i : TickInput) (s : State) : Prop :=
  RosMotion.Admits { s.motion with schedule := i.spin }

instance : Decidable (Admits i s) :=
  inferInstanceAs (Decidable (RosMotion.Admits _))

def remaining (s : State) : List Segment :=
  (acceptedSegments s.history).drop s.exec.cursor

-- Nothing has been logged since `s` but `moves`, which are submissions of the next segments.
structure Moved (s s' : State) (moves : List (MotionCommand × MotionResult)) : Prop where
  history   : s'.history = moves.reverse.map (fun c => .motionSubmitted c.1 c.2) ++ s.history
  remaining : s.remaining.map Segment.command =
    moves.map (·.1) ++ s'.remaining.map Segment.command

-- The remaining segments of `s` have been passed on, one after another, and the job is completed.
structure Concluded (s s' : State) : Prop where
  ready : s'.machine.system = .ready
  freed : s'.machine.jobPresent = false
  moved : ∃ moves : List (MotionCommand × MotionResult),
    moves.map (·.1) = s.remaining.map Segment.command ∧
    s'.history =
      .finalized .normal :: (moves.reverse.map (fun c => .motionSubmitted c.1 c.2) ++ s.history)

structure Ongoing (s s' : State) : Prop where
  boundary   : s'.Boundary
  executing  : s'.machine.system = .executingPrint
  finishable : s'.Finishable
  moved      : ∃ moves, Moved s s' moves

variable {s s' s'' a m : State} {i : TickInput} {r : ExecutionResult}
  {moves moves' : List (MotionCommand × MotionResult)}

theorem Moved.refl : Moved s s [] :=
  ⟨rfl, rfl⟩

theorem Moved.trans (h : Moved s s' moves) (h' : Moved s' s'' moves') :
    Moved s s'' (moves ++ moves') where
  history   := by simp [h'.history, h.history]
  remaining := by simp [h.remaining, h'.remaining]

-- What an undisturbed tick has made of an execution before it is stepped.
structure Awaits (i : TickInput) (s a : State) : Prop where
  executing       : a.machine.system = .executingPrint
  cursor          : a.exec.cursor = s.exec.cursor
  abortInProgress : a.exec.abortInProgress = s.exec.abortInProgress
  lastCursor      : a.lastCursor = s.lastCursor
  activeJob       : a.activeJob = s.activeJob
  history         : a.history = s.history
  motion          : a.motion = { s.motion with schedule := i.spin }

theorem arm_awaits (hi : i.Undisturbed) (hs : s.machine.system = .executingPrint) :
    Awaits i s (s.arm i) := by
  have hp : s.pollCommand i.io i.command = s := by
    rw [hi.command]
    rfl
  have h : Awaits i s (s.prepare i) := by
    simp only [prepare, hp]
    have p := pollJobIngress_ingested (s := s) i.job
    have h₀ : Awaits i s { s.pollJobIngress i.job with
        motion := { (s.pollJobIngress i.job).motion with schedule := i.spin } } := by
      generalize s.pollJobIngress i.job = s' at p
      cases p
      case accepted a _ => cases a.ready.symm.trans hs
      all_goals exact ⟨hs, rfl, rfl, rfl, rfl, rfl, rfl⟩
    by_cases a : (s.pollJobIngress i.job).Armable
    case pos =>
      rw [activateJobExecution_of_armable a]
      exact { h₀ with }
    case neg =>
      rw [activateJobExecution_of_not_armable a]
      exact h₀
  rw [arm, checkSafety_of_not_fault (by simp [hi.safe])]
  by_cases a : (s.prepare i).Runnable
  case pos =>
    rw [armExecution_of_runnable a]
    exact { h with }
  case neg =>
    rw [armExecution_of_not_runnable a]
    exact h

-- A finishable execution is not stepped behind its last cursor, and nothing aborts it before all of
-- its segments have been fed.
theorem finishable_iff :
    s.Finishable ↔
      (s.exec.cursor < s.activeJob.totalSegments → s.exec.abortInProgress = false) ∧
      (s.activeJob.totalSegments ≤ s.exec.cursor → s.exec.phase = .running) ∧
      (s.exec.abortInProgress = false → s.exec.cursor = 0 ∨ s.lastCursor ≤ s.exec.cursor) := by
  simp only [Finishable, Feedable, Spent]
  by_cases hl : s.exec.cursor < s.activeJob.totalSegments
  case pos =>
    simp only [hl, Nat.not_le.mpr hl, false_and, and_false, or_false, true_and, forall_const,
      false_implies]
    exact and_congr_right fun hc => by simp [hc]
  case neg => simp [hl, Nat.not_lt.mp hl]

theorem withFeed_inj {f f' : Feed RosMotion} (h : s.withFeed f = s.withFeed f') : f = f' := by
  have hh : f.submitted.map (fun c => Event.motionSubmitted c.1 c.2) =
      f'.submitted.map (fun c => Event.motionSubmitted c.1 c.2) :=
    List.append_cancel_right (congrArg (·.history) h)
  have hs : f.submitted = f'.submitted := by
    refine List.map_injective_iff.mpr (fun c c' hc => ?_) hh
    simpa [Prod.ext_iff] using hc
  cases f
  cases f'
  simp only [withFeed, mk.injEq, MachineState.mk.injEq] at h
  simp_all

theorem answer?_ne_faulted {f : Feed RosMotion} {heap : Heap Segment}
    (h : f.answer? job heap = some res) : res ≠ .faulted := by
  simp only [Feed.answer?] at h
  split at h
  case isFalse => cases h
  case isTrue =>
    obtain ⟨seg, _, hr⟩ := Option.map_eq_some_iff.mp h
    exact hr ▸ RosMotion.submit_ne_faulted

theorem executeStep_moves (w : s.WellFormed) (h : s.executeStep safety = .ok (r, s')) :
    ∃ f, s' = s.withFeed f ∧ s.Executed safety f ∧
      ∀ seg res, Feed.Fed s.activeJob s.heap s.feed f seg res → res ≠ .faulted := by
  obtain ⟨_, f, hf, e⟩ := executeStep_ok h
  refine ⟨f, hf, e, fun seg res hx => ?_⟩
  by_cases hs : s.Steps safety
  case neg =>
    have hn := hx.submitted
    rw [e.rests hs] at hn
    simp [feed] at hn
  case pos =>
    rw [executeStep, if_pos hs] at h
    obtain ⟨o, he, ho⟩ := map_eq_ok.mp h
    cases ho
    cases withFeed_inj hf
    have hr : s.feed.Runs :=
      ⟨w.owned.mpr hs.right.right.left, hs.right.right.right, hs.right.right.left⟩
    have hm := hx.submitted
    cases Feed.executionStep_answer he hr hx.bound
    case inl hh =>
      rw [hh.left.submitted] at hm
      simp at hm
    case inr hh =>
      obtain ⟨_, _, hf', ha⟩ := hh
      have hc : _ = res := congrArg Prod.snd (List.cons.inj (hf'.submitted.symm.trans hm)).left
      exact hc ▸ answer?_ne_faulted ha

-- What an undisturbed tick hands to the orchestrator while a job executes.
structure Stepped (s m : State) : Prop where
  executing       : m.machine.system = .executingPrint
  running         : m.exec.phase = .running
  abortInProgress : m.exec.abortInProgress = s.exec.abortInProgress
  activeJob       : m.activeJob = s.activeJob
  moves           :
    (m.history = s.history ∧ m.exec.cursor = s.exec.cursor ∧
      (m.lastCursor = s.lastCursor ∨ m.lastCursor = s.exec.cursor)) ∨
    ∃ seg res, s.exec.cursor < s.activeJob.totalSegments ∧
      (acceptedSegments s.history)[s.exec.cursor]? = some seg ∧
      m.history = .motionSubmitted seg.command res :: s.history ∧
      m.exec.cursor = s.exec.cursor + 1 ∧ m.lastCursor = s.exec.cursor

theorem execute_stepped (b : s.Boundary) (hs : s.machine.system = .executingPrint)
    (hf : s.Finishable) (hi : i.Undisturbed) (he : s.execute i = .ok (r, m)) : Stepped s m := by
  have h := arm_awaits hi hs
  have w := b.wellFormed.arm (i := i)
  have hp : (s.arm i).exec.phase = .running :=
    arm_running b.wellFormed (fun _ => hf.symm.imp (·.left) (·.left)) h.executing
  have ⟨o, ho, hm⟩ := map_eq_ok.mp he
  have ⟨r', a'⟩ := o
  have ⟨f, hf', e, hn⟩ := executeStep_moves w ho
  have hx := e.exec_eq
  cases hm
  rw [hf']
  generalize s.arm i = a at h w hp e hn hx
  refine {
    executing       := h.executing
    running         := (congrArg (·.phase) hx).trans hp
    abortInProgress := (congrArg (·.abortInProgress) hx).trans h.abortInProgress
    activeJob       := h.activeJob
    moves           := ?moves }
  case moves =>
    cases e.moves
    case inl hh =>
      refine .inl ⟨(Executed.history_of_held hh).trans h.history, ?_, ?_⟩
      · exact (congrArg (·.cursor) hh.ctx).trans h.cursor
      · rw [← h.lastCursor, ← h.cursor]
        exact e.lastCursor
    case inr hh =>
      have ⟨hst, hl, seg, res, hfed⟩ := hh
      have ⟨segs, bj⟩ := w.bound (w.running hp)
      have hc : f.ctx = { a.exec with cursor := a.exec.cursor + 1 } :=
        hfed.ctx.trans (if_neg (hn seg res hfed))
      refine .inr ⟨seg, res, ?_, ?_, ?_, ?_, hl.trans h.cursor⟩
      · rw [← h.cursor, ← h.activeJob]
        exact hfed.bound
      · rw [← h.history, ← h.cursor, bj.acceptedSegments, ← bj.segment?]
        exact hfed.segment
      · exact (Executed.history_of_fed hfed).trans (congrArg _ h.history)
      · exact (congrArg (·.cursor) hc).trans (congrArg (· + 1) h.cursor)

theorem Stepped.moved (h : Stepped s m) : ∃ moves, Moved s m moves := by
  cases h.moves
  case inl hm =>
    refine ⟨[], hm.left, ?_⟩
    rw [remaining, remaining, hm.left, hm.right.left]
    rfl
  case inr hm =>
    have ⟨seg, res, _, hs, hh, hc, _⟩ := hm
    refine ⟨[(seg.command, res)], hh, ?_⟩
    have hd : s.remaining = seg :: m.remaining := by
      have hl := (List.getElem?_eq_some_iff.mp hs).choose
      rw [remaining, remaining, hh, hc, List.drop_eq_getElem_cons hl]
      rw [List.getElem?_eq_getElem hl, Option.some.injEq] at hs
      rw [hs]
      rfl
    rw [hd]
    rfl

theorem Stepped.finishable (h : Stepped s m) (hf : s.Finishable) : m.Finishable := by
  rw [finishable_iff] at hf ⊢
  refine ⟨fun hl => ?_, fun _ => h.running, fun ha => ?_⟩
  · rw [h.abortInProgress]
    rw [h.activeJob] at hl
    refine hf.left ?_
    cases h.moves
    case inl hm => rwa [hm.right.left] at hl
    case inr hm => exact hm.choose_spec.choose_spec.left
  · cases h.moves
    case inl hm =>
      have hc := hf.right.right (h.abortInProgress ▸ ha)
      rw [hm.right.left]
      cases hm.right.right
      case inl hl => exact hl ▸ hc
      case inr hl => exact .inr (Nat.le_of_eq hl)
    case inr hm =>
      have ⟨_, _, _, _, _, hc, hl⟩ := hm
      exact .inr (by omega)

theorem Stepped.rank (h : Stepped s m) :
    m.activeJob.totalSegments - m.exec.cursor ≤ s.activeJob.totalSegments - s.exec.cursor := by
  rw [h.activeJob]
  cases h.moves
  case inl hm => exact Nat.le_of_eq (by rw [hm.right.left])
  case inr hm =>
    have ⟨_, _, _, _, _, hc, _⟩ := hm
    omega

theorem idle_of_rests {c : RosSimMotionController} (h : s.motion.Rests c)
    (hc : c.inflight < c.room) : s.pollMotion.sampleMotionIdle.machine.motionIdle = true := by
  have ⟨c', hr, hi, ho⟩ := h.poll (b := s.machine.motionIdle)
  have hm : (s.motion.poll s.machine.motionIdle).2.2.isReady.1 = true := by
    rw [hr.isReady]
    exact decide_eq_true (hi ▸ ho ▸ hc)
  exact hm

theorem executeStep_admits (w : s.WellFormed) (hs : s.Steps safety) (hb : ¬s.Behind)
    (h : s.motion.Admits) (hl : s.exec.cursor < s.activeJob.totalSegments) :
    ∃ r f, s.executeStep safety = .ok (r, s.withFeed f) ∧ f.ctx.cursor = s.exec.cursor + 1 := by
  have hr := h.rests
  have ⟨_, bj⟩ := w.bound (w.running hs.right.right.left)
  have ⟨seg, hg⟩ : ∃ seg, s.activeJob.segment? s.heap s.exec.cursor = some seg :=
    ⟨_, (bj.segment? _).trans (List.getElem?_eq_getElem (bj.length ▸ hl))⟩
  have ha := hr.spin.spin.submit seg.command h.room
  have h₁ : s.motion.isReady = (true, s.motion.spin) := by rw [hr.isReady, decide_eq_true h.room]
  have h₂ : s.motion.spin.isReady = (true, s.motion.spin.spin) := by
    rw [hr.spin.isReady, decide_eq_true h.room]
  have ⟨f, he, hf, _, _⟩ :=
    Feed.advance_of_ready (f := { s.feed with lastCursor := s.exec.cursor }) hl hg h₁ h₂ ha
  refine ⟨.progressed, f, ?_, congrArg (·.cursor) hf⟩
  rw [executeStep_eq w hs hb, he]
  rfl

-- With room for a command the next segment is passed on, or the job is found to be drained.
theorem execute_admits (b : s.Boundary) (hs : s.machine.system = .executingPrint)
    (hf : s.Finishable) (hi : i.Undisturbed) (ha : s.Admits i) (he : s.execute i = .ok (r, m)) :
    (s.exec.cursor < s.activeJob.totalSegments → m.exec.cursor = s.exec.cursor + 1) ∧
      (s.activeJob.totalSegments ≤ s.exec.cursor → m.machine.motionIdle = true) := by
  have h := arm_awaits hi hs
  have w := b.wellFormed.arm (i := i)
  have hp : (s.arm i).exec.phase = .running :=
    arm_running b.wellFormed (fun _ => hf.symm.imp (·.left) (·.left)) h.executing
  have ⟨o, ho, hm⟩ := map_eq_ok.mp he
  rw [finishable_iff] at hf
  cases hm
  generalize s.arm i = a at h w hp ho
  have hr : a.motion.Admits := h.motion ▸ ha
  by_cases hx : a.exec.abortInProgress = true
  case pos =>
    have hn : ¬a.Steps (evaluateSafety i.safety) := fun hc => by
      cases hx.symm.trans hc.right.right.right
    cases (if_neg hn).symm.trans ho
    refine ⟨fun hl => ?_, fun _ => idle_of_rests hr.rests hr.room⟩
    cases (hf.left hl).symm.trans (h.abortInProgress ▸ hx)
  case neg =>
    have hx : a.exec.abortInProgress = false := by simpa using hx
    have hst : a.Steps (evaluateSafety i.safety) := ⟨hi.safe, h.executing, hp, hx⟩
    have hb : ¬a.Behind := by
      have hc := hf.right.right (h.abortInProgress ▸ hx)
      rw [← h.cursor, ← h.lastCursor] at hc
      exact fun hb => hc.elim hb.left (Nat.not_le.mpr hb.right)
    rw [← h.cursor, ← h.activeJob]
    by_cases hl : a.exec.cursor < a.activeJob.totalSegments
    case pos =>
      have ⟨_, f, he, hc⟩ := executeStep_admits w hst hb hr hl
      cases he.symm.trans ho
      exact ⟨fun _ => hc, fun hn => absurd hl (Nat.not_lt.mpr hn)⟩
    case neg =>
      have ⟨_, hadv⟩ : ∃ r, Feed.advance _ a.heap { a.feed with lastCursor := a.exec.cursor } = _ :=
        Feed.advance_of_end (Nat.not_lt.mp hl)
      rw [executeStep_eq w hst hb, hadv] at ho
      cases ho
      have hv : a.motion.isReady.2.Rests a.motion.spin.controller := by
        rw [hr.rests.isReady]
        exact hr.rests.spin
      exact ⟨fun hc => absurd hc hl, fun _ => idle_of_rests (s := a.withFeed _) hv hr.room⟩

theorem tick_undisturbed (b : s.Boundary) (hs : s.machine.system = .executingPrint)
    (hf : s.Finishable) (hi : i.Undisturbed) :
    ∃ s', tick i s = .ok s' ∧ (Concluded s s' ∨
      (Ongoing s s' ∧
        s'.activeJob.totalSegments - s'.exec.cursor ≤
          s.activeJob.totalSegments - s.exec.cursor ∧
        (s.Admits i → s'.activeJob.totalSegments - s'.exec.cursor <
          s.activeJob.totalSegments - s.exec.cursor))) := by
  have h := arm_awaits hi hs
  have ⟨s', ht⟩ : ∃ s', tick i s = .ok s' := by
    refine b.wellFormed.tick_total fun hst hb => ?_
    rw [finishable_iff] at hf
    have hc := hf.right.right (h.abortInProgress ▸ hst.right.right.right)
    rw [← h.cursor, ← h.lastCursor] at hc
    exact hc.elim hb.left (Nat.not_le.mpr hb.right)
  have ⟨m, ⟨_, he⟩, w, _, _, o, hs'⟩ := b.wellFormed.orchestrates ht
  have hm := execute_stepped b hs hf hi he
  have ⟨moves, hmv⟩ := hm.moved
  subst hs'
  refine ⟨_, ht, ?_⟩
  obtain ⟨hi', _⟩ | ⟨hn, _, rfl⟩ | ⟨hc, n, p, rfl⟩ := o.of_stepping hm.executing
  case inl => cases hi'.symm.trans hm.running
  case inr.inl =>
    refine .inr ⟨⟨b.tick ht, hm.executing, hm.finishable hf, moves, hmv.history, hmv.remaining⟩,
      hm.rank, fun ha => ?_⟩
    have ⟨hc, hd⟩ := execute_admits b hs hf hi ha he
    change m.activeJob.totalSegments - m.exec.cursor < _
    by_cases hl : s.exec.cursor < s.activeJob.totalSegments
    case pos => rw [hm.activeJob, hc hl]; omega
    case neg =>
      have hl := Nat.not_lt.mp hl
      cases hm.moves
      case inl hh =>
        refine absurd ⟨hm.running, ?_, hd hl⟩ hn
        rwa [hm.activeJob, hh.right.left]
      case inr hh => exact absurd hh.choose_spec.choose_spec.left (Nat.not_lt.mpr hl)
  case inr.inr =>
    refine .inl ⟨?_, rfl, moves, ?_, congrArg _ hmv.history⟩
    · have hr := completed_system (s := m.tracked n) (p := p)
      exact hr.trans (if_pos hm.executing)
    · have ⟨segs, bj⟩ := w.bound (w.running hc.left)
      have he : m.remaining = [] := by
        rw [remaining, bj.acceptedSegments]
        exact List.drop_eq_nil_of_le (bj.length ▸ hc.right.left)
      rw [hmv.remaining, he]
      exact (List.append_nil _).symm

theorem Moved.concluded (h : Moved s s' moves) (hc : Concluded s' s'') : Concluded s s'' := by
  have ⟨moves', hm, hh⟩ := hc.moved
  refine ⟨hc.ready, hc.freed, moves ++ moves', ?_, ?_⟩
  · rw [List.map_append, hm, h.remaining]
  · rw [hh, h.history]
    simp

theorem remaining_length (w : s.WellFormed) (hs : s.machine.system = .executingPrint)
    (hf : s.Finishable) : s.remaining.length = s.activeJob.totalSegments - s.exec.cursor := by
  have hp : s.machine.jobPresent = true := by
    cases hf
    case inl h => exact w.present (by rw [hs]; rfl) h.left
    case inr h => exact w.running h.left
  have ⟨segs, bj⟩ := w.bound hp
  rw [remaining, List.length_drop, bj.acceptedSegments, bj.length]

end State

open State

def completes (seq : UInt32) : TickInput where
  spin := [{ callbacks := [.worldComplete seq 0] }]

end Firmware
