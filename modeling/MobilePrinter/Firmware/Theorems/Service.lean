import MobilePrinter.Firmware.Theorems.Crashes
import MobilePrinter.Firmware.Theorems.Escape
import MobilePrinter.Firmware.Theorems.Motion

namespace Firmware
namespace State

-- A motion layer that is ready, and has completed what was submitted before the tick.
def prompt (s : State) : List SpinSlice :=
  [{ callbacks := [
      .motionStatus true 0 0 s.motion.clock,
      .worldComplete s.motion.controller.lastSubmittedSeq s.motion.clock]
     now       := s.motion.clock }]

def wait (s : State) : TickInput where
  spin := s.prompt

-- The command frame of the operator carries the sequence number behind the last one.
def send (s : State) (command : UInt32) : TickInput :=
  { TickInput.issue (s.lastSeenSeq + 1) command with spin := s.prompt }

def offer (s : State) : TickInput :=
  { TickInput.submit (s.lastJobSeq + 1) maxSegments with spin := s.prompt }

-- What every tick leaves behind: the ingress region is open, and the operator actions are those of
-- the machine.
structure Settled (s : State) : Prop where
  polled  : s.firstRead = false
  derived : s.machine.operatorActions = deriveOperatorActions s.machine

-- The motion controller has moved on.
def moved (s : State) (motion : RosMotion) (idle : Bool) : State :=
  { s with motion := motion, machine := { s.machine with motionIdle := idle } }

variable {M : State → List SpinSlice → Prop} {s s' m : State} {i : TickInput} {io : FileOutcomes}
  {r : ExecutionResult} {c : UInt32}

theorem serves_prompt : RosMotion.Serves { s.motion with schedule := s.prompt } 0 where
  last     := rfl
  ready    := rfl
  capacity := rfl
  inflight := by
    simp [RosMotion.spin, prompt, RosSimMotionController.deliver, RosSimMotionController.inflight,
      RosSimMotionController.onMotionStatus, RosSimMotionController.onWorldComplete]

theorem benign_wait (hM : ∀ s, M s s.prompt) : Benign M s.wait s where
  safe    := rfl
  files   := ⟨rfl, rfl, rfl⟩
  command := nofun
  motion  := hM s

theorem benign_send (hM : ∀ s, M s s.prompt) (hc : c ≤ 7) : Benign M (s.send c) s where
  safe           := rfl
  files          := ⟨rfl, rfl, rfl⟩
  command _ h    := by cases h; exact hc
  motion         := hM s

theorem benign_offer (hM : ∀ s, M s s.prompt) : Benign M s.offer s where
  safe    := rfl
  files   := ⟨rfl, rfl, rfl⟩
  command := nofun
  motion  := hM s

theorem execute_resting (hs : (evaluateSafety i.safety).status = .safe)
    (hp : (s.pollCommand i.io i.command).pollJobIngress i.job = m)
    (hx : m.machine.system ≠ .executingPrint) :
    ∃ motion idle, s.execute i = .ok (.blocked, m.moved motion idle) := by
  simp only [execute, arm, prepare, hp]
  rw [activateJobExecution_of_not_armable fun a => hx a.executing]
  have hb : { m with motion := { m.motion with schedule := i.spin } }.machine.system ≠
    .executingPrint := hx
  rw [checkSafety_of_not_fault (by simp [hs]), armExecution_of_not_runnable fun a => hb a.executing]
  rw [executeStep, if_neg fun h => hb h.right.left]
  exact ⟨_, _, rfl⟩

theorem tick_resting (w : s.WellFormed) (hs : (evaluateSafety i.safety).status = .safe)
    (hp : (s.pollCommand i.io i.command).pollJobIngress i.job = m)
    (hx : m.machine.system ≠ .executingPrint) :
    ∃ motion idle m' pending, tick i s = .ok (m'.sampleMotionIdle.ended pending) ∧
      Orchestrated (m.moved motion idle) i.io m' := by
  have ⟨s', ht⟩ : ∃ s', tick i s = .ok s' := by
    refine w.tick_total fun h => absurd h.right.left ?_
    have hm : m.machine.system = (s.pollCommand i.io i.command).machine.system :=
      hp ▸ pollJobIngress_system
    rwa [arm_system (by simp [hs]), ← hm]
  have ⟨_, ⟨_, he⟩, _, m', pending, o, hs'⟩ := w.orchestrates ht
  have ⟨motion, idle, he'⟩ := execute_resting hs hp hx
  cases he'.symm.trans he
  exact ⟨motion, idle, m', pending, hs' ▸ ht, o⟩

theorem pollJobIngress_none : s.pollJobIngress none = { s with firstRead := false } := by
  simp only [pollJobIngress]
  split
  case isTrue    => rfl
  case isFalse h =>
    rw [Bool.not_eq_true] at h
    rw [← h]

theorem send_newer (hl : 1 ≤ s.framesLeft) : s.lastSeenSeq < s.lastSeenSeq + 1 := by
  simp only [framesLeft, UInt32.size] at hl
  rw [UInt32.lt_iff_toNat_lt, UInt32.toNat_add]
  have := s.lastSeenSeq.toNat_lt
  simp
  omega

theorem pollCommand_send (hl : 1 ≤ s.framesLeft) :
    s.pollCommand io (s.send c).command =
      (s.see (s.lastSeenSeq + 1)).handleCommand io { seq := s.lastSeenSeq + 1, command := c } := by
  have hn := UInt32.not_le.mpr (send_newer hl)
  simp [pollCommand, send, TickInput.issue, CommandIpc.validate, commandIpcAbiVersion, hn]

theorem see_next_framesLeft (hl : 1 ≤ s.framesLeft) :
    (s.see (s.lastSeenSeq + 1)).framesLeft + 1 = s.framesLeft := by
  have hn := send_newer hl
  simp only [framesLeft, UInt32.size, see] at hl ⊢
  rw [UInt32.lt_iff_toNat_lt] at hn
  rw [UInt32.toNat_add] at hn ⊢
  simp at hn ⊢
  omega

theorem tick_settled (w : s.WellFormed) (ht : tick i s = .ok s') : s'.Settled := by
  have ⟨_, ⟨_, he⟩, _, _, _, o, hs⟩ := w.orchestrates ht
  subst hs
  exact ⟨o.channels.firstRead.trans (execute_firstRead he), rfl⟩

theorem tick_wait (b : s.Boundary) (hs : s.machine.system = .ready) :
    ∃ s', tick s.wait s = .ok s' ∧ s'.machine.system = .ready ∧
      s'.machine.jobPresent = s.machine.jobPresent ∧ s'.exec.cursor = s.exec.cursor ∧
      s'.framesLeft = s.framesLeft := by
  have hx : { s with firstRead := false }.machine.system ≠ .executingPrint := by simp [hs]
  have ⟨_, _, _, _, ht, o⟩ :=
    tick_resting (i := s.wait) b.wellFormed rfl (pollJobIngress_none (s := s)) hx
  obtain ⟨_, rfl⟩ := o.of_ready hs (b.wellFormed.ready hs).left
  exact ⟨_, ht, hs, rfl, rfl, rfl⟩

theorem tick_send (w : s.WellFormed) (hp : s.pollCommand {} (s.send c).command = m)
    (hx : m.machine.system ≠ .executingPrint) :
    ∃ motion idle m' pending, tick (s.send c) s = .ok (m'.sampleMotionIdle.ended pending) ∧
      Orchestrated ({ m with firstRead := false }.moved motion idle) {} m' := by
  have hj : (s.pollCommand {} (s.send c).command).pollJobIngress none =
    { m with firstRead := false } := by rw [hp, pollJobIngress_none]
  exact tick_resting (i := s.send c) w rfl hj hx

theorem pollCommand_clear (hl : 1 ≤ s.framesLeft) (t : s.Settled)
    (hs : s.machine.system = .ready ∨ s.machine.system = .fault ∨ s.machine.system = .recovering) :
    s.pollCommand io (s.send 6).command =
      ((s.see (s.lastSeenSeq + 1)).acceptClearJob io).note
        (s.lastSeenSeq + 1) .clearJob .accepted := by
  have hd (q : UInt32) (cmd : CommandIpc) (hc : CommandType.ofRaw cmd.command = .clearJob) :
      (s.see q).dispatchCommand io cmd = (.accepted, (s.see q).acceptClearJob io) := by
    obtain hs | hs | hs := hs <;>
      simp [dispatchCommand, see, requestClearJob, commandAllowedInState, deriveOperatorActions,
        t.derived, hs, hc]
  rw [pollCommand_send hl, handleCommand_eq, hd _ _ rfl]
  rfl

theorem tick_clear (b : s.Boundary) (t : s.Settled) (hl : 1 ≤ s.framesLeft)
    (hs : s.machine.system = .ready ∨ s.machine.system = .fault ∨ s.machine.system = .recovering) :
    ∃ s', tick (s.send 6) s = .ok s' ∧ s'.machine.system = .ready ∧
      s'.machine.jobPresent = false ∧ s'.exec.cursor = s.exec.cursor ∧
      s'.framesLeft + 1 = s.framesLeft := by
  have ⟨_, _, _, _, ht, o⟩ := tick_send b.wellFormed (pollCommand_clear hl t hs) nofun
  obtain ⟨_, rfl⟩ := o.of_ready rfl rfl
  exact ⟨_, ht, rfl, rfl, rfl, see_next_framesLeft hl⟩

theorem pollCommand_pause (hl : 1 ≤ s.framesLeft) (hs : s.machine.system = .executingPrint) :
    s.pollCommand io (s.send 2).command =
      (s.see (s.lastSeenSeq + 1)).acceptPause.note (s.lastSeenSeq + 1) .pause .accepted := by
  have hd (q : UInt32) (cmd : CommandIpc) (hc : CommandType.ofRaw cmd.command = .pause) :
      (s.see q).dispatchCommand io cmd = (.accepted, (s.see q).acceptPause) := by
    simp [dispatchCommand, see, requestPause, canPause, commandAllowedInState, hs, hc]
  rw [pollCommand_send hl, handleCommand_eq, hd _ _ rfl]
  rfl

theorem tick_pause (b : s.Boundary) (hl : 1 ≤ s.framesLeft)
    (hs : s.machine.system = .executingPrint) (hp : s.pauseSnapshot ≠ none) :
    ∃ s', tick (s.send 2) s = .ok s' ∧ s'.machine.system = .paused ∧
      (∀ n, s.ResumesWithin n → s'.ResumesWithin n) ∧ s'.framesLeft + 1 = s.framesLeft := by
  have ⟨_, _, _, _, ht, o⟩ := tick_send b.wellFormed (pollCommand_pause hl hs) nofun
  have ⟨_, a, hc⟩ := o.of_suspending rfl
  cases a
  case captured h => exact absurd h hp
  case kept =>
    obtain rfl | rfl := hc
    · exact ⟨_, ht, rfl, fun _ h => h, see_next_framesLeft hl⟩
    · exact ⟨_, ht, rfl, fun _ h => h, see_next_framesLeft hl⟩

theorem pollCommand_resume (b : s.Boundary) (t : s.Settled) (hl : 1 ≤ s.framesLeft)
    (hs : s.machine.system = .paused) (hc : s.machine.resumeConsumed = false) :
    s.pollCommand io (s.send 3).command =
      (s.see (s.lastSeenSeq + 1)).acceptResume.note (s.lastSeenSeq + 1) .resume .accepted := by
  have hd (q : UInt32) (cmd : CommandIpc) (hr : CommandType.ofRaw cmd.command = .resume) :
      (s.see q).dispatchCommand io cmd = (.accepted, (s.see q).acceptResume) := by
    simp [dispatchCommand, see, requestResume, canResume, commandAllowedInState,
      deriveOperatorActions, t.derived, b.available hs, b.released hs, b.wellFormed.jobId, hs, hc,
      hr]
  rw [pollCommand_send hl, handleCommand_eq, hd _ _ rfl]
  rfl

theorem tick_resume (b : s.Boundary) (t : s.Settled) (hl : 1 ≤ s.framesLeft)
    (hs : s.machine.system = .paused) (hc : s.machine.resumeConsumed = false) :
    ∃ s', tick (s.send 3) s = .ok s' ∧ s'.framesLeft + 1 = s.framesLeft ∧
      match s.snapshotFile with
      | none      => s'.machine.system = .fault ∧ s'.exec.cursor = s.exec.cursor
      | some snap => s'.machine.system = .executingPrint ∧
        (s.Feedable snap.cursor → s'.Feedable s'.exec.cursor) := by
  have ⟨_, _, _, _, ht, o⟩ := tick_send b.wellFormed (pollCommand_resume b t hl hs hc) nofun
  obtain ⟨h, rfl⟩ | ⟨_, h, rfl⟩ := o.of_resuming rfl (b.released hs).left
  · have hf : s.snapshotFile = none := h
    exact ⟨_, ht, see_next_framesLeft hl, by rw [hf]; exact ⟨rfl, rfl⟩⟩
  · have hf : s.snapshotFile = some _ := h
    exact ⟨_, ht, see_next_framesLeft hl, by rw [hf]; exact ⟨rfl, fun h => h⟩⟩

theorem pollCommand_start (io : FileOutcomes) (t : s.Settled) (hl : 1 ≤ s.framesLeft)
    (hs : s.machine.system = .ready) (hj : s.machine.jobPresent = true)
    (hc : s.exec.cursor < s.activeJob.totalSegments) (w : s.WellFormed) :
    s.pollCommand io (s.send 1).command =
      (s.see (s.lastSeenSeq + 1)).acceptStart.note (s.lastSeenSeq + 1) .start .accepted := by
  have ho : s.machine.operatorRecoveryRequired = false := by
    by_contra h
    have := w.recovery (by simpa using h)
    simp [hs] at this
  have hd (q : UInt32) (cmd : CommandIpc) (hr : CommandType.ofRaw cmd.command = .start) :
      (s.see q).dispatchCommand io cmd = (.accepted, (s.see q).acceptStart) := by
    simp [dispatchCommand, see, requestStartJob, canStartJob, commandAllowedInState,
      deriveOperatorActions, t.derived, w.jobState, Nat.not_le.mpr hc, ho, hj, hs, hr]
  rw [pollCommand_send hl, handleCommand_eq, hd _ _ rfl]
  rfl

theorem restartable (hM : ∀ s, M s s.prompt) (b : s.Boundary) (t : s.Settled)
    (hs : s.machine.system = .ready) (hj : s.machine.jobPresent = false)
    (hc : s.exec.cursor < maxSegments) (hl : 1 ≤ s.framesLeft) : s.Restartable M := by
  let blob : List UInt8 := List.replicate (maxSegments * segmentSize) 0
  have hb : blob.length = maxSegments * segmentSize := List.length_replicate
  have a : s.Submittable blob := {
    polled   := t.polled
    allowed  := by simp [t.derived, deriveOperatorActions, hs]
    ready    := hs
    vacant   := b.wellFormed.stored.trans hj
    size     := hb ▸ by decide
    nonempty := hb ▸ by decide }
  have hi : s.offer.job = some (.ofBlob (s.lastJobSeq + 1) blob a.size) := by
    have hs : maxSegments * segmentSize ≤ jobMaxSize := by decide
    simp only [offer, TickInput.submit, dif_pos hs, blob]
  have hp : s.pollJobIngress s.offer.job = s.acceptJob blob (s.lastJobSeq + 1) := by
    rw [hi, pollJobIngress_ofBlob a (by simp)]
  have hx : (s.acceptJob blob (s.lastJobSeq + 1)).machine.system ≠ .executingPrint := by
    simp [acceptJob, record, hs]
  obtain ⟨_, _, _, _, ht, o⟩ := tick_resting (i := s.offer) b.wellFormed rfl hp hx
  obtain ⟨_, rfl⟩ := o.of_ready hs (b.wellFormed.ready hs).left
  have w := b.wellFormed.tick ht
  have hst := pollCommand_start {} (tick_settled b.wellFormed ht) hl hs rfl ?_ w
  · refine ⟨hs, s.offer, _, _, benign_offer hM, ⟨rfl, a.vacant, hp ▸ rfl⟩, ht,
      benign_send hM (c := 1) (by decide), hs, ?_⟩
    exact congrArg (·.machine.system) hst
  · have hn : segmentCount blob = maxSegments := by simp only [segmentCount, hb]; decide
    exact Nat.lt_of_lt_of_eq hc hn.symm

-- What the orchestrator is handed while a job executes.
structure Served (s m : State) : Prop where
  executing   : m.machine.system = .executingPrint
  running     : m.exec.phase = .running
  drained     : m.machine.motionIdle = true
  activeJob   : m.activeJob = s.activeJob
  lastSeenSeq : m.lastSeenSeq = s.lastSeenSeq
  moves       :
    (m.exec.cursor = s.exec.cursor + 1 ∧ m.exec.abortInProgress = false ∧
      m.lastCursor = s.exec.cursor) ∨
    (s.activeJob.totalSegments ≤ s.exec.cursor ∧ m.exec.cursor = s.exec.cursor)

-- What a tick without inputs has made of an execution before it is stepped.
structure Waited (s a : State) : Prop where
  executing       : a.machine.system = .executingPrint
  cursor          : a.exec.cursor = s.exec.cursor
  abortInProgress : a.exec.abortInProgress = s.exec.abortInProgress
  lastCursor      : a.lastCursor = s.lastCursor
  activeJob       : a.activeJob = s.activeJob
  lastSeenSeq     : a.lastSeenSeq = s.lastSeenSeq
  serves          : a.motion.Serves 0

theorem arm_waited (hs : s.machine.system = .executingPrint) : Waited s (s.arm s.wait) := by
  have hp : (s.pollCommand s.wait.io s.wait.command).pollJobIngress s.wait.job =
    { s with firstRead := false } := pollJobIngress_none
  have h : Waited s (s.prepare s.wait) := by
    simp only [prepare, hp]
    by_cases a : { s with firstRead := false }.Armable
    case pos =>
      rw [activateJobExecution_of_armable a]
      exact ⟨hs, rfl, rfl, rfl, rfl, rfl, serves_prompt⟩
    case neg =>
      rw [activateJobExecution_of_not_armable a]
      exact ⟨hs, rfl, rfl, rfl, rfl, rfl, serves_prompt⟩
  rw [arm, checkSafety_of_not_fault (show SafetyStatus.safe ≠ .fault by decide)]
  by_cases a : (s.prepare s.wait).Runnable
  case pos =>
    rw [armExecution_of_runnable a]
    exact { h with }
  case neg =>
    rw [armExecution_of_not_runnable a]
    exact h

theorem poll_motionIdle (h : s.motion.Serves k) (hk : k < RosSimMotionController.streamWindow) :
    s.pollMotion.sampleMotionIdle.machine.motionIdle = true :=
  congrArg Prod.fst (h.poll.isReady hk)

theorem executeStep_eq (w : s.WellFormed) (hs : s.Steps safety) (hb : ¬s.Behind) :
    s.executeStep safety =
      (Feed.advance s.activeJob s.heap { s.feed with lastCursor := s.exec.cursor }).map
        fun r => (r.1, s.withFeed r.2) := by
  have hr : s.feed.Runs :=
    ⟨w.owned.mpr hs.right.right.left, hs.right.right.right, hs.right.right.left⟩
  rw [executeStep, if_pos hs, executionStep_eq_advance hr hb]
  rfl

theorem executeStep_feeds (w : s.WellFormed) (hs : s.Steps safety) (hb : ¬s.Behind)
    (h : s.motion.Serves 0) (hl : s.exec.cursor < s.activeJob.totalSegments) :
    ∃ r f, s.executeStep safety = .ok (r, s.withFeed f) ∧
      f.ctx = { s.exec with cursor := s.exec.cursor + 1 } ∧ f.lastCursor = s.exec.cursor ∧
      f.motion.Serves 1 := by
  have hw : (0 : UInt32) < RosSimMotionController.streamWindow := by decide
  have ⟨_, bj⟩ := w.bound (w.running hs.right.right.left)
  have ⟨seg, hg⟩ : ∃ seg, s.activeJob.segment? s.heap s.exec.cursor = some seg :=
    ⟨_, (bj.segment? _).trans (List.getElem?_eq_getElem (bj.length ▸ hl))⟩
  have ⟨ha, hv⟩ : (s.motion.spin.spin.submit seg.command).1 = .accepted ∧ _ :=
    h.spin.spin.submit hw
  have ⟨f, he, hc, hn, hm⟩ :=
    Feed.advance_of_ready (f := { s.feed with lastCursor := s.exec.cursor }) hl hg
      (h.isReady hw) (h.spin.isReady hw) ha
  refine ⟨.progressed, f, ?_, hc, hn, hm ▸ hv⟩
  rw [executeStep_eq w hs hb, he]
  rfl

theorem executeStep_spent (w : s.WellFormed) (hs : s.Steps safety) (hb : ¬s.Behind)
    (h : s.motion.Serves 0) (hl : s.activeJob.totalSegments ≤ s.exec.cursor) :
    ∃ r f, s.executeStep safety = .ok (r, s.withFeed f) ∧ f.ctx = s.exec ∧ f.motion.Serves 0 := by
  have ⟨r, he⟩ : ∃ r, Feed.advance _ s.heap { s.feed with lastCursor := s.exec.cursor } = _ :=
    Feed.advance_of_end hl
  have hm : s.motion.isReady = (true, s.motion.spin) := h.isReady (by decide)
  refine ⟨r, { s.feed with lastCursor := s.exec.cursor, motion := s.motion.isReady.2 }, ?_, rfl, ?_⟩
  · rw [executeStep_eq w hs hb, he]
    rfl
  · rw [hm]
    exact h.spin

-- The executor feeds the next segment, or finds all of them fed, and the motion layer is drained.
theorem execute_served (b : s.Boundary) (hs : s.machine.system = .executingPrint)
    (hf : s.Finishable) : ∃ r m, s.execute s.wait = .ok (r, m) ∧ Served s m := by
  have h := arm_waited hs
  have w := b.wellFormed.arm (i := s.wait)
  have hp : (s.arm s.wait).exec.phase = .running := by
    refine arm_running b.wellFormed (fun _ => ?_) h.executing
    exact hf.symm.imp (·.left) (·.left)
  have he : s.execute s.wait = ((s.arm s.wait).executeStep (evaluateSafety s.wait.safety)).map
      fun r => (r.1, r.2.pollMotion.sampleMotionIdle) := rfl
  rw [he]
  generalize s.arm s.wait = a at h w hp
  cases ha : s.exec.abortInProgress
  case true =>
    have hn : ¬a.Steps (evaluateSafety s.wait.safety) := fun hc => by
      cases (h.abortInProgress.trans ha).symm.trans hc.right.right.right
    have he : a.executeStep (evaluateSafety s.wait.safety) = .ok (.blocked, a) := if_neg hn
    rw [he]
    refine ⟨_, _, rfl, h.executing, hp, poll_motionIdle h.serves (by decide), h.activeJob,
      h.lastSeenSeq, ?_⟩
    cases hf
    case inl hf => cases ha.symm.trans hf.right.left
    case inr hf => exact .inr ⟨hf.right.left, h.cursor⟩
  case false =>
    have hx : a.Steps (evaluateSafety s.wait.safety) :=
      ⟨rfl, h.executing, hp, h.abortInProgress.trans ha⟩
    have hb : ¬a.Behind := by
      have hc : s.exec.cursor = 0 ∨ s.lastCursor ≤ s.exec.cursor :=
        hf.elim (·.right.right) (·.right.right ha)
      rw [← h.cursor, ← h.lastCursor] at hc
      exact fun hb => hc.elim hb.left (Nat.not_le.mpr hb.right)
    by_cases hl : a.exec.cursor < a.activeJob.totalSegments
    case pos =>
      have ⟨_, f, he, hc, hn, hm⟩ := executeStep_feeds w hx hb h.serves hl
      rw [he]
      refine ⟨_, _, rfl, h.executing, (congrArg (·.phase) hc).trans hp,
        poll_motionIdle (s := a.withFeed f) hm (by decide), h.activeJob, h.lastSeenSeq,
        .inl ⟨?_, ?_, hn.trans h.cursor⟩⟩
      · exact (congrArg (·.cursor) hc).trans (congrArg (· + 1) h.cursor)
      · exact (congrArg (·.abortInProgress) hc).trans hx.right.right.right
    case neg =>
      have hl := Nat.not_lt.mp hl
      have ⟨_, f, he, hc, hm⟩ := executeStep_spent w hx hb h.serves hl
      rw [he]
      refine ⟨_, _, rfl, h.executing, (congrArg (·.phase) hc).trans hp,
        poll_motionIdle (s := a.withFeed f) hm (by decide), h.activeJob, h.lastSeenSeq,
        .inr ⟨?_, (congrArg (·.cursor) hc).trans h.cursor⟩⟩
      rwa [h.activeJob, h.cursor] at hl

theorem tick_served (b : s.Boundary) (hs : s.machine.system = .executingPrint)
    (hf : s.Finishable) :
    ∃ s', tick s.wait s = .ok s' ∧ s'.framesLeft = s.framesLeft ∧
      ((s'.machine.system = .ready ∧ s'.machine.jobPresent = false ∧ s'.exec.cursor = 0) ∨
        (s'.machine.system = .executingPrint ∧ s'.Finishable ∧
          s'.activeJob.totalSegments - s'.exec.cursor <
            s.activeJob.totalSegments - s.exec.cursor)) := by
  have ⟨_, m, he, h⟩ := execute_served b hs hf
  have ⟨_, ht⟩ := b.wellFormed.tick_of_execute he
  have ⟨_, ⟨_, he'⟩, _, _, _, o, hs'⟩ := b.wellFormed.orchestrates ht
  cases he'.symm.trans he
  subst hs'
  refine ⟨_, ht, o.framesLeft.trans (framesLeft_congr h.lastSeenSeq), ?_⟩
  obtain ⟨hi, _⟩ | ⟨hn, _, rfl⟩ | ⟨_, n, p, rfl⟩ := o.of_stepping h.executing
  case inl     => cases hi.symm.trans h.running
  case inr.inr =>
    have hr : ((m.tracked n).completed p).machine.system = .ready := by
      rw [completed_system]
      exact if_pos h.executing
    exact .inl ⟨hr, rfl, rfl⟩
  case inr.inl =>
    have hc : m.exec.cursor < m.activeJob.totalSegments := by
      by_contra hc
      exact hn ⟨h.running, Nat.not_lt.mp hc, h.drained⟩
    cases h.moves
    case inl hm =>
      refine .inr ⟨h.executing, .inl ⟨hc, hm.right.left, .inr ?_⟩, ?_⟩
      · exact (hm.right.right.trans_le (Nat.le_succ _)).trans_eq hm.left.symm
      · have hc' := hc
        rw [h.activeJob, hm.left] at hc'
        change m.activeJob.totalSegments - m.exec.cursor < _
        rw [h.activeJob, hm.left]
        omega
    case inr hm =>
      rw [h.activeJob, hm.right] at hc
      exact absurd hc (Nat.not_lt.mpr hm.left)

theorem tick_wait_paused (b : s.Boundary) (hs : s.machine.system = .paused) :
    ∃ s', tick s.wait s = .ok s' ∧ s'.machine.system = .paused ∧
      (∀ n, s.ResumesWithin n → s'.ResumesWithin n) ∧ s'.framesLeft = s.framesLeft := by
  have hx : { s with firstRead := false }.machine.system ≠ .executingPrint := by simp [hs]
  have ⟨_, _, _, _, ht, o⟩ :=
    tick_resting (i := s.wait) b.wellFormed rfl (pollJobIngress_none (s := s)) hx
  have ⟨_, a, hc⟩ := o.of_suspending hs
  cases a
  case captured h => exact absurd h (b.captured hs)
  case kept =>
    obtain rfl | rfl := hc
    · exact ⟨_, ht, hs, fun _ h => h, framesLeft_congr rfl⟩
    · exact ⟨_, ht, hs, fun _ h => h, framesLeft_congr rfl⟩

end State
end Firmware
