import MobilePrinter.Firmware.Theorems.Stages

namespace Firmware.State

def abortBegun (s : State) (io : FileOutcomes) : State :=
  { s with
    exec             := { s.exec with
      abortInProgress := true, phase := .idle, ownedByExecutor := false }
    pauseSnapshot    := none
    snapshotFile     := clearExecutionSnapshot io.clear s.snapshotFile
    motion           := MotionController.setAbortActive true (MotionController.abort s.motion)
    abortStartedOnce := true }.record .abortStarted

def aborted (s : State) : State :=
  { s with
    exec             := { s.exec with abortInProgress := false }
    motion           := MotionController.setAbortActive false s.motion
    machine          := { s.machine with
      lastCompletionReason := .aborted
      resumeAvailable      := false
      resumeConsumed       := false
      system               := .idle
      job                  := { s.machine.job with state := .none } }
    abortStartedOnce := false }.record (.finalized .aborted)

def snapshot (s : State) : PersistentExecutionSnapshot where
  magic            := snapshotMagic
  bootId           := s.machine.bootId.toUInt64
  jobId            := s.machine.job.jobId.toUInt64
  cursor           := s.exec.cursor
  unitProgress     := s.exec.unitProgress
  systemAtSnapshot := .paused

def captured (s : State) (io : FileOutcomes) : State :=
  { s with
    pauseSnapshot := some {
      jobId         := s.machine.job.jobId
      segment       := s.exec.cursor
      intraProgress := s.exec.unitProgress }
    snapshotFile  := persistExecutionSnapshot io.persist s.snapshot s.snapshotFile
  }.record (.snapshotPersisted io.persist s.snapshot)

def released (s : State) : State :=
  { s with exec := { s.exec with phase := .idle, ownedByExecutor := false, armed := false } }

def tracked (s : State) (blockedTicks : UInt32) : State :=
  { s with exec := { s.exec with blockedTicks := blockedTicks } }

-- The start of an abort is skipped if an earlier abort has not been finalized.
inductive Aborting (s : State) (io : FileOutcomes) : State → Prop
  | begun (fresh : s.abortStartedOnce = false) : Aborting s io (s.abortBegun io)
  | stale (latched : s.abortStartedOnce = true) : Aborting s io s

-- The capture of a pause is skipped if there is a snapshot in memory.
inductive Pausing (s : State) (io : FileOutcomes) : State → Prop
  | captured (fresh : s.pauseSnapshot = none) : Pausing s io (s.captured io)
  | kept (stale : s.pauseSnapshot ≠ none) : Pausing s io s

inductive Orchestrated (s : State) (io : FileOutcomes) : State → Prop
  | stopped (h : s.machine.system = .fault ∨ s.machine.system = .recovering) : Orchestrated s io s
  | draining
    (h        : s.machine.system = .aborting)
    (moving   : s.machine.motionIdle = false)
    (aborting : Aborting s io b)
    (busy     : b.exec.abortInProgress = true) : Orchestrated s io b
  | aborted
    (h        : s.machine.system = .aborting)
    (aborting : Aborting s io b)
    (drained  : b.exec.abortInProgress = true → s.machine.motionIdle = true) :
    Orchestrated s io b.aborted
  | paused
    (h       : s.machine.system = .paused)
    (pausing : Pausing s io b)
    (owned   : b.exec.ownedByExecutor = false)
    (armed   : b.exec.armed = false) : Orchestrated s io b
  | released (h : s.machine.system = .paused) (pausing : Pausing s io b) :
    Orchestrated s io b.released
  | lost
    (h       : s.machine.system = .resuming)
    (owned   : s.exec.ownedByExecutor = false)
    (missing : loadExecutionSnapshot io.load s.snapshotFile = none) :
    Orchestrated s io (s.requestFault 0xE060)
  | restored
    (h      : s.machine.system = .resuming)
    (owned  : s.exec.ownedByExecutor = false)
    (loaded : loadExecutionSnapshot io.load s.snapshotFile = some snap) :
    Orchestrated s io (s.restoreSnapshot io snap)
  | held
    (h     : s.machine.system = .resuming)
    (owned : s.exec.ownedByExecutor = true) : Orchestrated s io s
  | started
    (h      : s.machine.system = .executingPrint)
    (idle   : s.exec.phase = .idle)
    (cursor : s.exec.cursor < s.activeJob.totalSegments)
    (armed  : s.exec.armed = true ∨ s.exec.cursor = 0) : Orchestrated s io (s.run.tracked n)
  | continued
    (h          : s.machine.system.finishing = true)
    (incomplete : ¬s.Completes) : Orchestrated s io (s.tracked n)
  | completed
    (h        : s.machine.system.finishing = true)
    (complete : s.Completes)
    (pointer  : s.activeJob.segments = some p) : Orchestrated s io ((s.tracked n).completed p)

variable {s s' m m' : State} {i : TickInput} {io : FileOutcomes} {r : ExecutionResult}

theorem trackProgress_tracked : ∃ n, s.trackProgress r = s.tracked n := by
  simp only [trackProgress]
  split
  case isFalse => exact ⟨_, rfl⟩
  case isTrue  => split <;> exact ⟨_, rfl⟩

theorem beginAbort_aborting : Aborting s io (s.beginAbort io) := by
  simp only [beginAbort]
  split
  case isTrue h  => exact .stale h
  case isFalse h => exact .begun (by simpa using h)

theorem Aborting.latched (a : Aborting s io b) : b.abortStartedOnce = true := by
  cases a
  case begun   => rfl
  case stale h => exact h

theorem Aborting.motionIdle (a : Aborting s io b) :
    b.machine.motionIdle = s.machine.motionIdle := by
  cases a <;> rfl

theorem abortStep_orchestrated (h : s.machine.system = .aborting) :
    Orchestrated s io (s.abortStep io) := by
  have a : Aborting s io (s.beginAbort io) := beginAbort_aborting
  simp only [abortStep]
  generalize s.beginAbort io = b at a
  simp only [detectAbortDrain, a.motionIdle]
  split
  case isTrue hd =>
    simp only [Bool.and_eq_true] at hd
    have hf :
        { b with exec := { b.exec with abortInProgress := false } }.finishAbort = b.aborted := by
      simp [finishAbort, a.latched, finalizeAbort, State.aborted, record]
    exact hf ▸ .aborted h a (fun _ => hd.right)
  case isFalse hd =>
    simp only [Bool.and_eq_true, not_and, Bool.not_eq_true] at hd
    cases hb : b.exec.abortInProgress
    case true =>
      have hf : b.finishAbort = b := by simp [finishAbort, hb]
      exact hf.symm ▸ .draining h (hd hb) a hb
    case false =>
      have he : { b.exec with abortInProgress := false } = b.exec := by rw [← hb]
      have hf : b.finishAbort = b.aborted := by
        simp [finishAbort, a.latched, finalizeAbort, State.aborted, record, he, hb]
      exact hf ▸ .aborted h a (fun hc => by simp [hb] at hc)

theorem capturePause_pausing : Pausing s io (s.capturePause io) := by
  simp only [capturePause]
  split
  case isTrue h  => exact .kept (Option.isSome_iff_ne_none.mp h)
  case isFalse h => exact .captured (by simpa using h)

theorem pausedStep_orchestrated (h : s.machine.system = .paused) :
    Orchestrated s io (s.pausedStep io) := by
  have a : Pausing s io (s.capturePause io) := capturePause_pausing
  simp only [pausedStep, releaseOwnership]
  split
  case isTrue    => exact .released h a
  case isFalse hc =>
    simp only [Bool.or_eq_true, not_or, Bool.not_eq_true] at hc
    exact .paused h a hc.left hc.right

theorem resumingStep_orchestrated (h : s.machine.system = .resuming) :
    Orchestrated s io (s.resumingStep io) := by
  simp only [resumingStep]
  split
  case isTrue ho => exact .held h ho
  case isFalse ho =>
    simp only [Bool.not_eq_true] at ho
    split
    case h_1 hl => exact .lost h ho hl
    case h_2 hl => exact .restored h ho hl

theorem startExecution_cases :
    s.startExecution = s ∨ (s.exec.phase = .idle ∧ s.exec.cursor < s.activeJob.totalSegments ∧
      (s.exec.armed = true ∨ s.exec.cursor = 0) ∧ s.startExecution = s.run) := by
  simp only [startExecution]
  split
  case isFalse => exact .inl rfl
  case isTrue h =>
    simp only [Bool.and_eq_true, beq_iff_eq, decide_eq_true_eq, Bool.or_eq_true] at h
    exact .inr ⟨h.left.left.right, h.left.right, h.right, rfl⟩

theorem completionStep_orchestrated (w : s.WellFormed) (hr : r ≠ .starved)
    (hs : s.machine.system.finishing = true)
    (h : (s.trackProgress r).completionStep r = .ok s') : Orchestrated s io s' := by
  have ⟨n, hn⟩ := trackProgress_tracked (s := s) (r := r)
  have w' := w.trackProgress (r := r)
  rw [hn] at h w'
  by_cases hc : s.Completes
  case pos =>
    have hc' : (s.tracked n).Completes := hc
    have ⟨_, hp, he⟩ := w'.completeJob hc'.left
    rw [completionStep_of_completes hc', he] at h
    cases h
    exact .completed hs hc hp
  case neg =>
    have hc' : ¬(s.tracked n).Completes := hc
    rw [completionStep_of_not_completes hr hc'] at h
    cases h
    exact .continued hs hc

theorem orchestratorStep_orchestrated (w : s.WellFormed) (hr : r ≠ .starved)
    (h : s.orchestratorStep io r = .ok s') : Orchestrated s io s' := by
  simp only [orchestratorStep] at h
  split at h
  case isTrue => cases h
  case isFalse =>
    split at h
    case h_1 hs => cases h; exact .stopped (.inl hs)
    case h_2 hs => cases h; exact .stopped (.inr hs)
    case h_3 hs => cases h; exact abortStep_orchestrated hs
    case h_4 hs => cases h; exact pausedStep_orchestrated hs
    case h_5 hs => cases h; exact resumingStep_orchestrated hs
    case h_6 hs =>
      split at h
      case isTrue hj => exact absurd (by simpa using hj) w.jobState
      case isFalse =>
        cases startExecution_cases (s := s)
        case inl he =>
          exact completionStep_orchestrated w hr (by rw [hs]; rfl) (he ▸ h)
        case inr he =>
          obtain ⟨hi, hl, ha, he⟩ := he
          obtain ⟨n, hn⟩ := trackProgress_tracked (s := s.run) (r := r)
          have hc : ¬(s.run.tracked n).Completes := fun hc => Nat.not_le.mpr hl hc.right.left
          rw [he, hn, completionStep_of_not_completes hr hc] at h
          cases h
          exact .started hs hi hl ha
    case h_7 =>
      refine completionStep_orchestrated w hr ?_ h
      cases hs : s.machine.system <;> first | rfl | contradiction

@[simp]
theorem tracked_system {n : UInt32} : (s.tracked n).machine.system = s.machine.system :=
  rfl

theorem Aborting.system (a : Aborting s io b) : b.machine.system = s.machine.system := by
  cases a <;> rfl

theorem Pausing.system (a : Pausing s io b) : b.machine.system = s.machine.system := by
  cases a <;> rfl

theorem Pausing.pauseSnapshot (a : Pausing s io b) : b.pauseSnapshot ≠ none := by
  cases a
  case captured => nofun
  case kept h   => exact h

theorem completed_system {p : Heap.Ptr} :
    (s.completed p).machine.system =
      if s.machine.system = .executingPrint then .ready else s.machine.system := by
  simp [completed, completedMachine, record]

-- `s'` has read the channels as far as `s`, and has handled the same commands and jobs.
structure SameChannels (s s' : State) : Prop where
  lastSeenSeq : s'.lastSeenSeq = s.lastSeenSeq
  firstRead   : s'.firstRead = s.firstRead
  lastJobSeq  : s'.lastJobSeq = s.lastJobSeq
  handled     : s'.history.handled = s.history.handled
  jobs        : s'.history.jobs = s.history.jobs

theorem Orchestrated.channels (o : Orchestrated s io s') : SameChannels s s' := by
  cases o
  case draining a _ => cases a <;> exact ⟨rfl, rfl, rfl, rfl, rfl⟩
  case aborted a _  => cases a <;> exact ⟨rfl, rfl, rfl, rfl, rfl⟩
  case paused a _ _ => cases a <;> exact ⟨rfl, rfl, rfl, rfl, rfl⟩
  case released a   => cases a <;> exact ⟨rfl, rfl, rfl, rfl, rfl⟩
  all_goals exact ⟨rfl, rfl, rfl, rfl, rfl⟩

theorem Orchestrated.not_resuming (o : Orchestrated s io s')
    (h : s.machine.system = .resuming → s.exec.ownedByExecutor = false) :
    s'.machine.system ≠ .resuming := by
  intro hc
  cases o
  case stopped hs         => simp [hc] at hs
  case draining hs _ a _  => simp [a.system.symm.trans hc] at hs
  case aborted            => cases hc
  case paused hs a _ _    => simp [a.system.symm.trans hc] at hs
  case released hs a      => simp [a.system.symm.trans hc] at hs
  case lost               => cases hc
  case restored           => cases hc
  case held ho            => simp [h hc] at ho
  case started hs _ _ _   => cases hs.symm.trans hc
  case continued hs _     =>
    have hc : s.machine.system = .resuming := hc
    simp [hc, SystemState.finishing] at hs
  case completed hs _ _   =>
    rw [completed_system, tracked_system] at hc
    split at hc
    · cases hc
    · simp [hc, SystemState.finishing] at hs

theorem Orchestrated.of_paused (o : Orchestrated s io s') (h : s'.machine.system = .paused) :
    s.machine.system = .paused ∧ s'.exec.ownedByExecutor = false ∧ s'.exec.armed = false ∧
      ∃ b, Pausing s io b ∧ (s' = b ∨ s' = b.released) := by
  cases o
  case stopped hs         => simp [h] at hs
  case draining hs _ a _  => simp [a.system.symm.trans h] at hs
  case aborted            => cases h
  case paused hs a ho ha  => exact ⟨hs, ho, ha, _, a, .inl rfl⟩
  case released hs a      => exact ⟨hs, rfl, rfl, _, a, .inr rfl⟩
  case lost               => cases h
  case restored           => cases h
  case held hs _          => cases hs.symm.trans h
  case started hs _ _ _   => cases hs.symm.trans h
  case continued hs _     =>
    have h : s.machine.system = .paused := h
    simp [h, SystemState.finishing] at hs
  case completed hs _ _   =>
    rw [completed_system, tracked_system] at h
    split at h
    · cases h
    · simp [h, SystemState.finishing] at hs

theorem Orchestrated.of_executing (o : Orchestrated s io s')
    (h : s'.machine.system = .executingPrint) :
    (s.machine.system = .executingPrint ∧
      ∃ n, s' = s.run.tracked n ∨ (¬s.Completes ∧ s' = s.tracked n)) ∨
    (s.machine.system = .resuming ∧ ∃ snap,
      loadExecutionSnapshot io.load s.snapshotFile = some snap ∧
        s' = s.restoreSnapshot io snap) := by
  cases o
  case stopped hs         => simp [h] at hs
  case draining hs _ a _  => simp [a.system.symm.trans h] at hs
  case aborted            => cases h
  case paused hs a _ _    => simp [a.system.symm.trans h] at hs
  case released hs a      => simp [a.system.symm.trans h] at hs
  case lost               => cases h
  case restored hs _ hl   => exact .inr ⟨hs, _, hl, rfl⟩
  case held hs _          => cases hs.symm.trans h
  case started hs _ _ _   => exact .inl ⟨hs, _, .inl rfl⟩
  case continued hc       => exact .inl ⟨h, _, .inr ⟨hc, rfl⟩⟩
  case completed hs _ _   =>
    rw [completed_system, tracked_system] at h
    split at h
    case isTrue     => cases h
    case isFalse hn => exact absurd h hn

theorem Orchestrated.of_stopped (o : Orchestrated s io s')
    (h : s.machine.system = .fault ∨ s.machine.system = .recovering) : s' = s := by
  cases o
  case stopped            => rfl
  case continued hs _     => cases h <;> simp [*, SystemState.finishing] at hs
  case completed hs _ _   => cases h <;> simp [*, SystemState.finishing] at hs
  all_goals simp_all

theorem Orchestrated.of_ready (o : Orchestrated s io s') (h : s.machine.system = .ready)
    (hp : s.exec.phase = .idle) : ∃ n, s' = s.tracked n := by
  cases o
  case continued          => exact ⟨_, rfl⟩
  case completed hc _     => cases hp.symm.trans hc.left
  all_goals simp_all

theorem Orchestrated.of_suspending (o : Orchestrated s io s') (h : s.machine.system = .paused) :
    ∃ b, Pausing s io b ∧ (s' = b ∨ s' = b.released) := by
  cases o
  case paused a _ _       => exact ⟨_, a, .inl rfl⟩
  case released a         => exact ⟨_, a, .inr rfl⟩
  case continued hs _     => simp [h, SystemState.finishing] at hs
  case completed hs _ _   => simp [h, SystemState.finishing] at hs
  all_goals simp_all

theorem Orchestrated.of_aborting (o : Orchestrated s io s') (h : s.machine.system = .aborting) :
    s'.machine.system = .aborting ∨ s'.machine.system = .idle := by
  cases o
  case draining a _       => exact .inl (a.system.trans h)
  case aborted            => exact .inr rfl
  case continued hs _     => simp [h, SystemState.finishing] at hs
  case completed hs _ _   => simp [h, SystemState.finishing] at hs
  all_goals simp_all

theorem Orchestrated.of_inert (o : Orchestrated s io s')
    (h : s.machine.system = .boot ∨ s.machine.system = .idle) :
    s'.machine.system = s.machine.system := by
  cases o
  case continued          => rfl
  case completed          =>
    rw [completed_system, tracked_system]
    exact if_neg fun hs => by obtain h | h := h <;> cases h.symm.trans hs
  all_goals simp_all

theorem Orchestrated.of_stepping (o : Orchestrated s io s')
    (h : s.machine.system = .executingPrint) :
    (s.exec.phase = .idle ∧ s.exec.cursor < s.activeJob.totalSegments ∧
      ∃ n, s' = s.run.tracked n) ∨
    (¬s.Completes ∧ ∃ n, s' = s.tracked n) ∨
    (s.Completes ∧ ∃ n p, s' = (s.tracked n).completed p) := by
  cases o
  case started hi hl _    => exact .inl ⟨hi, hl, _, rfl⟩
  case continued hc       => exact .inr (.inl ⟨hc, _, rfl⟩)
  case completed hc _     => exact .inr (.inr ⟨hc, _, _, rfl⟩)
  all_goals simp_all

theorem Orchestrated.of_resuming (o : Orchestrated s io s') (h : s.machine.system = .resuming)
    (ho : s.exec.ownedByExecutor = false) :
    (loadExecutionSnapshot io.load s.snapshotFile = none ∧ s' = s.requestFault 0xE060) ∨
    ∃ snap, loadExecutionSnapshot io.load s.snapshotFile = some snap ∧
      s' = s.restoreSnapshot io snap := by
  cases o
  case lost _ hl          => exact .inl ⟨hl, rfl⟩
  case restored _ hl      => exact .inr ⟨_, hl, rfl⟩
  case held ho'           => simp [ho] at ho'
  case continued hs _     => simp [h, SystemState.finishing] at hs
  case completed hs _ _   => simp [h, SystemState.finishing] at hs
  all_goals simp_all

theorem Orchestrated.of_completes (o : Orchestrated s io s') (h : s.machine.system.finishing = true)
    (hc : s.Completes) : ∃ n p, s.activeJob.segments = some p ∧ s' = (s.tracked n).completed p := by
  cases o
  case completed _ hp        => exact ⟨_, _, hp, rfl⟩
  case continued hn          => exact absurd hc hn
  case started hi _ _        => simp [hc.left] at hi
  case stopped hs            => cases hs <;> simp [*, SystemState.finishing] at h
  all_goals simp_all [SystemState.finishing]

-- The orchestrator finds the job complete in the tick.
def Finishes (i : TickInput) (s : State) : Prop :=
  match s.execute i with
  | .ok (_, m) => m.machine.system.finishing = true ∧ m.Completes
  | .error _   => False

instance : Decidable (Finishes i s) :=
  match h : s.execute i with
  | .ok (_, m) =>
    decidable_of_iff (m.machine.system.finishing = true ∧ m.Completes) (by simp [Finishes, h])
  | .error _   => .isFalse (by simp [Finishes, h])

theorem finishes_iff (he : s.execute i = .ok (r, m)) :
    s.Finishes i ↔ m.machine.system.finishing = true ∧ m.Completes := by
  simp [Finishes, he]

-- A tick in which the orchestrator takes over in `m`.
structure Orchestrates (s : State) (i : TickInput) (m s' : State) : Prop where
  execute      : ∃ r, s.execute i = .ok (r, m)
  wellFormed   : m.WellFormed
  orchestrated : ∃ m' pending, Orchestrated m i.io m' ∧ s' = m'.sampleMotionIdle.ended pending

theorem WellFormed.orchestrates (w : s.WellFormed) (h : Firmware.tick i s = .ok s') :
    ∃ m, Orchestrates s i m s' := by
  have ⟨r, m, m', t⟩ := tick_ok h
  have ⟨pending, hp⟩ := settle_ended (s := m'.sampleMotionIdle)
  have hm := w.execute t.execute
  have hr := (execute_ok t.execute).left
  exact ⟨m, ⟨r, t.execute⟩, hm, m', pending, orchestratorStep_orchestrated hm hr t.orchestrator,
    t.settle.trans hp⟩

section

variable {P : State → Prop}

-- The rule of a tick: its stages and the orchestrator keep `P`, and so does the bookkeeping at its
-- end, most of the time by definition.
theorem Relayed.tick (k : Relayed P i) (w : s.WellFormed)
    (h : P ((s.pollCommand i.io i.command).pollJobIngress i.job)) (ht : Firmware.tick i s = .ok s')
    (ho : ∀ {m m'}, m.WellFormed → Orchestrated m i.io m' → P m → P m')
    (he : ∀ {m pending}, P m → P (m.sampleMotionIdle.ended pending) := by exact fun h => h) :
    P s' := by
  have ⟨_, ⟨_, hx⟩, wm, _, _, o, hs⟩ := w.orchestrates ht
  rw [hs]
  exact he (ho wm o (k.execute w h hx))

theorem Carried.tick (k : Carried P i) (w : s.WellFormed) (h : P (s.pollCommand i.io i.command))
    (ht : Firmware.tick i s = .ok s')
    (ho : ∀ {m m'}, m.WellFormed → Orchestrated m i.io m' → P m → P m')
    (he : ∀ {m pending}, P m → P (m.sampleMotionIdle.ended pending) := by exact fun h => h) :
    P s' :=
  k.relayed.tick w (k.pollJobIngress w.pollCommand h) ht ho he

theorem Kept.tick (k : Kept P i) (w : s.WellFormed) (h : P s) (ht : Firmware.tick i s = .ok s')
    (ho : ∀ {m m'}, m.WellFormed → Orchestrated m i.io m' → P m → P m')
    (he : ∀ {m pending}, P m → P (m.sampleMotionIdle.ended pending) := by exact fun h => h) :
    P s' :=
  k.toCarried.tick w (k.pollCommand w h) ht ho he

end

end Firmware.State
