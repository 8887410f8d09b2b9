import MobilePrinter.Firmware.Theorems.Tick
import MobilePrinter.Firmware.Theorems.Commands
import MobilePrinter.Firmware.Theorems.Ingress
import MobilePrinter.Firmware.Theorems.Completion

namespace Firmware

def lastAccepted : History → Option (UInt64 × List Segment)
  | []                    => none
  | .jobAccepted id segs :: _ => some (id, segs)
  | _ :: h                => lastAccepted h

def SystemState.active : SystemState → Bool
  | .executingPrint | .paused | .resuming | .aborting => true
  | _                                                 => false

theorem SystemState.executing_of_finishing {system : SystemState} (h : system.finishing = true)
    (ha : system.active = true) : system = .executingPrint := by
  revert h ha
  cases system <;> decide

namespace State

-- The job that is present was accepted last, its array `segs` is alive, and all of its records
-- agree.
structure Bound (s : State) (segs : List Segment) : Prop where
  pointer       : ∃ p, s.activeJob.segments = some p ∧ s.heap.deref p = some segs
  length        : segs.length = s.activeJob.totalSegments
  nonempty      : 0 < s.activeJob.totalSegments
  limit         : s.activeJob.totalSegments ≤ jobMaxSize / segmentSize
  accepted      : lastAccepted s.history = some (s.machine.jobId, segs)
  stored        : s.store.job? = some s.activeJob
  storeId       : s.store.jobId = s.machine.jobId
  storeSchema   : s.store.jobSchemaVersion = s.machine.jobSchemaVersion
  loaded        : s.ingress.jobLoaded = true
  ingressId     : s.ingress.jobId = s.machine.jobId
  ingressSchema : s.ingress.schemaVersion = s.machine.jobSchemaVersion

structure WellFormed (s : State) : Prop where
  phase    : s.exec.phase = .idle ∨ s.exec.phase = .running
  owned    : s.exec.ownedByExecutor = true ↔ s.exec.phase = .running
  armed    : s.exec.armed = true → s.exec.phase = .idle
  stored   : s.store.hasJob = s.machine.jobPresent
  bound    : s.machine.jobPresent = true → ∃ segs, s.Bound segs
  running  : s.exec.phase = .running → s.machine.jobPresent = true
  active   : s.machine.system.active = true →
    s.machine.jobPresent = true ∨ s.activeJob.totalSegments = 0
  ready    : s.machine.system = .ready → s.exec.phase = .idle ∧ s.exec.armed = false
  recovery : s.machine.operatorRecoveryRequired = true →
    s.machine.system = .fault ∨ s.machine.system = .recovering
  jobState : s.machine.job.state ≠ .completed
  jobId    : s.machine.job.jobId = 0

variable {s s' : State} {io : FileOutcomes} {i : TickInput} {segs : List Segment}

theorem trackProgress_system : (s.trackProgress r).machine.system = s.machine.system := by
  simp only [trackProgress]
  split
  · split <;> rfl
  · rfl

theorem startExecution_system : s.startExecution.machine.system = s.machine.system := by
  simp only [startExecution]
  split <;> rfl

theorem Bound.segment? (b : s.Bound segs) (index : Nat) :
    s.activeJob.segment? s.heap index = segs[index]? := by
  have ⟨p, hp, hd⟩ := b.pointer
  simp [Job.segment?, hp, hd]

namespace WellFormed

theorem present (w : s.WellFormed) (ha : s.machine.system.active = true)
    (h : s.exec.cursor < s.activeJob.totalSegments) : s.machine.jobPresent = true :=
  w.active ha |>.resolve_right (Nat.ne_of_gt (Nat.zero_lt_of_lt h))

theorem see (w : s.WellFormed) : (s.see q).WellFormed :=
  { w with bound := fun h => (w.bound h).imp fun _ b => { b with } }

theorem note (w : s.WellFormed) : (s.note q c o).WellFormed :=
  { w with bound := fun h => (w.bound h).imp fun _ b => { b with } }

theorem accepts (w : s.WellFormed) (a : Accepts s io c s') : s'.WellFormed := by
  cases a
  case start hp _ hj hr =>
    exact { w with
      bound    := fun h => (w.bound h).imp fun _ b => { b with }
      active   := fun _ => .inl hp
      ready    := nofun
      recovery := fun h => by simp [acceptStart, hr] at h
      jobState := nofun }
  case pause hs =>
    exact { w with
      bound    := fun h => (w.bound h).imp fun _ b => { b with }
      active   := fun _ => w.active (by simp [hs, SystemState.active])
      ready    := nofun
      recovery := fun h => by simpa [hs] using w.recovery h }
  case resume hs _ _ _ _ _ =>
    exact { w with
      bound    := fun h => (w.bound h).imp fun _ b => { b with }
      active   := fun _ => w.active (by simp [hs, SystemState.active])
      ready    := nofun
      recovery := fun h => by simpa [hs] using w.recovery h }
  case abort hs =>
    exact { w with
      bound    := fun h => (w.bound h).imp fun _ b => { b with }
      active   := fun _ => w.active (by cases hs <;> simp [*, SystemState.active])
      ready    := nofun
      recovery := fun h => by
        have := w.recovery h
        grind }
  case clearJob =>
    exact {
      phase    := .inl rfl
      owned    := by simp [acceptClearJob, ExecutionContext.resetSoft]
      armed    := nofun
      stored   := rfl
      bound    := nofun
      running  := nofun
      active   := nofun
      ready    := fun _ => ⟨rfl, rfl⟩
      recovery := nofun
      jobState := nofun
      jobId    := rfl }
  case setLocalizationMode =>
    exact { w with bound := fun h => (w.bound h).imp fun _ b => { b with } }
  case recover =>
    exact { w with
      phase    := .inl rfl
      owned    := by simp [acceptRecover, ExecutionContext.resetSoft]
      armed    := nofun
      bound    := fun h => (w.bound h).imp fun _ b => { b with }
      running  := nofun
      active   := nofun
      ready    := nofun
      recovery := fun _ => .inr rfl }

theorem pollCommand (w : s.WellFormed) : (s.pollCommand io shm).WellFormed :=
  (pollCommand_polled shm).preserves see note accepts w

theorem acceptJob (w : s.WellFormed) (h : s.Submittable blob) : (s.acceptJob blob q).WellFormed :=
  { w with
    stored   := rfl
    bound    := fun _ => ⟨decodeSegments (segmentCount blob) blob, {
      pointer       := ⟨s.heap.next, rfl, Heap.deref_alloc_next⟩
      length        := decodeSegments_length
      nonempty      := segmentCount_pos h.nonempty h.size
      limit         := segmentCount_le h.size
      accepted      := rfl
      stored        := rfl
      storeId       := rfl
      storeSchema   := rfl
      loaded        := rfl
      ingressId     := rfl
      ingressSchema := rfl }⟩
    running  := fun _ => rfl
    active   := fun _ => .inl rfl
    jobState := nofun }

theorem pollJobIngress (w : s.WellFormed) : (s.pollJobIngress ipc).WellFormed :=
  (pollJobIngress_ingested ipc).preserves
    (fun w => { w with bound := fun h => (w.bound h).imp fun _ b => { b with } })
    (fun _ w => { w with bound := fun h => (w.bound h).imp fun _ b => { b with } })
    (fun _ w h => w.acceptJob h) w

theorem activateJobExecution (w : s.WellFormed) : s.activateJobExecution.WellFormed := by
  simp only [State.activateJobExecution]
  split
  case isTrue => exact w
  split
  case isTrue => exact w
  case isFalse hs hp =>
    simp only [bne_iff_ne, ne_eq, Decidable.not_not] at hs hp
    split
    case isTrue => exact w
    split
    case isTrue => exact w
    case isFalse =>
      exact { w with
        armed := fun _ => hp
        bound := fun h => (w.bound h).imp fun _ b => { b with }
        ready := fun h => by cases hs.symm.trans h }

theorem requestFault (w : s.WellFormed) : (s.requestFault code).WellFormed :=
  { w with
    bound    := fun h => (w.bound h).imp fun _ b => { b with }
    active   := nofun
    ready    := nofun
    recovery := fun _ => .inl rfl }

theorem checkSafety (w : s.WellFormed) : (s.checkSafety safety).WellFormed := by
  simp only [State.checkSafety]
  split
  · exact w.requestFault
  · exact w

theorem run (w : s.WellFormed) (hs : s.machine.system = .executingPrint)
    (h : s.exec.cursor < s.activeJob.totalSegments) :
    { s with exec := { s.exec with
      phase := .running, armed := false, ownedByExecutor := true } }.WellFormed :=
  { w with
    phase   := .inr rfl
    owned   := by simp
    armed   := nofun
    bound   := fun h => (w.bound h).imp fun _ b => { b with }
    running := fun _ => w.present (by simp [hs, SystemState.active]) h
    ready   := fun h => by cases hs.symm.trans h }

theorem armExecution (w : s.WellFormed) : s.armExecution.WellFormed := by
  simp only [State.armExecution]
  split
  case isTrue h =>
    simp only [Bool.and_eq_true, beq_iff_eq, decide_eq_true_eq] at h
    exact w.run h.left.left.left h.right
  case isFalse => exact w

theorem prepare (w : s.WellFormed) : (s.prepare i).WellFormed :=
  have w := w.pollCommand.pollJobIngress.activateJobExecution
  { w with bound := fun h => (w.bound h).imp fun _ b => { b with } }

theorem arm (w : s.WellFormed) : (s.arm i).WellFormed :=
  w.prepare.checkSafety.armExecution

theorem withFeed {f : Feed RosMotion} (w : s.WellFormed) (e : s.Executed safety f) :
    (s.withFeed f).WellFormed := by
  have hl : lastAccepted (s.withFeed f).history = lastAccepted s.history :=
    e.keeps_history (P := (lastAccepted · = _)) rfl fun _ _ _ _ => rfl
  have hp : f.ctx.phase = s.exec.phase := by rw [e.exec_eq]
  have ho : f.ctx.ownedByExecutor = s.exec.ownedByExecutor := by rw [e.exec_eq]
  have ha : f.ctx.armed = s.exec.armed := by rw [e.exec_eq]
  exact { w with
    phase   := hp ▸ w.phase
    owned   := by simpa only [State.withFeed, hp, ho] using w.owned
    armed   := by simpa only [State.withFeed, hp, ha] using w.armed
    bound   := fun h => (w.bound h).imp fun _ b => { b with accepted := hl.trans b.accepted }
    running := fun h => w.running (hp ▸ h)
    ready   := by simpa only [State.withFeed, hp, ha] using w.ready }

theorem pollMotion (w : s.WellFormed) : s.pollMotion.WellFormed :=
  { w with bound := fun h => (w.bound h).imp fun _ b => { b with } }

theorem sampleMotionIdle (w : s.WellFormed) : s.sampleMotionIdle.WellFormed :=
  { w with bound := fun h => (w.bound h).imp fun _ b => { b with } }

theorem execute (w : s.WellFormed) (h : s.execute i = .ok (r, m)) : m.WellFormed := by
  have ⟨_, f, hm, e⟩ := execute_ok h
  exact hm ▸ (w.arm.withFeed e).pollMotion.sampleMotionIdle

theorem startExecution (w : s.WellFormed) (hs : s.machine.system = .executingPrint) :
    s.startExecution.WellFormed := by
  simp only [State.startExecution]
  split
  case isTrue h =>
    simp only [Bool.and_eq_true, decide_eq_true_eq] at h
    exact w.run hs h.left.right
  case isFalse => exact w

theorem trackProgress (w : s.WellFormed) : (s.trackProgress r).WellFormed := by
  simp only [State.trackProgress]
  split
  · split
    · exact { w with bound := fun h => (w.bound h).imp fun _ b => { b with } }
    · exact { w with bound := fun h => (w.bound h).imp fun _ b => { b with } }
    · exact w
  · exact w

theorem beginAbort (w : s.WellFormed) : (s.beginAbort io).WellFormed := by
  simp only [State.beginAbort]
  split
  case isTrue => exact w
  case isFalse =>
    exact { w with
      phase   := .inl rfl
      owned   := by simp [record]
      armed   := fun _ => rfl
      bound   := fun h => (w.bound h).imp fun _ b => { b with }
      running := nofun
      ready   := fun h => ⟨rfl, (w.ready h).right⟩ }

theorem detectAbortDrain (w : s.WellFormed) : s.detectAbortDrain.WellFormed := by
  simp only [State.detectAbortDrain]
  split
  · exact { w with bound := fun h => (w.bound h).imp fun _ b => { b with } }
  · exact w

theorem finishAbort (w : s.WellFormed) (hs : s.machine.system = .aborting) :
    s.finishAbort.WellFormed := by
  simp only [State.finishAbort]
  split
  case isTrue =>
    exact { w with
      bound    := fun h => (w.bound h).imp fun _ b => { b with }
      active   := nofun
      ready    := nofun
      recovery := fun h => by simpa [hs] using w.recovery h
      jobState := nofun }
  case isFalse => exact w

theorem abortStep (w : s.WellFormed) (hs : s.machine.system = .aborting) :
    (s.abortStep io).WellFormed := by
  apply (w.beginAbort.detectAbortDrain).finishAbort
  simp only [State.detectAbortDrain, State.beginAbort]
  grind [record]

theorem capturePause (w : s.WellFormed) : (s.capturePause io).WellFormed := by
  simp only [State.capturePause]
  split
  · exact w
  · exact { w with bound := fun h => (w.bound h).imp fun _ b => { b with } }

theorem releaseOwnership (w : s.WellFormed) : s.releaseOwnership.WellFormed := by
  simp only [State.releaseOwnership]
  split
  case isTrue =>
    exact { w with
      phase   := .inl rfl
      owned   := by simp
      armed   := nofun
      bound   := fun h => (w.bound h).imp fun _ b => { b with }
      running := nofun
      ready   := fun _ => ⟨rfl, rfl⟩ }
  case isFalse => exact w

theorem resumingStep (w : s.WellFormed) (hs : s.machine.system = .resuming) :
    (s.resumingStep io).WellFormed := by
  simp only [State.resumingStep]
  split
  case isTrue => exact w
  case isFalse =>
    split
    case h_1 => exact w.requestFault
    case h_2 =>
      exact { w with
        phase    := .inl rfl
        owned    := by simp [restoreSnapshot, record]
        armed    := fun _ => rfl
        bound    := fun h => (w.bound h).imp fun _ b => { b with }
        running  := nofun
        active   := fun _ => w.active (by simp [hs, SystemState.active])
        ready    := nofun
        recovery := fun h => by simpa [hs] using w.recovery h }

theorem completed (w : s.WellFormed) (hs : s.machine.system.finishing = true) :
    (s.completed p).WellFormed where
  phase    := .inl rfl
  owned    := by simp [State.completed, ExecutionContext.resetHard, record]
  armed    := nofun
  stored   := rfl
  bound    := nofun
  running  := nofun
  active   := by
    intro h
    simp only [State.completed, completedMachine, record, beq_iff_eq] at h
    split at h
    case isTrue     => cases h
    case isFalse hc => exact absurd (SystemState.executing_of_finishing hs h) hc
  ready    := fun _ => ⟨rfl, rfl⟩
  recovery := by
    have := w.recovery
    simp only [State.completed, completedMachine, record]
    grind
  jobState := nofun
  jobId    := w.jobId

theorem completeJob (w : s.WellFormed) (hr : s.exec.phase = .running) :
    ∃ p, s.activeJob.segments = some p ∧ s.completeJob = .ok (s.completed p) := by
  have ⟨_, b⟩ := w.bound (w.running hr)
  have ⟨p, hp, hd⟩ := b.pointer
  exact ⟨p, hp, completeJob_eq hp hd⟩

theorem completionStep (w : s.WellFormed) (hl : r ≠ .starved)
    (hs : s.machine.system.finishing = true)
    (h : s.completionStep r = .ok s') : s'.WellFormed := by
  by_cases hc : s.Completes
  case pos =>
    have ⟨_, _, he⟩ := w.completeJob hc.left
    rw [completionStep_of_completes hc, he] at h
    cases h
    exact w.completed hs
  case neg =>
    rw [completionStep_of_not_completes hl hc] at h
    cases h
    exact w

theorem orchestratorStep (w : s.WellFormed) (hl : r ≠ .starved)
    (h : s.orchestratorStep io r = .ok s') : s'.WellFormed := by
  simp only [State.orchestratorStep] at h
  split at h
  case isTrue => cases h
  case isFalse =>
    split at h
    case h_1       => cases h; exact w
    case h_2       => cases h; exact w
    case h_3 hs    => cases h; exact w.abortStep hs
    case h_4       => cases h; exact w.capturePause.releaseOwnership
    case h_5 hs    => cases h; exact w.resumingStep hs
    case h_6 hs    =>
      split at h
      case isTrue  => cases h; exact w
      case isFalse =>
        refine (w.startExecution hs).trackProgress.completionStep hl ?_ h
        rw [trackProgress_system, startExecution_system, hs]
        rfl
    case h_7 =>
      refine w.trackProgress.completionStep hl ?_ h
      rw [trackProgress_system]
      cases hs : s.machine.system <;> first | rfl | contradiction

theorem settle (w : s.WellFormed) : s.settle.WellFormed := by
  have ⟨_, h⟩ := settle_ended (s := s)
  rw [h]
  exact { w with bound := fun h => (w.bound h).imp fun _ b => { b with } }

theorem tick (w : s.WellFormed) (h : tick i s = .ok s') : s'.WellFormed := by
  have ⟨_, _, _, t⟩ := tick_ok h
  have hl := (execute_ok t.execute).left
  have wm := (w.execute t.execute).orchestratorStep hl t.orchestrator
  exact t.settle ▸ wm.sampleMotionIdle.settle

end WellFormed
end State

open State

-- A snapshot that passes the checks of the boot path. The identity that it has to carry is the one
-- that every boot starts with.
structure PersistentExecutionSnapshot.Passes (snap : PersistentExecutionSnapshot) : Prop where
  magic   : snap.magic = snapshotMagic
  system  : snap.systemAtSnapshot = .paused
  jobId   : snap.jobId = 0
  schema  : snap.jobSchemaVersion = 0
  jobHash : snap.jobHash = ""

-- What a boot makes of the snapshot file. It leaves the machine READY, or PAUSED with the snapshot
-- that it has read, and it only clears snapshots that do not pass its checks.
inductive Boots (file : SnapshotFile) : State → Prop
  | ready (keeps : kept = file ∨ (kept = none ∧ ∀ snap, file = some snap → ¬snap.Passes)) :
    Boots file { machine := { bootId := 1, system := .ready }, snapshotFile := kept }
  | paused (offered : file ≠ none) :
    Boots file {
      machine       := { bootId := 1, system := .paused, resumeAvailable := true }
      pauseSnapshot := some ps
      snapshotFile  := file }

theorem boot_boots (h : boot io file = .ok s) : Boots file s := by
  have hc {snap : PersistentExecutionSnapshot} (hn : ¬snap.Passes) (hf : file = some snap) :
      clearExecutionSnapshot io.clear file = file ∨ (clearExecutionSnapshot io.clear file = none ∧
        ∀ snap, file = some snap → ¬snap.Passes) := by
    simp only [clearExecutionSnapshot]
    split
    · exact .inr ⟨rfl, fun _ hs => by cases hf.symm.trans hs; exact hn⟩
    · exact .inl rfl
  simp only [boot, classifyBootState] at h
  split at h
  case h_1 =>
    cases h
    exact .ready (.inl rfl)
  case h_2 snap hl =>
    have hf := (loadExecutionSnapshot_eq_some.mp hl).right
    split at h
    case isTrue hm =>
      cases h
      refine .ready (hc (fun p => ?_) hf)
      simp [p.magic, p.system] at hm
    case isFalse =>
      split at h
      case isTrue hm =>
        cases h
        refine .ready (hc (fun p => ?_) hf)
        simp [p.jobId, p.schema, p.jobHash] at hm
      case isFalse =>
        simp only [reconstructPauseSnapshot] at h
        split at h
        case isFalse hc => simp at hc
        case isTrue =>
          split at h
          · cases h
          · cases h
            exact .paused (by simp [hf])

theorem Boots.wellFormed (b : Boots file s) : s.WellFormed := by
  cases b
  all_goals exact {
    phase    := .inl rfl
    owned    := by simp
    armed    := nofun
    stored   := rfl
    bound    := nofun
    running  := nofun
    active   := fun _ => .inr rfl
    ready    := fun _ => ⟨rfl, rfl⟩
    recovery := nofun
    jobState := nofun
    jobId    := rfl }

theorem Booted.boots (b : Booted s) : ∃ file, Boots file s :=
  have ⟨_, file, h⟩ := b
  ⟨file, boot_boots h⟩

theorem Booted.wellFormed (b : Booted s) : s.WellFormed :=
  have ⟨_, b⟩ := b.boots
  b.wellFormed

-- What every tick of a well-formed machine keeps holds at the end of every run.
theorem State.WellFormed.invariant {I : State → Prop}
    (hs : ∀ {i s s'}, s.WellFormed → I s → Firmware.tick i s = .ok s' → I s')
    (w : s₁.WellFormed) (h : I s₁) (e : Transition.Run Firmware.tick s₁ is s₂) : I s₂ :=
  have h := e.invariant (I := fun s => s.WellFormed ∧ I s)
    (fun h ht => ⟨h.left.tick ht, hs h.left h.right ht⟩) ⟨w, h⟩
  h.right

theorem Reachable.wellFormed (r : Reachable s) : s.WellFormed := by
  cases r
  case intro b e => exact e.invariant WellFormed.tick b.wellFormed

end Firmware
