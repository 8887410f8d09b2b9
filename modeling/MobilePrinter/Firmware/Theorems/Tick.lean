import MobilePrinter.Firmware.Main

namespace Firmware.State

variable {s s' m m' : State} {i : TickInput} {r : ExecutionResult} {safety : SafetyInputs}
  {c : Crash}

-- The cursor of an execution that is about to be stepped is behind the last cursor of its epoch.
def Behind (s : State) : Prop :=
  s.exec.cursor ≠ 0 ∧ s.exec.cursor < s.lastCursor

-- What the call of the executor, if there is one, does to the state.
structure Executed (s : State) (safety : SafetyInputs) (f : Feed RosMotion) : Prop where
  rests      : ¬s.Steps safety → f = s.feed
  ahead      : s.Steps safety → s.exec.ownedByExecutor = true → ¬s.Behind
  keeps      : ∀ {I : RosMotion → Prop}, MotionController.Keeps I → I s.motion → I f.motion
  lastCursor : f.lastCursor = s.lastCursor ∨ f.lastCursor = s.exec.cursor
  moves      : s.feed.Held f ∨
    (s.Steps safety ∧ f.lastCursor = s.exec.cursor ∧
      ∃ seg res, Feed.Fed s.activeJob s.heap s.feed f seg res)

@[simp]
theorem withFeed_system {f : Feed RosMotion} :
    (s.withFeed f).machine.system = s.machine.system :=
  rfl

@[simp]
theorem pollMotion_system : s.pollMotion.machine.system = s.machine.system :=
  rfl

@[simp]
theorem sampleMotionIdle_system : s.sampleMotionIdle.machine.system = s.machine.system :=
  rfl

theorem Executed.history_of_held {f : Feed RosMotion} (h : s.feed.Held f) :
    (s.withFeed f).history = s.history := by
  have hf : f.submitted = [] := h.submitted
  simp [withFeed, hf]

theorem Executed.history_of_fed {f : Feed RosMotion}
    (h : Feed.Fed s.activeJob s.heap s.feed f seg res) :
    (s.withFeed f).history = .motionSubmitted seg.command res :: s.history := by
  have hf : f.submitted = [(seg.command, res)] := h.submitted
  simp [withFeed, hf]

theorem Executed.keeps_history {f : Feed RosMotion} {P : List Event → Prop}
    (e : s.Executed safety f) (h : P s.history)
    (hp : s.Steps safety → ∀ seg res, Feed.Fed s.activeJob s.heap s.feed f seg res →
      P (.motionSubmitted seg.command res :: s.history)) : P (s.withFeed f).history := by
  cases e.moves
  case inl hm =>
    rw [history_of_held hm]
    exact h
  case inr hm =>
    have ⟨hs, _, seg, res, hm⟩ := hm
    rw [history_of_fed hm]
    exact hp hs seg res hm

theorem Executed.exec_eq {f : Feed RosMotion} (e : s.Executed safety f) :
    f.ctx = { s.exec with cursor := f.ctx.cursor } := by
  cases e.moves
  case inl h =>
    rw [h.ctx]
    rfl
  case inr h =>
    have ⟨_, _, _, res, h⟩ := h
    rw [h.ctx]
    split <;> rfl

theorem executeStep_ok (h : s.executeStep safety = .ok (r, s')) :
    r ≠ .starved ∧ ∃ f, s' = s.withFeed f ∧ s.Executed safety f := by
  simp only [executeStep] at h
  split at h
  case isTrue hs =>
    have ⟨o, he, ho⟩ := Transition.map_eq_ok.mp h
    cases ho
    have ⟨hr, hl, hm⟩ := executionStep_ok he
    refine ⟨hr, o.2, rfl, absurd hs, ?_, ?_, hl, ?_⟩
    · intro _ ho hb
      have hf : s.feed.Runs := ⟨ho, hs.right.right.right, hs.right.right.left⟩
      cases (executionStep_behind hf hb).symm.trans he
    · exact fun k hi => executionStep_keeps k hi he
    · exact hm.imp_right (⟨hs, ·⟩)
  case isFalse hs =>
    cases h
    refine ⟨nofun, s.feed, rfl, fun _ => rfl, fun h => absurd h hs, ?_, .inl rfl, .inl ⟨rfl, rfl⟩⟩
    exact fun _ hi => hi

theorem executeStep_error (h : s.executeStep safety = .error c) :
    s.Steps safety ∧ ((c = .assertion .cursorBehind ∧ s.Behind) ∨
      (c = .badAccess ∧ s.exec.cursor < s.activeJob.totalSegments ∧
        s.activeJob.segment? s.heap s.exec.cursor = none)) := by
  simp only [executeStep] at h
  split at h
  case isTrue hs =>
    cases he : executionStep s.activeJob s.heap s.feed <;>
      simp only [he, Except.map, Except.error.injEq, reduceCtorEq] at h
    case error => exact ⟨hs, h ▸ executionStep_error he⟩
  case isFalse => cases h

theorem execute_ok (h : s.execute i = .ok (r, m)) :
    r ≠ .starved ∧ ∃ f, m = ((s.arm i).withFeed f).pollMotion.sampleMotionIdle ∧
      (s.arm i).Executed (evaluateSafety i.safety) f := by
  have ⟨_, he, ho⟩ := Transition.map_eq_ok.mp h
  cases ho
  have ⟨hr, f, hf, hx⟩ := executeStep_ok he
  exact ⟨hr, f, hf ▸ rfl, hx⟩

theorem execute_error (h : s.execute i = .error c) :
    (s.arm i).executeStep (evaluateSafety i.safety) = .error c := by
  simp only [execute] at h
  cases he : (s.arm i).executeStep (evaluateSafety i.safety) <;>
    simp only [he, Except.map, Except.error.injEq, reduceCtorEq] at h
  case error => exact h ▸ rfl

-- The assertions at the end of a tick.
structure Asserted (s : State) : Prop where
  completed : s.machine.system = .idle → s.machine.job.state = .completed →
    s.exec.phase = .idle ∧ s.exec.cursor = 0 ∧ s.exec.ownedByExecutor = false
  ownership : s.exec.phase = .running ↔ s.exec.ownedByExecutor = true

theorem checkAssertions_ok (h : s.checkAssertions = .ok s') : s.Asserted ∧ s' = s.settle := by
  simp only [checkAssertions, bind, Except.bind, pure, Except.pure] at h
  split at h
  case h_1 => cases h
  case h_2 hc =>
    split at h
    case h_1 => cases h
    case h_2 ho =>
      refine ⟨⟨?_, ?_⟩, by cases h; rfl⟩
      · simp only [assertCompleted] at hc
        grind
      · simp only [enforceExecutionOwnership] at ho
        grind

theorem Asserted.checkAssertions (a : s.Asserted) : s.checkAssertions = .ok s.settle := by
  have hc : s.assertCompleted = .ok () := by
    have := a.completed
    simp only [assertCompleted]
    grind
  have ho : s.enforceExecutionOwnership = .ok () := by
    have := a.ownership
    simp only [enforceExecutionOwnership]
    grind
  simp [State.checkAssertions, hc, ho, bind, Except.bind, pure, Except.pure]

structure Ticked (s : State) (i : TickInput) (r : ExecutionResult) (m m' s' : State) : Prop where
  execute      : s.execute i = .ok (r, m)
  orchestrator : m.orchestratorStep i.io r = .ok m'
  asserted     : m'.sampleMotionIdle.Asserted
  settle       : s' = m'.sampleMotionIdle.settle

theorem tick_ok (h : tick i s = .ok s') : ∃ r m m', Ticked s i r m m' s' := by
  simp only [tick, bind, Except.bind] at h
  split at h
  case h_1 => cases h
  case h_2 e he =>
    split at h
    case h_1 => cases h
    case h_2 m' ho =>
      have ⟨ha, hs⟩ := checkAssertions_ok h
      exact ⟨e.1, e.2, m', he, ho, ha, hs⟩

theorem tick_of_execute_error (h : s.execute i = .error c) : tick i s = .error c := by
  simp [tick, bind, Except.bind, h]

theorem Ticked.tick (t : Ticked s i r m m' s') : tick i s = .ok s' := by
  simp [Firmware.tick, bind, Except.bind, t.execute, t.orchestrator, t.asserted.checkAssertions,
    t.settle]

theorem enforceInvariants_eq (h : s.machine.system = .executingPrint) :
    s.enforceInvariants = s := by
  simp [enforceInvariants, h]

-- What the end of an iteration does to a state in which the assertions hold.
def ended (s : State) (pausePending : Bool) : State :=
  { s with
    pausePending := pausePending
    machine      := { s.machine with
      resumePermanentlyDisabled := s.machine.resumeConsumed
      operatorActions           := deriveOperatorActions s.machine } }.publishIpcState

@[simp]
theorem ended_system {pending : Bool} : (s.ended pending).machine.system = s.machine.system :=
  rfl

theorem settle_ended : ∃ pending, s.settle = s.ended pending := by
  simp only [settle, clearPausePendingIfStable, updateOperatorActions]
  split
  case isTrue h =>
    simp only [Bool.and_eq_true, beq_iff_eq] at h
    rw [enforceInvariants_eq h.left]
    exact ⟨_, rfl⟩
  case isFalse => exact ⟨_, rfl⟩

end Firmware.State
