import MobilePrinter.Firmware.CommandChannel

namespace Firmware.State

-- The transitions that an operator command can make, each with everything that is checked on its
-- way through the filters of the channel and the state machine.
inductive Accepts (s : State) (io : FileOutcomes) : CommandType → State → Prop
  | start
    (ready    : s.machine.system = .ready)
    (allowed  : s.machine.operatorActions.canStart = true)
    (present  : s.machine.jobPresent = true)
    (cursor   : s.exec.cursor < s.activeJob.totalSegments)
    (fresh    : s.machine.job.state ≠ .completed)
    (recovery : s.machine.operatorRecoveryRequired = false) :
    Accepts s io .start s.acceptStart
  | pause (executing : s.machine.system = .executingPrint) : Accepts s io .pause s.acceptPause
  | resume
    (paused    : s.machine.system = .paused)
    (allowed   : s.machine.operatorActions.canResume = true)
    (available : s.machine.resumeAvailable = true)
    (consumed  : s.machine.resumeConsumed = false)
    (jobId     : s.machine.job.jobId = 0)
    (owned     : s.exec.ownedByExecutor = false) :
    Accepts s io .resume s.acceptResume
  | abort (active : s.machine.system = .executingPrint ∨ s.machine.system = .paused) :
    Accepts s io .abort s.acceptAbort
  | clearJob
    (inactive : s.machine.system = .ready ∨ s.machine.system = .recovering ∨
      s.machine.system = .fault)
    (allowed  : s.machine.operatorActions.canClearJob = true) :
    Accepts s io .clearJob (s.acceptClearJob io)
  | setLocalizationMode (ready : s.machine.system = .ready) (mode : LocalizationMode) :
    Accepts s io .setLocalizationMode (s.acceptLocalizationMode mode)
  | recover
    (fault   : s.machine.system = .fault)
    (allowed : s.machine.operatorActions.canRecover = true) :
    Accepts s io .recover (s.acceptRecover io)

def note (s : State) (seq : UInt32) (c : CommandType) (outcome : CommandOutcome) : State :=
  (s.recordCommandOutcome seq outcome).record (.commandHandled seq c outcome)

-- What one poll of the command channel can do to the state.
inductive Polled (s : State) (io : FileOutcomes) : State → Prop
  | none : Polled s io s
  | invalid (newer : s.lastSeenSeq < q) : Polled s io (s.see q)
  | rejected (newer : s.lastSeenSeq < q) (c : CommandType) :
    Polled s io ((s.see q).note q c .rejected)
  | accepted (newer : s.lastSeenSeq < q) (accepts : Accepts (s.see q) io c s') :
    Polled s io (s'.note q c .accepted)

-- The poll hands the command `c` to the state machine: its frame is new, untorn and valid.
def Hears (s : State) (shm : Option CommandShm) (c : CommandType) : Prop :=
  match shm with
  | none     => False
  | some shm => s.lastSeenSeq < shm.seq ∧ shm.frame.seq = shm.seq ∧ shm.frame.validate = true ∧
    CommandType.ofRaw shm.frame.command = c

instance Hears.decidable : (shm : Option CommandShm) → Decidable (Hears s shm c)
  | none   => .isFalse nofun
  | some _ => inferInstanceAs (Decidable (_ ∧ _ ∧ _ ∧ _))

variable {s s' : State} {io : FileOutcomes} {cmd : CommandIpc}

-- A request is refused without a trace, or makes one of the transitions above.
def Requests (s : State) (io : FileOutcomes) (c : CommandType) (r : TransitionResult × State) :
    Prop :=
  r = (.rejected, s) ∨ ∃ s', r = (.accepted, s') ∧ Accepts s io c s'

theorem requests_start (h : s.machine.operatorActions.canStart = true) :
    s.Requests io .start s.requestStartJob := by
  have hc : s.requestStartJob = (.rejected, s) ∨
      (s.requestStartJob = (.accepted, s.acceptStart) ∧ s.machine.system = .ready ∧
        s.machine.jobPresent = true ∧ s.exec.cursor < s.activeJob.totalSegments ∧
        s.machine.job.state ≠ .completed ∧ s.machine.operatorRecoveryRequired = false) := by
    simp only [requestStartJob, canStartJob]
    grind
  cases hc
  case inl hr => exact .inl hr
  case inr ha =>
    have ⟨ha, hr, hp, hl, hj, ho⟩ := ha
    exact .inr ⟨_, ha, .start hr h hp hl hj ho⟩

theorem requests_pause : s.Requests io .pause s.requestPause := by
  by_cases hs : s.machine.system = .executingPrint
  case pos => exact .inr ⟨_, by simp [requestPause, canPause, hs], .pause hs⟩
  case neg => exact .inl (by simp [requestPause, canPause, hs])

theorem requests_resume (h : s.machine.operatorActions.canResume = true) :
    s.Requests io .resume (s.requestResume {}) := by
  have hc : s.requestResume {} = (.rejected, s) ∨
      (s.requestResume {} = (.accepted, s.acceptResume) ∧ s.machine.system = .paused ∧
        s.machine.resumeAvailable = true ∧ s.machine.resumeConsumed = false ∧
        s.machine.job.jobId = 0 ∧ s.exec.ownedByExecutor = false) := by
    simp only [requestResume, canResume]
    grind
  cases hc
  case inl hr => exact .inl hr
  case inr ha =>
    have ⟨ha, hs, hv, hc, hj, hw⟩ := ha
    exact .inr ⟨_, ha, .resume hs h hv hc hj hw⟩

theorem requests_abort : s.Requests io .abort s.requestAbort := by
  simp only [requestAbort]
  split
  case isTrue => exact .inl rfl
  split
  case isTrue => exact .inl rfl
  split
  case isTrue => exact .inl rfl
  case isFalse hs =>
    simp only [Bool.and_eq_true, bne_iff_ne, ne_eq, not_and, Decidable.not_not] at hs
    exact .inr ⟨_, rfl, .abort (Decidable.or_iff_not_imp_left.mpr hs)⟩

theorem requests_clearJob (ha : commandAllowedInState s.machine.system .clearJob = true)
    (h : s.machine.operatorActions.canClearJob = true) :
    s.Requests io .clearJob (s.requestClearJob io) := by
  have hs : s.machine.system = .ready ∨ s.machine.system = .recovering ∨
      s.machine.system = .fault := by
    revert ha
    cases s.machine.system <;> simp [commandAllowedInState]
  refine .inr ⟨_, ?_, .clearJob hs h⟩
  obtain hs | hs | hs := hs <;> simp [requestClearJob, hs]

theorem requests_setLocalizationMode
    (ha : commandAllowedInState s.machine.system .setLocalizationMode = true) :
    s.Requests io .setLocalizationMode (s.requestSetLocalizationMode mode) := by
  have hs : s.machine.system = .ready := by
    revert ha
    cases s.machine.system <;> simp [commandAllowedInState]
  simp only [requestSetLocalizationMode]
  split
  case isTrue => exact .inl rfl
  split
  case isTrue  => exact .inl rfl
  case isFalse => exact .inr ⟨_, rfl, .setLocalizationMode hs mode⟩

theorem requests_recover (h : s.machine.operatorActions.canRecover = true) :
    s.Requests io .recover (s.requestRecover io) := by
  simp only [requestRecover]
  split
  case isTrue     => exact .inl rfl
  case isFalse hs => exact .inr ⟨_, rfl, .recover (by simpa using hs) h⟩

theorem dispatchCommand_cases (s : State) (io : FileOutcomes) (cmd : CommandIpc) :
    s.Requests io (.ofRaw cmd.command) (s.dispatchCommand io cmd) := by
  have ho {c : CommandType} {allowed : Bool} {r : TransitionResult × State}
      (h : allowed = true → s.Requests io c r) :
      s.Requests io c (if !allowed then (.rejected, s) else r) := by
    cases allowed
    case false => exact .inl rfl
    case true  => exact h rfl
  rw [dispatchCommand]
  apply ho
  intro ha
  generalize CommandType.ofRaw cmd.command = c at ha ⊢
  cases c
  case start               => exact ho requests_start
  case pause               => exact requests_pause
  case resume              => exact ho requests_resume
  case abort               => exact requests_abort
  case clearJob            => exact ho (requests_clearJob ha)
  case setLocalizationMode => exact requests_setLocalizationMode ha
  case recover             => exact ho requests_recover
  case none | unknown      => exact .inl rfl

-- The checks that let a frame pass.
def Permits (s : State) (cmd : CommandIpc) : Prop :=
  match CommandType.ofRaw cmd.command with
  | .start               =>
    s.machine.system = .ready ∧ s.machine.operatorActions.canStart = true ∧
      s.machine.jobPresent = true ∧ s.exec.cursor < s.activeJob.totalSegments ∧
      s.machine.job.state ≠ .completed ∧ s.machine.operatorRecoveryRequired = false
  | .pause               => s.machine.system = .executingPrint
  | .resume              =>
    s.machine.system = .paused ∧ s.machine.operatorActions.canResume = true ∧
      s.machine.resumeAvailable = true ∧ s.machine.resumeConsumed = false ∧
      s.machine.job.jobId = 0 ∧ s.exec.ownedByExecutor = false
  | .abort               => s.machine.system = .executingPrint ∨ s.machine.system = .paused
  | .clearJob            =>
    (s.machine.system = .ready ∨ s.machine.system = .recovering ∨ s.machine.system = .fault) ∧
      s.machine.operatorActions.canClearJob = true
  | .setLocalizationMode =>
    s.machine.system = .ready ∧
      (LocalizationMode.ofRaw cmd.localizationMode = .anchored → s.machine.anchorsValid = true)
  | .recover             =>
    s.machine.system = .fault ∧ s.machine.operatorActions.canRecover = true
  | .none | .unknown _   => False

theorem dispatchCommand_accepted (s : State) (io : FileOutcomes) (cmd : CommandIpc) :
    (s.dispatchCommand io cmd).1 = .accepted ↔ s.Permits cmd := by
  simp only [dispatchCommand, Permits]
  generalize CommandType.ofRaw cmd.command = c
  cases c <;> simp only [commandAllowedInState, requestStartJob, canStartJob, requestPause,
    canPause, requestResume, canResume, requestAbort, requestClearJob, requestSetLocalizationMode,
    requestRecover] <;> grind

instance : Decidable (Permits s cmd) :=
  decidable_of_iff ((s.dispatchCommand {} cmd).1 = .accepted) (dispatchCommand_accepted s {} cmd)

theorem handleCommand_eq :
    s.handleCommand io cmd =
      (s.dispatchCommand io cmd).2.note cmd.seq (.ofRaw cmd.command)
        (s.dispatchCommand io cmd).1.outcome :=
  rfl

theorem handleCommand_cases (s : State) (io : FileOutcomes) (cmd : CommandIpc) :
    s.handleCommand io cmd = s.note cmd.seq (.ofRaw cmd.command) .rejected ∨
    ∃ s', Accepts s io (.ofRaw cmd.command) s' ∧
      s.handleCommand io cmd = s'.note cmd.seq (.ofRaw cmd.command) .accepted := by
  rw [handleCommand_eq]
  cases dispatchCommand_cases s io cmd
  case inl h =>
    rw [h]
    exact .inl rfl
  case inr h =>
    have ⟨s', h, ha⟩ := h
    rw [h]
    exact .inr ⟨s', ha, rfl⟩

theorem Hears.unique (h : s.Hears shm c) (h' : s.Hears shm c') : c = c' := by
  cases shm
  case none => cases h
  case some => exact h.right.right.right.symm.trans h'.right.right.right

-- The poll handles exactly the frames that it hears.
theorem pollCommand_cases (s : State) (io : FileOutcomes) (shm : Option CommandShm) :
    (s.pollCommand io shm = s ∨
      ∃ q, s.lastSeenSeq < q ∧ s.pollCommand io shm = s.see q) ∧ (∀ c, ¬s.Hears shm c) ∨
    ∃ cmd, s.lastSeenSeq < cmd.seq ∧ s.Hears shm (.ofRaw cmd.command) ∧
      s.pollCommand io shm = (s.see cmd.seq).handleCommand io cmd := by
  cases shm
  case none => exact .inl ⟨.inl rfl, fun _ => id⟩
  case some shm =>
    simp only [pollCommand, Hears]
    split
    case isTrue hl => exact .inl ⟨.inl rfl, fun _ h => UInt32.not_lt.mpr hl h.left⟩
    case isFalse hl =>
      have hn := UInt32.not_le.mp hl
      split
      case isTrue hq => exact .inl ⟨.inl rfl, fun _ h => by simp [h.right.left] at hq⟩
      case isFalse hq =>
        simp only [bne_iff_ne, ne_eq, Decidable.not_not] at hq
        split
        case isTrue hv =>
          exact .inl ⟨.inr ⟨_, hn, rfl⟩, fun _ h => by simp [h.right.right.left] at hv⟩
        case isFalse hv =>
          exact .inr ⟨shm.frame, hq ▸ hn, ⟨hn, hq, by simpa using hv, rfl⟩, by rw [hq]⟩

theorem pollCommand_polled (shm : Option CommandShm) : Polled s io (s.pollCommand io shm) := by
  cases pollCommand_cases s io shm
  case inl h =>
    cases h.left
    case inl h =>
      rw [h]
      exact .none
    case inr h =>
      have ⟨q, hn, h⟩ := h
      rw [h]
      exact .invalid hn
  case inr h =>
    have ⟨cmd, hn, _, h⟩ := h
    rw [h]
    cases handleCommand_cases (s.see cmd.seq) io cmd
    case inl h =>
      rw [h]
      exact .rejected hn _
    case inr h =>
      have ⟨s', ha, h⟩ := h
      rw [h]
      exact .accepted hn ha

theorem Accepts.allowed (a : Accepts s io c s') :
    commandAllowedInState s.machine.system c = true := by
  cases a
  case start h _ _ _ _ _        => rw [h]; rfl
  case pause h                  => rw [h]; rfl
  case resume h _ _ _ _ _       => rw [h]; rfl
  case abort h                  => obtain h | h := h <;> rw [h] <;> rfl
  case clearJob h _             => obtain h | h | h := h <;> rw [h] <;> rfl
  case setLocalizationMode h _  => rw [h]; rfl
  case recover h _              => rw [h]; rfl

theorem pollCommand_system (h : ∀ c, commandAllowedInState s.machine.system c = false) :
    (s.pollCommand io shm).machine.system = s.machine.system := by
  have p : Polled s io (s.pollCommand io shm) := pollCommand_polled shm
  generalize s.pollCommand io shm = s' at p
  cases p
  case accepted c _ _ a => exact absurd a.allowed (by simp [see, h])
  all_goals rfl

-- What the bookkeeping and every transition preserve survives the poll.
theorem Polled.preserves {P : State → Prop} (hs : ∀ {s q}, P s → P (s.see q))
    (hn : ∀ {s q c o}, P s → P (s.note q c o))
    (ha : ∀ {s s' c}, P s → Accepts s io c s' → P s') (p : Polled s io s') (h : P s) : P s' := by
  cases p
  case none           => exact h
  case invalid        => exact hs h
  case rejected       => exact hn (hs h)
  case accepted a     => exact hn (ha (hs h) a)

end Firmware.State
