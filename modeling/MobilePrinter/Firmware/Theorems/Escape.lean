import MobilePrinter.Firmware.Theorems.Progress

open Transition

namespace Firmware
namespace State

-- What an operator, a safe machine, a working disk and the motion layer `M` can do in a tick. The
-- motion layer is given by the schedules that it can run in a state.
structure Benign (M : State → List SpinSlice → Prop) (i : TickInput) (s : State) : Prop where
  safe    : (evaluateSafety i.safety).status = .safe
  files   : i.io.Succeed
  command : ∀ shm, i.command = some shm → shm.frame.command ≤ 7
  motion  : M s i.spin

structure Submits (s : State) (i : TickInput) : Prop where
  silent   : i.command = none
  vacant   : s.store.hasJob = false
  accepted : (s.pollJobIngress i.job).store.hasJob = true

structure Starts (s : State) (i : TickInput) : Prop where
  ready    : s.machine.system = .ready
  accepted : (s.pollCommand i.io i.command).machine.system = .executingPrint

-- The machine is READY, and the submission of a job followed by a START is accepted.
def Restartable (M : State → List SpinSlice → Prop) (s : State) : Prop :=
  s.machine.system = .ready ∧ ∃ i s' j,
    Benign M i s ∧ s.Submits i ∧ tick i s = .ok s' ∧ Benign M j s' ∧ s'.Starts j

def Escapes (M : State → List SpinSlice → Prop) : State → Prop :=
  CanReach tick (Benign M) (Restartable M)

-- The number of command frames that the channel can still take.
def framesLeft (s : State) : Nat :=
  UInt32.size - 1 - s.lastSeenSeq.toNat

def maxSegments : Nat :=
  jobMaxSize / segmentSize

-- The executor can feed the job from `cursor` to its end.
def Feedable (s : State) (cursor : Nat) : Prop :=
  cursor < s.activeJob.totalSegments ∧ s.exec.abortInProgress = false ∧
    (cursor = 0 ∨ s.lastCursor ≤ cursor)

-- All segments have been fed, and the completion is only waiting for the motion layer.
def Spent (s : State) : Prop :=
  s.exec.phase = .running ∧ s.activeJob.totalSegments ≤ s.exec.cursor ∧
    (s.exec.abortInProgress = false → s.exec.cursor = 0 ∨ s.lastCursor ≤ s.exec.cursor)

def Finishable (s : State) : Prop :=
  s.Feedable s.exec.cursor ∨ s.Spent

-- A RESUME leads out of PAUSED. It either restores an execution that can be finished, or faults
-- because there is no file, and then a CLEAR helps.
def ResumesWithin (s : State) (n : Nat) : Prop :=
  s.machine.resumeConsumed = false ∧
    match s.snapshotFile with
    | none      => s.exec.cursor < maxSegments ∧ 3 ≤ n
    | some snap => s.Feedable snap.cursor ∧ 2 ≤ n

-- No more than `n` command frames are needed for a fresh START. From EXECUTING, a PAUSE only helps
-- if it does not capture the execution that cannot be finished.
def EscapesWithin (s : State) (n : Nat) : Prop :=
  match s.machine.system with
  | .ready               => s.exec.cursor < maxSegments ∧
    ((s.machine.jobPresent = false ∧ 1 ≤ n) ∨ 2 ≤ n)
  | .fault | .recovering => s.exec.cursor < maxSegments ∧ 2 ≤ n
  | .executingPrint      =>
    (s.Finishable ∧ 1 ≤ n) ∨ (s.pauseSnapshot ≠ none ∧ s.ResumesWithin (n - 1))
  | .paused              => s.ResumesWithin n
  | _                    => False

def Escapable (s : State) : Prop :=
  s.EscapesWithin s.framesLeft

-- The execution of `s` has not moved in `m`.
structure Standing (s m : State) : Prop where
  cursor     : m.exec.cursor = s.exec.cursor
  lastCursor : m.lastCursor = s.lastCursor
  phase      : m.exec.phase = s.exec.phase ∨
    (s.machine.system = .executingPrint ∧ s.exec.cursor < s.activeJob.totalSegments)

-- What the stages between the poll of the command channel and the orchestrator leave of `s` in `m`.
structure Passed (s m : State) : Prop where
  system          : m.machine.system = s.machine.system
  framesLeft      : m.framesLeft ≤ s.framesLeft
  pauseSnapshot   : m.pauseSnapshot = s.pauseSnapshot
  snapshotFile    : m.snapshotFile = s.snapshotFile
  resumeConsumed  : m.machine.resumeConsumed = s.machine.resumeConsumed
  abortInProgress : m.exec.abortInProgress = s.exec.abortInProgress
  jobPresent      : s.machine.jobPresent = true → m.machine.jobPresent = true
  activeJob       : s.machine.system ≠ .ready → m.activeJob = s.activeJob
  moves           : (s.machine.system = .executingPrint ∧ s.Finishable) ∨ s.Standing m

variable {M : State → List SpinSlice → Prop} {s s' m : State} {i : TickInput} {io : FileOutcomes}
  {r : ExecutionResult} {n k : Nat}

theorem Passed.refl : Passed s s where
  system          := rfl
  framesLeft      := Nat.le_refl _
  pauseSnapshot   := rfl
  snapshotFile    := rfl
  resumeConsumed  := rfl
  abortInProgress := rfl
  jobPresent h    := h
  activeJob _     := rfl
  moves           := .inr ⟨rfl, rfl, .inl rfl⟩

theorem Passed.finishable (p : Passed s m) (hs : m.Steps safety) (hb : ¬m.Behind) :
    s.machine.system = .executingPrint ∧ s.Finishable := by
  cases p.moves
  case inl h => exact h
  case inr t =>
    have he := p.system.symm.trans hs.right.left
    have hc := p.abortInProgress.symm.trans hs.right.right.right
    have ha : s.exec.cursor = 0 ∨ s.lastCursor ≤ s.exec.cursor := by
      rw [Behind, t.cursor, t.lastCursor] at hb
      omega
    refine ⟨he, ?_⟩
    by_cases hl : s.exec.cursor < s.activeJob.totalSegments
    case pos => exact .inl ⟨hl, hc, ha⟩
    case neg =>
      have hp := t.phase.resolve_right fun h => hl h.right
      exact .inr ⟨hp.symm.trans hs.right.right.left, Nat.not_lt.mp hl, fun _ => ha⟩

theorem framesLeft_congr (h : m.lastSeenSeq = s.lastSeenSeq) : m.framesLeft = s.framesLeft := by
  rw [framesLeft, h, framesLeft]

theorem see_framesLeft (h : s.lastSeenSeq < q) : (s.see q).framesLeft < s.framesLeft := by
  have h : s.lastSeenSeq.toNat < q.toNat := h
  have hq := q.toNat_lt_size
  simp only [framesLeft, see]
  omega

theorem carried_passed (hs : (evaluateSafety i.safety).status = .safe) : Carried (Passed s) i where
  job _ p a   := {
    p with
    jobPresent := fun _ => rfl
    activeJob  := fun h => absurd (p.system.symm.trans a.ready) h
    moves      := p.moves.imp_right fun t => { t with } }
  armed _ p _ := { p with moves := p.moves.imp_right fun t => { t with } }
  fault _ _ h := by cases hs.symm.trans h
  run _ p a   := by
    refine { p with moves := p.moves.imp_right fun t => { t with phase := .inr ⟨?_, ?_⟩ } }
    · exact p.system.symm.trans a.executing
    · have hn : s.machine.system ≠ .ready := by simp [← p.system, a.executing]
      rw [← t.cursor, ← p.activeJob hn]
      exact a.cursor
  executed {m f} w p e := by
    by_cases h : m.Steps (evaluateSafety i.safety)
    case pos =>
      have hb := e.ahead h (w.owned.mpr h.right.right.left)
      refine { p with abortInProgress := ?_, moves := .inl (p.finishable h hb) }
      rw [withFeed, e.exec_eq]
      exact p.abortInProgress
    case neg =>
      rw [e.rests h]
      exact { p with moves := p.moves.imp_right fun t => { t with } }
  scheduled p := { p with moves := p.moves.imp_right fun t => { t with } }
  first p     := { p with moves := p.moves.imp_right fun t => { t with } }
  refused p   := { p with moves := p.moves.imp_right fun t => { t with } }
  polled p    := { p with moves := p.moves.imp_right fun t => { t with } }
  sampled p   := { p with moves := p.moves.imp_right fun t => { t with } }

-- What the stages between the poll and the orchestrator make of `s` if they end in `m`. They step
-- whatever runs.
structure Handed (s m : State) : Prop extends Passed s m where
  stepped : m.machine.system = .executingPrint → m.exec.phase = .running →
    m.exec.abortInProgress = false → s.Finishable

-- The orchestrator takes over in `m`, with or without a command having been accepted in `s`.
inductive Follows (s : State) (io : FileOutcomes) (m : State) : Prop
  | silent (handed : Handed s m)
  | command (accepts : Accepts (s.see q) io c s₁) (handed : Handed (s₁.note q c .accepted) m)
    (fewer : m.framesLeft < s.framesLeft)

theorem execute_handed (w : s.WellFormed) (hs : (evaluateSafety i.safety).status = .safe)
    (he : s.execute i = .ok (r, m)) : Handed (s.pollCommand i.io i.command) m where
  toPassed := (carried_passed hs).execute w .refl he
  stepped  := by
    have ⟨_, _, hm, e⟩ := execute_ok he
    have p := (carried_passed hs).arm w .refl
    have ha := w.arm (i := i)
    generalize s.arm i = a at hm e p ha
    have hx := e.exec_eq
    subst hm
    intro he hp hc
    have hc := (congrArg (·.abortInProgress) hx).symm.trans hc
    have h : a.Steps (evaluateSafety i.safety) :=
      ⟨hs, he, (congrArg (·.phase) hx).symm.trans hp, hc⟩
    exact p.finishable h (e.ahead h (ha.owned.mpr h.right.right.left)) |>.right

theorem Accepts.lastSeenSeq (a : Accepts s io c s') : s'.lastSeenSeq = s.lastSeenSeq := by
  cases a <;> rfl

theorem execute_follows (w : s.WellFormed) (hs : (evaluateSafety i.safety).status = .safe)
    (he : s.execute i = .ok (r, m)) : Follows s i.io m := by
  have p := execute_handed w hs he
  have hp : Polled s i.io (s.pollCommand i.io i.command) := pollCommand_polled i.command
  generalize s.pollCommand i.io i.command = s₁ at p hp
  cases hp
  case none => exact .silent p
  case invalid hq =>
    refine .silent { p with framesLeft := ?_, moves := p.moves.imp_right fun t => { t with } }
    exact Nat.le_trans p.framesLeft (Nat.le_of_lt (see_framesLeft hq))
  case rejected hq _ =>
    refine .silent { p with framesLeft := ?_, moves := p.moves.imp_right fun t => { t with } }
    exact Nat.le_trans p.framesLeft (Nat.le_of_lt (see_framesLeft hq))
  case accepted q c s₁ hq a =>
    have hf : s₁.framesLeft = (s.see q).framesLeft := framesLeft_congr a.lastSeenSeq
    exact .command a p (Nat.lt_of_le_of_lt p.framesLeft (hf ▸ see_framesLeft hq))

theorem ResumesWithin.mono (h : s.ResumesWithin n) (hn : n ≤ k) : s.ResumesWithin k := by
  refine ⟨h.left, ?_⟩
  have hf := h.right
  split at hf
  case h_1 => exact ⟨hf.left, Nat.le_trans hf.right hn⟩
  case h_2 => exact ⟨hf.left, Nat.le_trans hf.right hn⟩

theorem ResumesWithin.pos (h : s.ResumesWithin n) : 2 ≤ n := by
  have hf := h.right
  split at hf
  case h_1 => exact Nat.le_of_succ_le hf.right
  case h_2 => exact hf.right

theorem EscapesWithin.pos (h : s.EscapesWithin n) : 1 ≤ n := by
  simp only [EscapesWithin] at h
  split at h
  case h_1 => omega
  case h_2 => exact Nat.le_of_succ_le h.right
  case h_3 => exact Nat.le_of_succ_le h.right
  case h_4 =>
    cases h
    case inl h => exact h.right
    case inr h =>
      have := h.right.pos
      omega
  case h_5 => exact Nat.le_of_succ_le h.pos
  case h_6 => cases h

theorem escapesWithin_ready (h : s.machine.system = .ready) :
    s.EscapesWithin n ↔
      s.exec.cursor < maxSegments ∧ ((s.machine.jobPresent = false ∧ 1 ≤ n) ∨ 2 ≤ n) := by
  simp only [EscapesWithin, h]

theorem escapesWithin_stopped (h : s.machine.system = .fault ∨ s.machine.system = .recovering) :
    s.EscapesWithin n ↔ s.exec.cursor < maxSegments ∧ 2 ≤ n := by
  obtain h | h := h <;> simp only [EscapesWithin, h]

theorem escapesWithin_executing (h : s.machine.system = .executingPrint) :
    s.EscapesWithin n ↔
      (s.Finishable ∧ 1 ≤ n) ∨ (s.pauseSnapshot ≠ none ∧ s.ResumesWithin (n - 1)) := by
  simp only [EscapesWithin, h]

theorem escapesWithin_paused (h : s.machine.system = .paused) :
    s.EscapesWithin n ↔ s.ResumesWithin n := by
  simp only [EscapesWithin, h]

theorem not_escapesWithin_aborting
    (h : s.machine.system = .aborting ∨ s.machine.system = .boot ∨ s.machine.system = .idle) :
    ¬s.EscapesWithin n := by
  obtain h | h | h := h <;> simp [EscapesWithin, h]

namespace Orchestrated

theorem framesLeft (o : Orchestrated m io s') : s'.framesLeft = m.framesLeft :=
  framesLeft_congr o.channels.lastSeenSeq

theorem escapes_ready (o : Orchestrated m io s') (w : m.WellFormed)
    (hm : m.machine.system = .ready) (e : s'.EscapesWithin n) :
    m.exec.cursor < maxSegments ∧ ((m.machine.jobPresent = false ∧ 1 ≤ n) ∨ 2 ≤ n) := by
  obtain ⟨_, rfl⟩ := o.of_ready hm (w.ready hm).left
  exact (escapesWithin_ready (by exact hm)).mp e

theorem escapes_stopped (o : Orchestrated m io s')
    (hm : m.machine.system = .fault ∨ m.machine.system = .recovering) (e : s'.EscapesWithin n) :
    m.exec.cursor < maxSegments ∧ 2 ≤ n := by
  obtain rfl := o.of_stopped hm
  exact (escapesWithin_stopped hm).mp e

theorem escapes_paused (o : Orchestrated m io s') (hm : m.machine.system = .paused)
    (e : s'.EscapesWithin n) : ∃ c, Pausing m io c ∧ c.ResumesWithin n := by
  have ⟨c, a, hc⟩ := o.of_suspending hm
  refine ⟨c, a, ?_⟩
  obtain rfl | rfl := hc
  · exact (escapesWithin_paused (a.system.trans hm)).mp e
  · exact (escapesWithin_paused (s := c.released) (a.system.trans hm)).mp e

theorem not_escapes_aborting (o : Orchestrated m io s') (hm : m.machine.system = .aborting) :
    ¬s'.EscapesWithin n :=
  have h := o.of_aborting hm
  not_escapesWithin_aborting (by cases h <;> simp [*])

end Orchestrated

namespace Passed

theorem standing (p : Passed s m) (h : s.machine.system ≠ .executingPrint) : s.Standing m :=
  p.moves.resolve_left fun hm => h hm.left

theorem feedable (p : Passed s m) (t : s.Standing m) (h : s.machine.system ≠ .ready)
    (hf : m.Feedable k) : s.Feedable k := by
  rwa [Feedable, ← p.activeJob h, ← p.abortInProgress, ← t.lastCursor]

theorem resumesWithin (p : Passed s m) (t : s.Standing m) (h : s.machine.system ≠ .ready)
    (hr : m.ResumesWithin n) : s.ResumesWithin n := by
  refine ⟨p.resumeConsumed ▸ hr.left, ?_⟩
  have hf := hr.right
  rw [p.snapshotFile, t.cursor] at hf
  split at hf
  case h_1 => exact hf
  case h_2 => exact ⟨p.feedable t h hf.left, hf.right⟩

end Passed

theorem Handed.finishable (p : Handed s m) (t : s.Standing m)
    (hs : m.machine.system = .executingPrint) (o : Orchestrated m io s')
    (e : s'.EscapesWithin n) :
    s.Finishable ∨ (s.pauseSnapshot ≠ none ∧ s.ResumesWithin (n - 1)) := by
  have hn : s.machine.system ≠ .ready := by simp [← p.system, hs]
  have hf (h : m.Feedable m.exec.cursor) : s.Finishable := by
    rw [t.cursor] at h
    exact .inl (p.feedable t hn h)
  have hr (h : m.pauseSnapshot ≠ none ∧ m.ResumesWithin (n - 1)) :
      s.pauseSnapshot ≠ none ∧ s.ResumesWithin (n - 1) :=
    ⟨p.pauseSnapshot ▸ h.left, p.resumesWithin t hn h.right⟩
  -- What runs behind the end of the job ran there before.
  have hp (hp : m.exec.phase = .running) (hl : m.activeJob.totalSegments ≤ m.exec.cursor) :
      s.Finishable := by
    cases ha : m.exec.abortInProgress
    case false => exact p.stepped hs hp ha
    case true =>
      rw [t.cursor, p.activeJob hn] at hl
      have hr := t.phase.resolve_right fun h => Nat.not_lt.mpr hl h.right
      have ha := p.abortInProgress.symm.trans ha
      exact .inr ⟨hr.symm.trans hp, hl, fun h => by cases ha.symm.trans h⟩
  obtain ⟨_, hl, k, rfl⟩ | ⟨_, k, rfl⟩ | ⟨hc, _⟩ := o.of_stepping hs
  case inr.inr => exact .inl (hp hc.left hc.right.left)
  case inl =>
    obtain ⟨h, _⟩ | h := (escapesWithin_executing (by exact hs)).mp e
    · exact .inl (h.elim hf fun h => absurd hl (Nat.not_lt.mpr h.right.left))
    · exact .inr (hr h)
  case inr.inl =>
    obtain ⟨h, _⟩ | h := (escapesWithin_executing (by exact hs)).mp e
    · exact .inl (h.elim hf fun h => hp h.left h.right.left)
    · exact .inr (hr h)

-- A tick without a command does not bring a state closer to its escape.
theorem Handed.escapesWithin (p : Handed s m) (b : s.Boundary) (w : m.WellFormed)
    (o : Orchestrated m io s') (e : s'.EscapesWithin n) : s.EscapesWithin n := by
  cases hs : s.machine.system
  case boot | idle =>
    have hm := o.of_inert (by simp [p.system, hs])
    exact absurd e (not_escapesWithin_aborting (by simp [hm, p.system, hs]))
  case ready =>
    have hm := p.system.trans hs
    have t := p.standing (by simp [hs])
    have h := o.escapes_ready w hm e
    refine (escapesWithin_ready hs).mpr ⟨t.cursor ▸ h.left, h.right.imp_left fun h => ⟨?_, h.right⟩⟩
    by_contra hj
    cases h.left.symm.trans (p.jobPresent (by simpa using hj))
  case executingPrint =>
    apply (escapesWithin_executing hs).mpr
    cases p.moves
    case inl h => exact .inl ⟨h.right, e.pos⟩
    case inr t => exact (p.finishable t (p.system.trans hs) o e).imp_left fun h => ⟨h, e.pos⟩
  case paused =>
    have t := p.standing (by simp [hs])
    have ⟨c, a, hr⟩ := o.escapes_paused (p.system.trans hs) e
    cases a
    case captured h => exact absurd (p.pauseSnapshot.symm.trans h) (b.captured hs)
    case kept => exact (escapesWithin_paused hs).mpr (p.resumesWithin t (by simp [hs]) hr)
  case resuming => exact absurd hs b.notResuming
  case aborting => exact absurd e (o.not_escapes_aborting (p.system.trans hs))
  case fault | recovering =>
    have hm : m.machine.system = .fault ∨ m.machine.system = .recovering := by simp [p.system, hs]
    have t := p.standing (by simp [hs])
    have h := o.escapes_stopped hm e
    exact (escapesWithin_stopped (by simp [hs])).mpr (t.cursor ▸ h)

theorem ResumesWithin.captured (h : (m.captured io).ResumesWithin n) (hp : io.persist = .written) :
    m.Feedable m.exec.cursor := by
  have h := h.right
  simp only [State.captured, record, persistExecutionSnapshot, hp] at h
  exact h.left

theorem Passed.escapes_pause (p : Passed (s.acceptPause.note q .pause .accepted) m)
    (hs : s.machine.system = .executingPrint) (hf : io.Succeed) (o : Orchestrated m io s')
    (e : s'.EscapesWithin n) : s.EscapesWithin (n + 1) := by
  have hn := e.pos
  have t := p.standing nofun
  have ⟨c, a, hr⟩ := o.escapes_paused p.system e
  apply (escapesWithin_executing hs).mpr
  cases a
  case captured =>
    have h := hr.captured hf.persist
    rw [t.cursor] at h
    exact .inl ⟨.inl (p.feedable t nofun h), by omega⟩
  case kept h => exact .inr ⟨p.pauseSnapshot ▸ h, p.resumesWithin t nofun hr⟩

theorem Passed.escapes_resume (p : Passed (s.acceptResume.note q .resume .accepted) m)
    (hs : s.machine.system = .paused) (hc : s.machine.resumeConsumed = false) (hf : io.Succeed)
    (ho : m.exec.ownedByExecutor = false) (o : Orchestrated m io s') (e : s'.EscapesWithin n) :
    s.EscapesWithin (n + 1) := by
  have hn := e.pos
  have t := p.standing nofun
  have hl : loadExecutionSnapshot io.load m.snapshotFile = s.snapshotFile := by
    rw [hf.load]
    exact p.snapshotFile
  refine (escapesWithin_paused hs).mpr ⟨hc, ?_⟩
  obtain ⟨h, rfl⟩ | ⟨snap, h, rfl⟩ := o.of_resuming p.system ho
  case inl =>
    have he := (escapesWithin_stopped (.inl rfl)).mp e
    rw [← hl, h]
    exact ⟨t.cursor ▸ he.left, by omega⟩
  case inr =>
    rw [← hl, h]
    obtain ⟨hx, _⟩ | hx := (escapesWithin_executing rfl).mp e
    · refine ⟨p.feedable t nofun (hx.resolve_right fun h => ?_), by omega⟩
      cases h.left
    · exact absurd rfl hx.left

-- A command brings a state closer to its escape by no more than the frame that it takes.
theorem Accepts.escapesWithin (a : Accepts s io c s₁) (p : Passed (s₁.note q c .accepted) m)
    (b : s.Boundary) (w : m.WellFormed) (hf : io.Succeed)
    (ho : m.machine.system = .resuming → m.exec.ownedByExecutor = false)
    (o : Orchestrated m io s') (e : s'.EscapesWithin n) : s.EscapesWithin (n + 1) := by
  have hn := e.pos
  cases a
  case start hr _ hj hl _ _ =>
    have ⟨_, bj⟩ := b.wellFormed.bound hj
    exact (escapesWithin_ready hr).mpr ⟨Nat.lt_of_lt_of_le hl bj.limit, .inr (by omega)⟩
  case pause hs => exact p.escapes_pause hs hf o e
  case resume hs _ _ hc _ _ => exact p.escapes_resume hs hc hf (ho p.system) o e
  case abort => exact absurd e (o.not_escapes_aborting p.system)
  case clearJob hs _ =>
    have t := p.standing nofun
    have h := o.escapes_ready w p.system e
    have hl : s.exec.cursor < maxSegments := t.cursor ▸ h.left
    cases hs
    case inl hs => exact (escapesWithin_ready hs).mpr ⟨hl, .inr (by omega)⟩
    case inr hs => exact (escapesWithin_stopped hs.symm).mpr ⟨hl, by omega⟩
  case setLocalizationMode hs _ =>
    have t := p.standing (by exact fun h => by cases hs.symm.trans h)
    have h := o.escapes_ready w (p.system.trans hs) e
    exact (escapesWithin_ready hs).mpr ⟨t.cursor ▸ h.left, .inr (by omega)⟩
  case recover hs _ =>
    have t := p.standing nofun
    have h := o.escapes_stopped (.inr p.system) e
    exact (escapesWithin_stopped (.inl hs)).mpr ⟨t.cursor ▸ h.left, by omega⟩

theorem EscapesWithin.mono (h : s.EscapesWithin n) (hn : n ≤ k) : s.EscapesWithin k := by
  simp only [EscapesWithin] at h ⊢
  split at h
  case h_1 => exact ⟨h.left, h.right.imp (fun h => ⟨h.left, by omega⟩) (by omega)⟩
  case h_2 => exact ⟨h.left, by omega⟩
  case h_3 => exact ⟨h.left, by omega⟩
  case h_4 => exact h.imp (fun h => ⟨h.left, by omega⟩) (fun h => ⟨h.left, h.right.mono (by omega)⟩)
  case h_5 => exact h.mono hn
  case h_6 => cases h

theorem tick_escapable (b : s.Boundary) (hb : Benign M i s) (ht : tick i s = .ok s')
    (e : s'.Escapable) : s.Escapable := by
  have ⟨m, ⟨_, he⟩, w, m', _, o, hs⟩ := b.wellFormed.orchestrates ht
  subst hs
  have e : m'.EscapesWithin m.framesLeft := o.framesLeft ▸ e
  cases execute_follows b.wellFormed hb.safe he
  case silent p => exact (p.escapesWithin b w o e).mono p.framesLeft
  case command q _ _ a p hl =>
    have b' : (s.see q).Boundary := { b with wellFormed := b.wellFormed.see }
    have h : s.EscapesWithin (m.framesLeft + 1) :=
      a.escapesWithin p.toPassed b' w hb.files (b.execute_released he) o e
    exact h.mono hl

end State
end Firmware
