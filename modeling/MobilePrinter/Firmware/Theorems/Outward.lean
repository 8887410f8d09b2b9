import MobilePrinter.Firmware.Theorems.Channel
import MobilePrinter.Firmware.Theorems.Markers

namespace Firmware

def MachineStateIpc.unnumbered (shm : MachineStateIpc) : MachineStateIpc :=
  { shm with sequence := 0 }

namespace State

-- What is published of the state.
def outward (s : State) : MachineStateIpc :=
  s.publishIpcState.published.unnumbered

-- The orchestrator finalizes the abort of the state that it is called in.
def EndsAbort (m : State) : Prop :=
  m.machine.system = .aborting ∧
    (m.abortStartedOnce = true ∧ m.exec.abortInProgress = false ∨ m.machine.motionIdle = true)

instance : Decidable (EndsAbort m) :=
  inferInstanceAs (Decidable (_ ∧ _))

def FinalizesAbort (i : TickInput) (s : State) : Prop :=
  match s.execute i with
  | .ok (_, m) => m.EndsAbort
  | .error _   => False

instance : Decidable (FinalizesAbort i s) :=
  match h : s.execute i with
  | .ok (_, m) => decidable_of_iff m.EndsAbort (by simp [FinalizesAbort, h])
  | .error _   => .isFalse (by simp [FinalizesAbort, h])

-- A tick that handles no command has nothing else to publish either: the state has been published
-- before, a job that is submitted is rejected with the text that is published already, a fault is
-- the one that is published already, and the orchestrator finalizes neither a job nor an abort.
structure Quiet (i : TickInput) (s : State) : Prop where
  polled     : s.firstRead = false
  submission : ∀ job ∈ i.job, s.Offered job →
    s.rejection? (job.jobBlob.take job.size.toNat) = some s.ingress.lastRejection
  safety     : (evaluateSafety i.safety).status = .fault → s.machine.system = .fault ∧
    s.machine.safety.state = .fault ∧ s.machine.lastCommandOutcome = .faulted
  unfinished : ¬s.Finishes i
  unaborted  : ¬s.FinalizesAbort i

instance : Decidable (Quiet i s) :=
  decidable_of_iff
    (s.firstRead = false ∧
      (∀ job ∈ i.job, s.Offered job →
        s.rejection? (job.jobBlob.take job.size.toNat) = some s.ingress.lastRejection) ∧
      ((evaluateSafety i.safety).status = .fault → s.machine.system = .fault ∧
        s.machine.safety.state = .fault ∧ s.machine.lastCommandOutcome = .faulted) ∧
      ¬s.Finishes i ∧ ¬s.FinalizesAbort i)
    ⟨fun ⟨h₁, h₂, h₃, h₄, h₅⟩ => ⟨h₁, h₂, h₃, h₄, h₅⟩,
      fun ⟨h₁, h₂, h₃, h₄, h₅⟩ => ⟨h₁, h₂, h₃, h₄, h₅⟩⟩

-- What the counters and the marks of a machine that has been booted say.
structure Coherent (s : State) : Prop where
  marked   : s.Marked
  running  : s.exec.phase = .running → s.history.started = true
  handled  : s.machine.lastCommandSeq ≤ s.lastSeenSeq
  numbered : s.ingress.jobLoaded = true → s.ingress.jobId + 1 = s.nextJobId
  booted   : s.machine.system ≠ .boot

variable {s s' m m' : State} {i : TickInput} {io : FileOutcomes} {r : ExecutionResult}

theorem finalizesAbort_iff (he : s.execute i = .ok (r, m)) : s.FinalizesAbort i ↔ m.EndsAbort := by
  simp [FinalizesAbort, he]

namespace Coherent

theorem accepts (c : s.Coherent) (a : Accepts s io cmd s') (hq : s'.lastSeenSeq = q) :
    (s'.note q cmd .accepted).Coherent := by
  have hm := c.marked.accepts (q := q) a
  have hh : q ≤ s'.lastSeenSeq := UInt32.le_of_eq hq.symm
  cases a
  case start               => exact ⟨hm, fun _ => rfl, hh, c.numbered, nofun⟩
  case pause               => exact ⟨hm, c.running, hh, c.numbered, nofun⟩
  case resume              => exact ⟨hm, c.running, hh, c.numbered, nofun⟩
  case abort               => exact ⟨hm, c.running, hh, c.numbered, nofun⟩
  case clearJob            => exact ⟨hm, nofun, hh, nofun, nofun⟩
  case setLocalizationMode => exact ⟨hm, c.running, hh, c.numbered, c.booted⟩
  case recover             => exact ⟨hm, nofun, hh, c.numbered, nofun⟩

theorem pollCommand (c : s.Coherent) : (s.pollCommand io shm).Coherent := by
  have p : Polled s io (s.pollCommand io shm) := pollCommand_polled shm
  generalize s.pollCommand io shm = s' at p
  have hs {q : UInt32} (hq : s.lastSeenSeq < q) : (s.see q).Coherent :=
    { c with handled := UInt32.le_trans c.handled (UInt32.le_of_lt hq) }
  cases p
  case none              => exact c
  case invalid hq        => exact hs hq
  case rejected hq _     =>
    have c := hs hq
    exact {
      marked   := c.marked.congr History.started_rejected History.loaded_rejected id id
      running  := fun h => History.started_rejected.trans (c.running h)
      handled  := UInt32.le_refl _
      numbered := c.numbered
      booted   := c.booted }
  case accepted hq a     => exact (hs hq).accepts a a.channel.left

theorem carried : Carried Coherent i where
  job w c a      := {
    marked   := .acceptJob a
    running  := fun h => by
      have hj := w.stored.symm.trans a.vacant
      cases hj.symm.trans (w.running h)
    handled  := c.handled
    numbered := fun _ => rfl
    booted   := c.booted }
  armed _ c _    := { c with }
  fault _ c _    := { c with
    marked := c.marked.congr rfl rfl nofun nofun
    booted := nofun }
  run w c a      := by
    obtain ⟨_, b⟩ := w.bound (w.present (by simp [a.executing, SystemState.active]) a.cursor)
    exact { c with
      running := fun _ =>
        c.marked.printing (by rw [a.executing]; rfl) (c.marked.loaded.symm.trans b.loaded) }
  executed _ c e := by
    have hp := congrArg ExecutionContext.phase e.exec_eq
    obtain ⟨hs, hl⟩ := e.marks
    exact { c with
      marked  := c.marked.congr hs hl id id
      running := fun h => hs.trans (c.running (hp.symm.trans h)) }
  scheduled c    := { c with }
  first c        := { c with }
  refused c      := { c with }
  polled c       := { c with }
  sampled c      := { c with }

theorem aborting (c : s.Coherent) (a : Aborting s io s') : s'.Coherent := by
  cases a
  case begun => exact { c with marked := c.marked.congr rfl rfl id id, running := nofun }
  case stale => exact c

theorem pausing (c : s.Coherent) (a : Pausing s io s') : s'.Coherent := by
  cases a
  case captured => exact { c with marked := c.marked.congr rfl rfl id id }
  case kept     => exact c

theorem orchestrated (c : m.Coherent) (w : m.WellFormed) (o : Orchestrated m io m') :
    m'.Coherent := by
  have hm := o.marked c.marked
  cases o
  case draining a _    => exact c.aborting a
  case aborted a _     =>
    have c := c.aborting a
    exact ⟨hm, c.running, c.handled, c.numbered, by rintro ⟨⟩⟩
  case paused a _ _    => exact c.pausing a
  case released a      =>
    have c := c.pausing a
    exact ⟨hm, by rintro ⟨⟩, c.handled, c.numbered, c.booted⟩
  case lost            => exact ⟨hm, c.running, c.handled, c.numbered, by rintro ⟨⟩⟩
  case restored        => exact ⟨hm, by rintro ⟨⟩, c.handled, c.numbered, by rintro ⟨⟩⟩
  case started h _ hc _ =>
    obtain ⟨_, b⟩ := w.bound (w.present (by simp [h, SystemState.active]) hc)
    refine ⟨hm, fun _ => ?_, c.handled, c.numbered, c.booted⟩
    exact c.marked.printing (by rw [h]; rfl) (c.marked.loaded.symm.trans b.loaded)
  case continued       => exact { c with }
  case completed       =>
    refine ⟨hm, by rintro ⟨⟩, c.handled, c.numbered, ?_⟩
    rw [completed_system]
    split
    case isTrue  => rintro ⟨⟩
    case isFalse => exact c.booted
  all_goals exact c

theorem tick (c : s.Coherent) (w : s.WellFormed) (h : Firmware.tick i s = .ok s') : s'.Coherent :=
  carried.tick w c.pollCommand h (fun w o c => c.orchestrated w o) fun c => { c with }

end Coherent

theorem outward_requestFault (h : s.machine.system = .fault) (hf : s.machine.safety.state = .fault)
    (ho : s.machine.lastCommandOutcome = .faulted) :
    (s.requestFault code).outward = s.outward := by
  simp [outward, publishIpcState, requestFault, record, h, hf, ho]

theorem relayed_outward (hf : (evaluateSafety i.safety).status = .fault →
      v.systemState = .fault ∧ v.safetyState = .fault ∧ v.lastCommandOutcome = .faulted) :
    Relayed (·.outward = v) i where
  armed _ h _    := h
  run _ h _      := h
  executed _ h _ := h
  fault _ h he   := by
    subst h
    have ⟨hs, hf, ho⟩ := hf he
    exact outward_requestFault hs hf ho

theorem pollJobIngress_outward (hf : s.firstRead = false) (h : ∀ job ∈ ipc, s.Offered job →
    s.rejection? (job.jobBlob.take job.size.toNat) = some s.ingress.lastRejection) :
    (s.pollJobIngress ipc).outward = s.outward := by
  by_cases ho : ∃ job ∈ ipc, s.Offered job
  case neg => rw [pollJobIngress_of_not_offered hf fun job hj h => ho ⟨job, hj, h⟩]
  case pos =>
    obtain ⟨job, rfl, ho⟩ := ho
    rw [pollJobIngress_of_rejection hf ho (h job rfl ho)]
    rfl

theorem pollCommand_of_unheard (io : FileOutcomes) (h : ∀ c, ¬s.Hears shm c) :
    ∃ q, s.pollCommand io shm = s.see q := by
  cases pollCommand_cases s io shm
  case inl hp =>
    cases hp.left
    case inl hp => exact ⟨s.lastSeenSeq, hp⟩
    case inr hp =>
      have ⟨q, _, hp⟩ := hp
      exact ⟨q, hp⟩
  case inr hp =>
    have ⟨_, _, hh, _⟩ := hp
    exact absurd hh (h _)

theorem execute_outward (w : s.WellFormed) (hf : s.firstRead = false)
    (hh : ∀ c, ¬s.Hears i.command c)
    (hj : ∀ job ∈ i.job, s.Offered job →
      s.rejection? (job.jobBlob.take job.size.toNat) = some s.ingress.lastRejection)
    (hs : (evaluateSafety i.safety).status = .fault → s.machine.system = .fault ∧
      s.machine.safety.state = .fault ∧ s.machine.lastCommandOutcome = .faulted)
    (he : s.execute i = .ok (r, m)) : m.outward = s.outward := by
  have ⟨n, hp⟩ := pollCommand_of_unheard i.io hh
  have hj : ((s.pollCommand i.io i.command).pollJobIngress i.job).outward = s.outward := by
    rw [hp]
    exact pollJobIngress_outward (s := s.see n) hf fun job hm ho => hj job hm { ho with }
  exact (relayed_outward hs).execute w hj he

theorem Orchestrated.of_endsAbort (o : Orchestrated m io m') (h : m.EndsAbort) :
    m'.machine.system = .idle := by
  have ⟨hs, he⟩ := h
  cases o
  case aborted             => rfl
  case draining hm a hb    =>
    cases a
    case begun hf => simp [hm, hf] at he
    case stale    => simp [hm, hb] at he
  case continued hf _      => simp [hs, SystemState.finishing] at hf
  case completed hf _ _    => simp [hs, SystemState.finishing] at hf
  all_goals simp_all

theorem Aborting.endsAbort (a : Aborting m io b) (h : m.machine.system = .aborting)
    (hd : b.exec.abortInProgress = true → m.machine.motionIdle = true) : m.EndsAbort := by
  refine ⟨h, ?_⟩
  cases a
  case begun => exact .inr (hd rfl)
  case stale hl =>
    cases hb : m.exec.abortInProgress
    case false => exact .inl ⟨hl, rfl⟩
    case true  => exact .inr (hd hb)

theorem completed_outward {p : Heap.Ptr} :
    (s.completed p).outward.layer = 0 ∧ (s.completed p).outward.segment = 0 :=
  ⟨rfl, rfl⟩

-- The orchestrator publishes the end of a job and of an abort, and nothing else.
theorem Orchestrated.outward_iff (o : Orchestrated m io m') (c : m.Coherent)
    (hr : m.machine.system ≠ .resuming) : m'.outward = m.outward ↔
      ¬(m.machine.system.finishing = true ∧ m.Completes) ∧ ¬m.EndsAbort where
  mp h := by
    constructor
    · intro hc
      have ⟨n, p, _, hm⟩ := o.of_completes hc.left hc.right
      have ⟨hl, hs⟩ := completed_outward (s := m.tracked n) (p := p)
      rw [← hm, h] at hl hs
      cases c.marked.started.mpr (c.running hc.right.left)
      case inl hn => exact hn hl
      case inr hn => exact hn hs
    · intro ha
      have hs : m'.machine.system = m.machine.system := congrArg MachineStateIpc.systemState h
      cases ha.left.symm.trans (hs.symm.trans (o.of_endsAbort ha))
  mpr h := by
    cases o
    case draining a _     => cases a <;> rfl
    case aborted hs a hd  => exact absurd (a.endsAbort hs hd) h.right
    case paused a _ _     => cases a <;> rfl
    case released a       => cases a <;> rfl
    case lost hs _ _      => exact absurd hs hr
    case restored hs _ _  => exact absurd hs hr
    case completed hs hc _ => exact absurd ⟨hs, hc⟩ h.left
    all_goals rfl

-- What is recorded of the submissions, and the number of the last command.
def Recorded (g : JobIngressState) (q : UInt32) (s : State) : Prop :=
  s.ingress = g ∧ s.machine.lastCommandSeq = q

theorem relayed_recorded : Relayed (Recorded g q) i where
  armed _ h _    := h
  fault _ h _    := h
  run _ h _      := h
  executed _ h _ := h

theorem Orchestrated.recorded (o : Orchestrated m io m') (h : m.Recorded g q) :
    m'.Recorded g q := by
  cases o
  case draining a _ => cases a <;> exact h
  case aborted a _  => cases a <;> exact h
  case paused a _ _ => cases a <;> exact h
  case released a   => cases a <;> exact h
  all_goals exact h

theorem WellFormed.tick_recorded (w : s.WellFormed) (h : Firmware.tick i s = .ok s') :
    s'.Recorded ((s.pollCommand i.io i.command).pollJobIngress i.job).ingress
      (s.pollCommand i.io i.command).machine.lastCommandSeq := by
  refine relayed_recorded.tick w ⟨rfl, ?_⟩ h fun _ o => o.recorded
  have p := pollJobIngress_ingested (s := s.pollCommand i.io i.command) i.job
  generalize (s.pollCommand i.io i.command).pollJobIngress i.job = s' at p
  cases p <;> rfl

theorem pollCommand_of_heard (io : FileOutcomes) (h : s.Hears shm c) :
    s.lastSeenSeq < (s.pollCommand io shm).machine.lastCommandSeq := by
  cases pollCommand_cases s io shm
  case inl hp => exact absurd h (hp.right c)
  case inr hp =>
    have ⟨cmd, hn, _, hp⟩ := hp
    rw [hp, handleCommand_eq]
    exact hn

theorem execute_fault (hf : (evaluateSafety i.safety).status = .fault)
    (he : s.execute i = .ok (r, m)) : m.machine.system = .fault ∧
      m.machine.safety.state = .fault ∧ m.machine.lastCommandOutcome = .faulted := by
  have ⟨_, f, hm, _⟩ := execute_ok he
  have ha : s.arm i = (s.prepare i).requestFault 0xF001 := by
    rw [arm, checkSafety_of_fault hf]
    exact armExecution_of_not_runnable fun a => by cases a.executing
  rw [hm, ha]
  exact ⟨rfl, rfl, rfl⟩

theorem WellFormed.tick_published (w : s.WellFormed) (h : Firmware.tick i s = .ok s') :
    s'.firstRead = false ∧ s'.published.unnumbered = s'.outward := by
  have ⟨_, ⟨_, he⟩, _, _, _, o, hs⟩ := w.orchestrates h
  rw [hs]
  exact ⟨o.channels.firstRead.trans (execute_firstRead he), rfl⟩

end State

open State

theorem Booted.coherent (b : Booted s) : s.Coherent := by
  have hm := b.marked
  have ⟨_, b⟩ := b.boots
  cases b <;> exact ⟨hm, nofun, UInt32.le_refl _, nofun, nofun⟩

theorem Reachable.coherent (r : Reachable s) : s.Coherent := by
  cases r
  case intro b e => exact b.wellFormed.invariant (fun w c h => c.tick w h) b.coherent e

theorem Reachable.published (r : Reachable s) : s.firstRead = true ∧ s.published = {} ∨
    s.firstRead = false ∧ s.published.unnumbered = s.outward := by
  cases r
  case intro b e =>
    refine b.wellFormed.invariant (I := fun s => s.firstRead = true ∧ s.published = {} ∨
      s.firstRead = false ∧ s.published.unnumbered = s.outward)
      (fun w _ h => .inr (w.tick_published h)) (.inl ?_) e
    have ⟨_, b⟩ := b.boots
    cases b <;> exact ⟨rfl, rfl⟩

theorem Reachable.tick (r : Reachable s) (h : tick i s = .ok s') : Reachable s' := by
  cases r
  case intro b e => exact ⟨b, e.concat h⟩

theorem Reachable.of_tick_outward (r : Reachable s) (h : Firmware.tick i s = .ok s')
    (he : s'.published.unnumbered = s.published.unnumbered) :
    s.firstRead = false ∧ (∀ c, ¬s.Hears i.command c) ∧
    (∀ job ∈ i.job, s.Offered job →
      s.rejection? (job.jobBlob.take job.size.toNat) = some s.ingress.lastRejection) ∧
    ((evaluateSafety i.safety).status = .fault → s.machine.system = .fault ∧
      s.machine.safety.state = .fault ∧ s.machine.lastCommandOutcome = .faulted) := by
  have w := r.wellFormed
  have c := r.coherent
  have c' := (r.tick h).coherent
  have hs' := (w.tick_published h).right.symm.trans he
  cases r.published
  case inl hp =>
    rw [hp.right] at hs'
    exact absurd (congrArg MachineStateIpc.systemState hs') c'.booted
  case inr hp =>
    have hs := hs'.trans hp.right
    have ⟨hg, hq⟩ := w.tick_recorded h
    have hh (c₁ : CommandType) : ¬s.Hears i.command c₁ := by
      intro hc
      have hn := pollCommand_of_heard i.io hc
      have hl : s'.machine.lastCommandSeq = s.machine.lastCommandSeq :=
        congrArg MachineStateIpc.lastCommandSeq hs
      rw [← hq, hl] at hn
      exact UInt32.not_lt.mpr c.handled hn
    refine ⟨hp.left, hh, fun job hj ho => ?_, fun hf => ?_⟩
    · have ⟨n, hn⟩ := pollCommand_of_unheard i.io hh
      have ho : (s.see n).Offered job := { ho with }
      rw [hn, hj] at hg
      cases hr : s.rejection? (job.jobBlob.take job.size.toNat)
      case some text =>
        rw [pollJobIngress_of_rejection (s := s.see n) hp.left ho hr] at hg
        have ht : s'.ingress.lastRejection = s.ingress.lastRejection :=
          congrArg MachineStateIpc.lastJobRejection hs
        rw [← ht, hg]
        rfl
      case none =>
        rw [(ho.ingests hp.left hr).pollJobIngress] at hg
        have hl : s'.ingress.jobLoaded = s.ingress.jobLoaded :=
          congrArg MachineStateIpc.jobLoaded hs
        have hi : s'.ingress.jobId = s.ingress.jobId := congrArg MachineStateIpc.loadedJobId hs
        rw [hg] at hl hi
        have hn : s.nextJobId + 1 = s.nextJobId := by
          have hc := c.numbered hl.symm
          rwa [← hi] at hc
        simp at hn
    · have ⟨m, ⟨_, he⟩, _, _, _, o, hs'⟩ := w.orchestrates h
      have ⟨hm, hf, ho⟩ := execute_fault hf he
      rw [hs', o.of_stopped (.inl hm)] at hs
      exact ⟨(congrArg MachineStateIpc.systemState hs).symm.trans hm,
        (congrArg MachineStateIpc.safetyState hs).symm.trans hf,
        (congrArg MachineStateIpc.lastCommandOutcome hs).symm.trans ho⟩

-- A tick shows nothing new exactly if it hears no command and is quiet.
theorem Reachable.tick_outward_iff (r : Reachable s) (h : Firmware.tick i s = .ok s') :
    s'.published.unnumbered = s.published.unnumbered ↔
      (∀ c, ¬s.Hears i.command c) ∧ s.Quiet i := by
  have w := r.wellFormed
  have ⟨m, ⟨_, he⟩, wm, m', _, o, hs⟩ := w.orchestrates h
  have hs' : s'.published.unnumbered = m'.outward := by
    rw [hs]
    rfl
  have cm := Coherent.carried.execute w r.coherent.pollCommand he
  -- What is behind the polls is settled by the orchestrator.
  have ho (hf : s.firstRead = false) (hm : m.outward = s.outward) :
      s'.published.unnumbered = s.published.unnumbered ↔ ¬s.Finishes i ∧ ¬s.FinalizesAbort i := by
    have hp := (r.published.resolve_left fun hp => by simp [hp.left] at hf).right
    have hr : m.machine.system ≠ .resuming := by
      have hm : m.machine.system = s.machine.system := congrArg MachineStateIpc.systemState hm
      exact hm ▸ r.boundary.notResuming
    rw [hs', hp, ← hm, o.outward_iff cm hr, finishes_iff he, finalizesAbort_iff he]
  constructor
  case mp =>
    intro hp
    have ⟨hf, hh, hj, hx⟩ := r.of_tick_outward h hp
    have hn := (ho hf (execute_outward w hf hh hj hx he)).mp hp
    exact ⟨hh, hf, hj, hx, hn.left, hn.right⟩
  case mpr =>
    intro ⟨hh, q⟩
    have hm := execute_outward w q.polled hh q.submission q.safety he
    exact (ho q.polled hm).mpr ⟨q.unfinished, q.unaborted⟩

end Firmware
