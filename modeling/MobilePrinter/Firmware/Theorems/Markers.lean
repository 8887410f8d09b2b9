import MobilePrinter.Firmware.Theorems.Orchestration

namespace Firmware

namespace History

-- A START has been accepted, and since then the job has neither been completed nor cleared, nor has
-- another one been accepted.
def started : History → Bool
  | []                                       => false
  | .commandHandled _ .start .accepted :: _    => true
  | .commandHandled _ .clearJob .accepted :: _ => false
  | .jobAccepted _ _ :: _                      => false
  | .finalized .normal :: _                    => false
  | _ :: h                                     => started h

-- A job has been accepted and has not been cleared since.
def loaded : History → Bool
  | []                                         => false
  | .commandHandled _ .clearJob .accepted :: _ => false
  | .jobAccepted _ _ :: _                      => true
  | _ :: h                                     => loaded h

@[simp]
theorem started_rejected {h : History} :
    started (.commandHandled q c .rejected :: h) = h.started := by
  cases c <;> rfl

@[simp]
theorem loaded_rejected {h : History} :
    loaded (.commandHandled q c .rejected :: h) = h.loaded := by
  cases c <;> rfl

end History

def SystemState.printing : SystemState → Bool
  | .executingPrint | .paused | .resuming => true
  | _                                     => false

-- What the marks of a job say about what has been done, in each state of the machine.
structure Marks (job : JobContext) (jobLoaded : Bool) (system : SystemState) (h : History) :
    Prop where
  started  : (job.layer ≠ 0 ∨ job.segment ≠ 0) ↔ h.started = true
  loaded   : jobLoaded = h.loaded
  ready    : system = .ready → h.started = false
  printing : system.printing = true → h.loaded = true → h.started = true

namespace Marks

variable {job : JobContext} {system system' : SystemState} {h h' : History}

theorem congr (m : Marks job jobLoaded system h) (hs : h'.started = h.started)
    (hl : h'.loaded = h.loaded) (hr : system' = .ready → system = .ready)
    (hp : system'.printing = true → system.printing = true) : Marks job jobLoaded system' h' where
  started     := hs ▸ m.started
  loaded      := hl ▸ m.loaded
  ready hs'   := hs.trans (m.ready (hr hs'))
  printing hs' := by rw [hs, hl]; exact m.printing (hp hs')

end Marks

namespace State

def Marked (s : State) : Prop :=
  Marks s.machine.job s.ingress.jobLoaded s.machine.system s.history

variable {s s' : State} {i : TickInput} {io : FileOutcomes}

theorem Marked.unstarted (hj : s.machine.job.layer = 0 ∧ s.machine.job.segment = 0)
    (hl : s.ingress.jobLoaded = s.history.loaded) (hs : s.history.started = false)
    (hp : s.machine.system.printing = true → s.history.loaded = false) : s.Marked where
  started        := by simp [hj, hs]
  loaded         := hl
  ready _        := hs
  printing hs hl := absurd hl (by simp [hp hs])

theorem acceptStart_started :
    s.acceptStart.machine.job.layer ≠ 0 ∨ s.acceptStart.machine.job.segment ≠ 0 := by
  simp only [acceptStart]
  grind

theorem Marked.accepts (m : s.Marked) (a : Accepts s io c s') :
    (s'.note q c .accepted).Marked := by
  cases a
  case start               =>
    exact ⟨iff_of_true acceptStart_started rfl, m.loaded, nofun, fun _ _ => rfl⟩
  case pause h             => exact m.congr rfl rfl nofun fun _ => by rw [h]; rfl
  case resume h _ _ _ _ _  => exact m.congr rfl rfl nofun fun _ => by rw [h]; rfl
  case abort               => exact m.congr rfl rfl nofun nofun
  case clearJob            => exact .unstarted ⟨rfl, rfl⟩ rfl rfl nofun
  case setLocalizationMode => exact m.congr rfl rfl id id
  case recover             => exact m.congr rfl rfl nofun nofun

theorem Marked.acceptJob (a : s.Submittable blob) : (s.acceptJob blob q).Marked := by
  refine .unstarted ⟨rfl, rfl⟩ rfl rfl fun h => ?_
  cases (congrArg SystemState.printing a.ready).symm.trans h

theorem Executed.marks {f : Feed RosMotion} (e : s.Executed safety f) :
    (s.withFeed f).history.started = s.history.started ∧
      (s.withFeed f).history.loaded = s.history.loaded :=
  e.keeps_history (P := fun h => History.started h = _ ∧ History.loaded h = _) ⟨rfl, rfl⟩
    fun _ _ _ _ => ⟨rfl, rfl⟩

theorem kept_marked : Kept Marked i where
  accepted _ m a := m.accepts a
  rejected m     := m.congr History.started_rejected History.loaded_rejected id id
  job _ _ a      := .acceptJob a
  armed _ m _    := m
  fault _ m _    := m.congr rfl rfl nofun nofun
  run _ m _      := m
  executed _ m e := m.congr e.marks.left e.marks.right id id

theorem Aborting.marked (a : Aborting s io s') (m : s.Marked) : s'.Marked := by
  cases a
  case begun => exact m.congr rfl rfl id id
  case stale => exact m

theorem Pausing.marked (a : Pausing s io s') (m : s.Marked) : s'.Marked := by
  cases a
  case captured => exact m.congr rfl rfl id id
  case kept     => exact m

theorem completed_printing {p : Heap.Ptr} (h : s.machine.system.finishing = true) :
    (s.completed p).machine.system.printing ≠ true := by
  rw [completed_system]
  split
  case isTrue     => nofun
  case isFalse hs =>
    revert h hs
    cases s.machine.system <;> simp [SystemState.finishing, SystemState.printing]

theorem Orchestrated.marked (o : Orchestrated s io s') (m : s.Marked) : s'.Marked := by
  cases o
  case draining a _    => exact a.marked m
  case aborted a _     =>
    have m := a.marked m
    exact ⟨m.started, m.loaded, nofun, nofun⟩
  case paused a _ _    => exact a.marked m
  case released a      => exact a.marked m
  case lost            => exact m.congr rfl rfl nofun nofun
  case restored h _ _  => exact m.congr rfl rfl nofun fun _ => by rw [h]; rfl
  case completed h _ _ =>
    exact .unstarted ⟨rfl, rfl⟩ m.loaded rfl fun hp => absurd hp (completed_printing h)
  all_goals exact m

theorem WellFormed.tick_marked (w : s.WellFormed) (m : s.Marked) (h : Firmware.tick i s = .ok s') :
    s'.Marked :=
  kept_marked.tick w m h fun _ o m => o.marked m

-- What is published shows the machine.
structure Shown (s : State) : Prop where
  systemState        : s.published.systemState = s.machine.system
  paused             : s.published.paused = (s.machine.system == .paused)
  layer              : s.published.layer = s.machine.job.layer
  segment            : s.published.segment = s.machine.job.segment
  jobLoaded          : s.published.jobLoaded = s.ingress.jobLoaded
  lastCommandSeq     : s.published.lastCommandSeq = s.machine.lastCommandSeq
  lastCommandOutcome : s.published.lastCommandOutcome = s.machine.lastCommandOutcome

theorem tick_shown (h : Firmware.tick i s = .ok s') : s'.Shown := by
  have ⟨_, _, m', t⟩ := tick_ok h
  have ⟨_, hp⟩ := settle_ended (s := m'.sampleMotionIdle)
  rw [t.settle.trans hp]
  exact ⟨rfl, rfl, rfl, rfl, rfl, rfl, rfl⟩

end State

open State

theorem Booted.silent (b : Booted s) : s.published = {} ∧ s.history = [] := by
  have ⟨_, b⟩ := b.boots
  cases b <;> exact ⟨rfl, rfl⟩

theorem Reachable.shown (r : Reachable s) : s.Shown ∨ s.published = {} := by
  cases r
  case intro b e =>
    exact e.invariant (I := fun s => s.Shown ∨ s.published = {})
      (fun _ h => .inl (tick_shown h)) (.inr b.silent.left)

theorem Booted.marked (b : Booted s) : s.Marked := by
  have ⟨_, b⟩ := b.boots
  cases b <;> exact .unstarted ⟨rfl, rfl⟩ rfl rfl fun _ => rfl

theorem Reachable.marked (r : Reachable s) : s.Marked := by
  cases r
  case intro b e => exact b.wellFormed.invariant (fun w m h => w.tick_marked m h) b.marked e

end Firmware
