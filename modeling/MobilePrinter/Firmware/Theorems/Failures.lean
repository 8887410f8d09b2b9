import MobilePrinter.Firmware.Theorems.Resume

open Trace Transition

namespace Firmware

def Event.feeds : Event → Bool
  | .motionSubmitted _ _ => true
  | _                    => false

-- A command is passed on to the motion controller only behind an accepted CLEAR_JOB.
def FedAfterClear (e : Event) (older : History) : Prop :=
  e.feeds = true → ∃ e' ∈ older, e'.accepts .clearJob = true

namespace State

-- The watchdog of the motion controller fires in one of its polls: in the executor, which reports
-- FAULTED, or in `main`, which drops the result.
def DetectsFailure (i : TickInput) (s : State) : Prop :=
  match (s.arm i).executeStep (evaluateSafety i.safety) with
  | .ok (r, m) =>
    r = .faulted ∨ (MotionController.poll m.machine.motionIdle m.motion).1 = .faulted
  | .error _   => False

instance : Decidable (DetectsFailure i s) :=
  match h : (s.arm i).executeStep (evaluateSafety i.safety) with
  | .ok (r, m) =>
    decidable_of_iff
      (r = .faulted ∨ (MotionController.poll m.machine.motionIdle m.motion).1 = .faulted)
      (by simp [DetectsFailure, h])
  | .error _   => .isFalse (by simp [DetectsFailure, h])

-- What a tick in which a failure is detected has to achieve: it ends in FAULT, and from then on no
-- command is passed on until a CLEAR_JOB is accepted.
def FailureStops (i : TickInput) (s : State) : Prop :=
  s.DetectsFailure i → ∀ s₁, tick i s = .ok s₁ → s₁.machine.system = .fault ∧
    ∀ is s₂ recent, Run tick s₁ is s₂ → s₂.history = recent ++ s₁.history →
      ∀ e older, e :: older <:+ recent → FedAfterClear e older

-- The tick leads to FAULT for a reason of its own: the safety inputs, a fault that is neither
-- recovered from nor cleared, or a RESUME without a snapshot to restore.
def FaultsAnyway (i : TickInput) (s : State) : Prop :=
  (evaluateSafety i.safety).status = .fault ∨
  (s.pollCommand i.io i.command).machine.system = .fault ∨
  ((s.pollCommand i.io i.command).machine.system = .resuming ∧
    loadExecutionSnapshot i.io.load s.snapshotFile = none)

instance : Decidable (FaultsAnyway i s) :=
  inferInstanceAs (Decidable (_ ∨ _ ∨ _))

variable {s s' m m' : State} {i : TickInput} {io : FileOutcomes} {r : ExecutionResult}

theorem Orchestrated.of_fault (o : Orchestrated s io s') (h : s'.machine.system = .fault) :
    s.machine.system = .fault ∨ (s.machine.system = .resuming ∧
      loadExecutionSnapshot io.load s.snapshotFile = none) := by
  cases o
  case stopped            => exact .inl h
  case draining hs _ a _  => cases (a.system.trans hs).symm.trans h
  case aborted            => cases h
  case paused hs a _ _    => cases (a.system.trans hs).symm.trans h
  case released hs a      => cases (a.system.trans hs).symm.trans h
  case lost hs _ hl       => exact .inr ⟨hs, hl⟩
  case restored           => cases h
  case held hs _          => cases hs.symm.trans h
  case started            => exact .inl h
  case continued          => exact .inl h
  case completed          =>
    rw [completed_system, tracked_system] at h
    split at h
    case isTrue  => cases h
    case isFalse => exact .inl h

theorem Boundary.tick_fault_iff (b : s.Boundary) (ht : Firmware.tick i s = .ok s') :
    s'.machine.system = .fault ↔ s.FaultsAnyway i := by
  have ⟨m, ⟨_, he⟩, _, m', _, o, hs⟩ := b.wellFormed.orchestrates ht
  have hm := execute_system he
  have hs : s'.machine.system = m'.machine.system := by
    rw [hs]
    rfl
  rw [hs]
  by_cases hf : (evaluateSafety i.safety).status = .fault
  case pos =>
    rw [arm_system_fault hf] at hm
    rw [o.of_stopped (.inl hm)]
    exact iff_of_true hm (.inl hf)
  case neg =>
    rw [arm_system hf] at hm
    constructor
    case mp =>
      intro h
      cases o.of_fault h
      case inl h => exact .inr (.inl (hm.symm.trans h))
      case inr h =>
        have u := execute_untouched he (congrArg SystemState.suspended h.left)
        exact .inr (.inr ⟨hm.symm.trans h.left, u.snapshotFile ▸ h.right⟩)
    case mpr =>
      intro h
      cases h.resolve_left hf
      case inl h => rw [o.of_stopped (.inl (hm.trans h)), hm, h]
      case inr h =>
        have hr := hm.trans h.left
        have u := execute_untouched he (congrArg SystemState.suspended hr)
        cases o.of_resuming hr (b.execute_released he hr)
        case inl hl => rw [hl.right]; rfl
        case inr hl =>
          have ⟨_, hl, _⟩ := hl
          rw [u.snapshotFile, h.right] at hl
          cases hl

-- The machine has faulted after the history `h₀`. Since then it has either been cleared or has not
-- left the fault.
def Halted (h₀ : History) (sys : SystemState) (h : History) : Prop :=
  ∃ recent, h = recent ++ h₀ ∧ Obeys FedAfterClear recent ∧
    ((sys = .fault ∨ sys = .recovering) ∨ ∃ e ∈ recent, e.accepts .clearJob = true)

variable {h₀ h : History} {sys sys' : SystemState} {e : Event}

theorem Halted.cons (r : Halted h₀ sys h)
    (he : e.feeds = true → ¬(sys = .fault ∨ sys = .recovering))
    (hs : sys = .fault ∨ sys = .recovering →
      e.accepts .clearJob = true ∨ sys' = .fault ∨ sys' = .recovering) :
    Halted h₀ sys' (e :: h) := by
  have ⟨recent, hr, ho, hc⟩ := r
  refine ⟨e :: recent, by rw [hr, List.cons_append], ⟨fun hf => hc.resolve_left (he hf), ho⟩, ?_⟩
  cases hc
  case inl hc =>
    cases hs hc
    case inl ha => exact .inr ⟨e, .head _, ha⟩
    case inr hs => exact .inl hs
  case inr hc =>
    have ⟨e', hm, ha⟩ := hc
    exact .inr ⟨e', .tail _ hm, ha⟩

theorem Accepts.halted (a : Accepts s io c s') (h : Halted h₀ s.machine.system s.history) :
    Halted h₀ (s'.note q c .accepted).machine.system (s'.note q c .accepted).history := by
  cases a
  case start hs _ _ _ _ _    => exact h.cons nofun (by simp [hs])
  case pause hs              => exact h.cons nofun (by simp [hs])
  case resume hs _ _ _ _ _   => exact h.cons nofun (by simp [hs])
  case abort hs              => exact h.cons nofun (by cases hs <;> simp [*])
  case clearJob              => exact h.cons nofun fun _ => .inl rfl
  case setLocalizationMode   => exact h.cons nofun .inr
  case recover               => exact h.cons nofun fun _ => .inr (.inr rfl)

theorem kept_halted : Kept (fun s => Halted h₀ s.machine.system s.history) i where
  accepted _ h a := a.halted h
  job _ h _      := h.cons nofun .inr
  armed _ h _    := h
  fault _ h _    := h.cons nofun fun _ => .inr (.inl rfl)
  run _ h _      := h
  executed _ h e :=
    e.keeps_history (P := Halted h₀ _) h fun hs _ _ _ => h.cons (by simp [hs.right.left]) .inr
  rejected h     := h.cons nofun .inr

theorem Orchestrated.halted (o : Orchestrated s io s')
    (h : Halted h₀ s.machine.system s.history) : Halted h₀ s'.machine.system s'.history := by
  cases o
  case draining a _ =>
    cases a
    case begun => exact h.cons nofun .inr
    case stale => exact h
  case aborted hs a _ =>
    cases a
    case begun =>
      have h : Halted h₀ .aborting (.abortStarted :: s.history) := h.cons nofun (by simp [hs])
      exact h.cons nofun nofun
    case stale => exact h.cons nofun (by simp [hs])
  case paused a _ _ =>
    cases a
    case captured => exact h.cons nofun .inr
    case kept     => exact h
  case released a =>
    cases a
    case captured => exact h.cons nofun .inr
    case kept     => exact h
  case lost             => exact h.cons nofun fun _ => .inr (.inl rfl)
  case restored hs _ _  => exact h.cons nofun (by simp [hs])
  case completed hs _ _ =>
    refine h.cons nofun fun hc => ?_
    cases hc <;> simp [*, SystemState.finishing] at hs
  all_goals exact h

theorem tick_halted (w : s.WellFormed) (h : Halted h₀ s.machine.system s.history)
    (ht : Firmware.tick i s = .ok s') : Halted h₀ s'.machine.system s'.history :=
  kept_halted.tick w h ht fun _ o => o.halted

theorem WellFormed.run_halted (w : s.WellFormed) (hf : s.machine.system = .fault)
    (e : Run Firmware.tick s is s') (hs : s'.history = recent ++ s.history) :
    ∀ e older, e :: older <:+ recent → FedAfterClear e older := by
  have h₀ : Halted s.history s.machine.system s.history := ⟨[], rfl, trivial, .inl (.inl hf)⟩
  have ⟨recent', hr, ho, _⟩ := WellFormed.invariant tick_halted w h₀ e
  have hr : recent = recent' := List.append_cancel_right (hs.symm.trans hr)
  exact obeys_iff.mp (hr ▸ ho)

theorem Boundary.failureStops_iff (b : s.Boundary) (ht : Firmware.tick i s = .ok s') :
    s.FailureStops i ↔ (s.DetectsFailure i → s.FaultsAnyway i) := by
  apply forall_congr'
  intro _
  constructor
  case mp  => exact fun h => (b.tick_fault_iff ht).mp (h _ ht).left
  case mpr =>
    intro h s₁ ht₁
    have hf := (b.tick_fault_iff ht₁).mpr h
    refine ⟨hf, fun is s₂ recent e hs => ?_⟩
    exact (b.wellFormed.tick ht₁).run_halted hf e hs

end State

open State

-- A motion failure stops the job in all ticks of a run exactly if every tick in which one is
-- detected faults for another reason, because no result of the motion controller raises a fault.
theorem failures_stop_iff_faults_anyway (b : Booted s₀) :
    Along tick FailureStops s₀ is ↔
      Along tick (fun i s => s.DetectsFailure i → s.FaultsAnyway i) s₀ is :=
  along_congr Boundary.failureStops_iff Boundary.tick b.boundary

-- The watchdog fires in the tick in which the guard is opened.
theorem failures_stop_iff_faults_anyway_guard :
    ∃ s₀, Booted s₀ ∧ Along tick FailureStops s₀
      [{}, .submit 1 3, .issue 1 1, {
        safety := { guardOpen := true }
        spin   := [{ callbacks := [.motionStatus true 0 0 1], now := 6000 }] }] := by
  have ⟨s₀, hb, h⟩ : ∃ s₀, boot {} none = .ok s₀ ∧
      Along tick (fun i s => s.DetectsFailure i → s.FaultsAnyway i) s₀
        [{}, .submit 1 3, .issue 1 1, {
          safety := { guardOpen := true }
          spin   := [{ callbacks := [.motionStatus true 0 0 1], now := 6000 }] }] :=
    ⟨_, rfl, by decide +kernel⟩
  exact ⟨s₀, ⟨_, _, hb⟩, failures_stop_iff_faults_anyway ⟨_, _, hb⟩ |>.mpr h⟩

-- The watchdog fires, and the job goes on.
theorem failures_stop_fails : ¬∀ i s, Reachable s → s.FailureStops i := by
  intro hc
  have ⟨s₀, hb, h⟩ : ∃ s₀, boot {} none = .ok s₀ ∧
      Reaches tick (fun s =>
        s.DetectsFailure { spin := [{ callbacks := [.motionStatus true 0 0 1], now := 6000 }] } ∧
        Yields (·.machine.system = .executingPrint)
          (tick { spin := [{ callbacks := [.motionStatus true 0 0 1], now := 6000 }] } s))
        s₀ [{}, .submit 1 3, .issue 1 1] :=
    ⟨_, rfl, by decide +kernel⟩
  have ⟨s, e, hd, hy⟩ := h.run
  have ⟨s', ht, hs⟩ := hy.ok
  have hf := (hc _ s (.intro ⟨_, _, hb⟩ e) hd s' ht).left
  cases hs.symm.trans hf

end Firmware
