import MobilePrinter.Firmware.SafeTravelRules
import MobilePrinter.Firmware.Theorems.Orchestration

namespace Firmware

def SystemState.sound : SystemState → Bool
  | .fault | .recovering => false
  | _                    => true

theorem SystemState.sound_iff {system : SystemState} :
    system.sound = true ↔ ¬(system = .fault ∨ system = .recovering) := by
  cases system <;> decide

theorem SystemState.sound_of_finishing {system : SystemState} (h : system.finishing = true) :
    system.sound = true := by
  revert h
  cases system <;> decide

namespace State

def SafetyAgrees (s : State) : Prop :=
  s.machine.safety.state = .fault ↔ s.machine.system = .fault ∨ s.machine.system = .recovering

instance : Decidable (SafetyAgrees s) :=
  inferInstanceAs (Decidable (_ ↔ _))

-- Outside of FAULT and RECOVERING nothing but the printed volume restricts the travel.
structure TravelAgrees (s : State) : Prop where
  lateral : ∀ {R : Type} [LE R] [DecidableLE R] (narrow : R → R) (v : PrintedVolume R) (z : R),
    s.machine.system ≠ .fault → s.machine.system ≠ .recovering →
    SafeTravelRules.canLateral narrow s.machine v z = v.lateralSafe (narrow z)
  descend : ∀ {R : Type} [LT R] [DecidableLT R] (v : PrintedVolume R) (x y : UInt32) (z : R),
    s.machine.system ≠ .fault → s.machine.system ≠ .recovering →
    SafeTravelRules.canDescend s.machine v x y z = (v.maxHeight x y).map fun h => decide (z > h)

-- The tick hands a CLEAR_JOB to a machine in FAULT or RECOVERING and does not raise another fault.
def ClearsFault (i : TickInput) (s : State) : Prop :=
  (s.machine.system = .fault ∨ s.machine.system = .recovering) ∧ s.Hears i.command .clearJob ∧
    (evaluateSafety i.safety).status ≠ .fault

instance : Decidable (ClearsFault i s) :=
  inferInstanceAs (Decidable (_ ∧ _ ∧ _))

-- What the boundaries of a run have to satisfy so that the safety state keeps up with the
-- lifecycle.
structure SafetyTracked (s : State) : Prop where
  wellFormed : s.WellFormed
  agrees     : s.SafetyAgrees
  clearable  : s.machine.system = .fault ∨ s.machine.system = .recovering →
    s.machine.operatorActions.canClearJob = true

variable {s s' m : State} {i : TickInput} {io : FileOutcomes} {r : ExecutionResult}

theorem SafetyAgrees.travelAgrees (h : s.SafetyAgrees) : s.TravelAgrees := by
  have hs (hf : s.machine.system ≠ .fault) (hr : s.machine.system ≠ .recovering) :
      (s.machine.safety.state == .ok) = true := by
    have hn : s.machine.safety.state ≠ .fault := fun hc => by
      cases h.mp hc
      case inl hc => exact hf hc
      case inr hc => exact hr hc
    cases hc : s.machine.safety.state
    case ok    => rfl
    case fault => exact absurd hc hn
  constructor
  case lateral =>
    intro R _ _ narrow v z hf hr
    simp [SafeTravelRules.canLateral, hs hf hr]
  case descend =>
    intro R _ _ v x y z hf hr
    simp [SafeTravelRules.canDescend, hs hf hr]

@[simp]
theorem armExecution_safety : s.armExecution.machine.safety = s.machine.safety := by
  by_cases a : s.Runnable
  case pos => rw [armExecution_of_runnable a]; rfl
  case neg => rw [armExecution_of_not_runnable a]

theorem execute_safety (he : s.execute i = .ok (r, m)) :
    m.machine.safety = (s.arm i).machine.safety := by
  have ⟨_, _, hm, _⟩ := execute_ok he
  generalize s.arm i = a at hm
  rw [hm]
  rfl

theorem arm_safety_fault (hf : (evaluateSafety i.safety).status = .fault) :
    (s.arm i).machine.safety.state = .fault := by
  simp only [arm, armExecution_safety]
  rw [checkSafety_of_fault hf]
  rfl

theorem carried_safetyAgrees : Carried SafetyAgrees i where
  job _ h a      := h
  armed _ h _    := h
  fault _ _ _    := iff_of_true rfl (.inl rfl)
  run _ h _      := h
  executed _ h _ := h

theorem carried_cleared (hf : (evaluateSafety i.safety).status ≠ .fault) :
    Carried (fun s => s.machine.system = .ready ∧ s.machine.safety.state = .fault) i where
  job _ h _      := h
  armed _ h _    := h
  fault _ _ hc   := absurd hc hf
  run _ h _      := h
  executed _ h _ := h

theorem SafetyAgrees.of_sound (h : s.SafetyAgrees)
    (hs : s.machine.system.sound = true) (hs' : s'.machine.system.sound = true)
    (he : s'.machine.safety = s.machine.safety) : s'.SafetyAgrees :=
  iff_of_false (fun hc => SystemState.sound_iff.mp hs (h.mp (he ▸ hc)))
    (SystemState.sound_iff.mp hs')

theorem Accepts.safetyAgrees (a : Accepts s io c s') (h : s.SafetyAgrees)
    (hc : c = .clearJob → s.machine.system = .ready) : s'.SafetyAgrees := by
  cases a
  case start hs _ _ _ _ _      => exact h.of_sound (congrArg SystemState.sound hs) rfl rfl
  case pause hs                => exact h.of_sound (congrArg SystemState.sound hs) rfl rfl
  case resume hs _ _ _ _ _     => exact h.of_sound (congrArg SystemState.sound hs) rfl rfl
  case abort hs                =>
    cases hs
    case inl hs => exact h.of_sound (congrArg SystemState.sound hs) rfl rfl
    case inr hs => exact h.of_sound (congrArg SystemState.sound hs) rfl rfl
  case clearJob                => exact h.of_sound (congrArg SystemState.sound (hc rfl)) rfl rfl
  case setLocalizationMode     => exact h
  case recover hs _            =>
    have hf : s.machine.safety.state = .fault := h.mpr (.inl hs)
    exact iff_of_true hf (.inr rfl)

theorem pollCommand_safetyAgrees (h : s.SafetyAgrees)
    (hc : s.Hears shm .clearJob →
      ¬(s.machine.system = .fault ∨ s.machine.system = .recovering)) :
    (s.pollCommand io shm).SafetyAgrees := by
  cases pollCommand_cases s io shm
  case inl hp =>
    cases hp.left
    case inl hp => rwa [hp]
    case inr hp =>
      have ⟨_, _, hp⟩ := hp
      rwa [hp]
  case inr hp =>
    have ⟨cmd, _, hh, hp⟩ := hp
    rw [hp]
    cases handleCommand_cases (s.see cmd.seq) io cmd
    case inl hr => rwa [hr]
    case inr ha =>
      have ⟨s', a, ha⟩ := ha
      rw [ha]
      apply a.safetyAgrees h
      intro he
      rw [he] at hh a
      cases a
      case clearJob hs _ =>
        cases hs
        case inl hs => exact hs
        case inr hs => exact absurd hs.symm (hc hh)

theorem pollCommand_clears (io : FileOutcomes) (hh : s.Hears shm .clearJob)
    (hs : s.machine.system = .fault ∨ s.machine.system = .recovering)
    (ha : s.machine.operatorActions.canClearJob = true) :
    (s.pollCommand io shm).machine.system = .ready ∧
      (s.pollCommand io shm).machine.safety = s.machine.safety := by
  cases pollCommand_cases s io shm
  case inl hp => exact absurd hh (hp.right _)
  case inr hp =>
    have ⟨cmd, _, hh', hp⟩ := hp
    have hc := hh'.unique hh
    have hd : (s.see cmd.seq).dispatchCommand io cmd =
        (.accepted, (s.see cmd.seq).acceptClearJob io) := by
      cases hs <;> simp [dispatchCommand, *, see, commandAllowedInState, requestClearJob]
    rw [hp, handleCommand_eq, hd]
    exact ⟨rfl, rfl⟩

theorem Orchestrated.safetyAgrees (o : Orchestrated s io s') (h : s.SafetyAgrees) :
    s'.SafetyAgrees := by
  cases o
  case draining hs _ a _  => cases a <;> exact h
  case aborted hs a _     =>
    apply h.of_sound (congrArg SystemState.sound hs) rfl
    cases a <;> rfl
  case paused a _ _       => cases a <;> exact h
  case released a         => cases a <;> exact h
  case lost               => exact iff_of_true rfl (.inl rfl)
  case restored hs _ _    => exact h.of_sound (congrArg SystemState.sound hs) rfl rfl
  case completed hs _ _   =>
    have hn := SystemState.sound_of_finishing hs
    refine h.of_sound hn ?_ rfl
    rw [completed_system, tracked_system]
    split
    case isTrue  => exact SystemState.sound_of_finishing rfl
    case isFalse => exact hn
  all_goals exact h

theorem ended_safetyAgrees (h : s.SafetyAgrees) :
    (s.sampleMotionIdle.ended pending).SafetyAgrees :=
  h

theorem ended_canClearJob
    (h : (s.ended pending).machine.system = .fault ∨
      (s.ended pending).machine.system = .recovering) :
    (s.ended pending).machine.operatorActions.canClearJob = true := by
  cases h <;> simp_all [ended, publishIpcState, deriveOperatorActions]

-- The safety state keeps up with the lifecycle in a tick exactly if the tick clears no fault.
theorem tick_safetyTracked (t : s.SafetyTracked) (ht : tick i s = .ok s') :
    (¬ClearsFault i s → s'.SafetyTracked) ∧ (ClearsFault i s → ¬s'.SafetyAgrees) := by
  have ⟨m, ⟨_, he⟩, _, m', pending, o, hs⟩ := t.wellFormed.orchestrates ht
  have w' := t.wellFormed.tick ht
  have hm := execute_system he
  have hf := execute_safety he
  constructor
  case left =>
    intro hc
    have ha : m.SafetyAgrees := by
      by_cases hf' : (evaluateSafety i.safety).status = .fault
      case pos =>
        rw [arm_system_fault hf'] at hm
        rw [SafetyAgrees, hf, hm]
        exact iff_of_true (arm_safety_fault hf') (.inl rfl)
      case neg =>
        refine carried_safetyAgrees.execute t.wellFormed ?_ he
        exact pollCommand_safetyAgrees t.agrees fun hh hs => hc ⟨hs, hh, hf'⟩
    have ha' : (m'.sampleMotionIdle.ended pending).SafetyAgrees :=
      ended_safetyAgrees (o.safetyAgrees ha)
    rw [← hs] at ha'
    refine ⟨w', ha', fun hs' => ?_⟩
    rw [hs] at hs' ⊢
    exact ended_canClearJob hs'
  case right =>
    intro hc ha
    have ⟨hr, hp⟩ := pollCommand_clears i.io hc.right.left hc.left (t.clearable hc.left)
    have hp : (s.pollCommand i.io i.command).machine.safety.state = .fault := by
      rw [hp]
      exact t.agrees.mpr hc.left
    have c := (carried_cleared hc.right.right).execute t.wellFormed ⟨hr, hp⟩ he
    have w := t.wellFormed.execute he
    have ⟨_, hm'⟩ := o.of_ready c.left (w.ready c.left).left
    have hf : s'.machine.system = .fault ∨ s'.machine.system = .recovering := ha.mp (by
      rw [hs, hm']
      exact c.right)
    rw [hs, hm'] at hf
    cases hf
    case inl hf => cases hf.symm.trans c.left
    case inr hf => cases hf.symm.trans c.left

end State

open State Transition

-- The safety state agrees with the lifecycle at all boundaries of a run exactly if no CLEAR_JOB of
-- the run ends a fault, because nothing ever resets the safety state.
theorem safety_agrees_iff_no_clear (b : Booted s₀) :
    Always tick (fun s => s.SafetyAgrees ∧ s.TravelAgrees) s₀ is ↔
      Along tick (fun i s => ¬ClearsFault i s) s₀ is := by
  refine always_iff_along (I := SafetyTracked) (fun t => ⟨t.agrees, t.agrees.travelAgrees⟩) ?step
    ?back ?boot
  case step => exact fun t hc ht => (tick_safetyTracked t ht).left hc
  case back => exact fun t ha ht hc => (tick_safetyTracked t ht).right hc ha.left
  case boot =>
    have w := b.wellFormed
    have ⟨_, b⟩ := b.boots
    cases b <;> exact ⟨w, by simp [SafetyAgrees], by simp⟩

theorem safety_agrees_iff_no_clear_recover :
    ∃ s₀, Booted s₀ ∧ Always tick (fun s => s.SafetyAgrees ∧ s.TravelAgrees) s₀
      [{ safety := { guardOpen := true } }, .issue 1 7, {}] := by
  have ⟨s₀, hb, h⟩ : ∃ s₀, boot {} none = .ok s₀ ∧ Along tick (fun i s => ¬ClearsFault i s) s₀
      [{ safety := { guardOpen := true } }, .issue 1 7, {}] :=
    ⟨_, rfl, by decide +kernel⟩
  exact ⟨s₀, ⟨_, _, hb⟩, safety_agrees_iff_no_clear ⟨_, _, hb⟩ |>.mpr h⟩

-- The machine is READY again, but its safety state is still that of the fault.
theorem safety_agrees_fails : ¬∀ s, Reachable s → s.SafetyAgrees := by
  intro hc
  have ⟨s₀, hb, h⟩ : ∃ s₀, boot {} none = .ok s₀ ∧
      Reaches tick (fun s => s.machine.system = .ready ∧ ¬s.SafetyAgrees) s₀
        [{ safety := { guardOpen := true } }, .issue 1 7, .issue 2 6] :=
    ⟨_, rfl, by decide +kernel⟩
  have ⟨s, e, _, ha⟩ := h.run
  exact ha (hc s (.intro ⟨_, _, hb⟩ e))

end Firmware
