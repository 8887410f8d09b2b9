import MobilePrinter.Firmware.Theorems.WellFormed

namespace Firmware.State

-- What `main` changes when it gives the job to the executor.
def run (s : State) : State :=
  { s with exec := { s.exec with phase := .running, armed := false, ownedByExecutor := true } }

def armed (s : State) : State :=
  { s with exec := { s.exec with armed := true, completionEmitted := false } }

structure Armable (s : State) : Prop where
  executing : s.machine.system = .executingPrint
  idle      : s.exec.phase = .idle
  unarmed   : s.exec.armed = false
  loaded    : s.ingress.jobLoaded = true
  present   : s.machine.jobPresent = true

variable {s s' m : State} {i : TickInput} {r : ExecutionResult}

theorem activateJobExecution_of_armable (a : s.Armable) : s.activateJobExecution = s.armed := by
  simp [activateJobExecution, armed, a.executing, a.idle, a.unarmed, a.loaded, a.present]

theorem activateJobExecution_of_not_armable (h : ¬s.Armable) : s.activateJobExecution = s := by
  simp only [activateJobExecution]
  split
  case isTrue => rfl
  split
  case isTrue => rfl
  split
  case isTrue => rfl
  split
  case isTrue => rfl
  case isFalse h₁ h₂ h₃ h₄ =>
    simp only [bne_iff_ne, ne_eq, Decidable.not_not, Bool.not_eq_true, Bool.or_eq_false_iff,
      Bool.not_eq_false'] at h₁ h₂ h₃ h₄
    exact absurd ⟨h₁, h₂, h₃, h₄.left, h₄.right⟩ h

-- What it takes for `main` to give the job to the executor.
structure Runnable (s : State) : Prop where
  executing : s.machine.system = .executingPrint
  idle      : s.exec.phase = .idle
  armed     : s.exec.armed = true
  cursor    : s.exec.cursor < s.activeJob.totalSegments

theorem armExecution_of_runnable (a : s.Runnable) : s.armExecution = s.run := by
  simp [armExecution, run, a.executing, a.idle, a.armed, a.cursor]

theorem armExecution_of_not_runnable (h : ¬s.Runnable) : s.armExecution = s := by
  simp only [armExecution]
  split
  case isFalse => rfl
  case isTrue hc =>
    simp only [Bool.and_eq_true, beq_iff_eq, decide_eq_true_eq] at hc
    exact absurd ⟨hc.left.left.left, hc.left.left.right, hc.left.right, hc.right⟩ h

theorem checkSafety_of_fault (h : safety.status = .fault) :
    s.checkSafety safety = s.requestFault 0xF001 := by
  simp [checkSafety, h]

theorem checkSafety_of_not_fault (h : safety.status ≠ .fault) : s.checkSafety safety = s := by
  simp [checkSafety, h]

@[simp]
theorem pollJobIngress_system : (s.pollJobIngress ipc).machine.system = s.machine.system := by
  have p := pollJobIngress_ingested (s := s) ipc
  generalize s.pollJobIngress ipc = s' at p
  cases p <;> rfl

@[simp]
theorem activateJobExecution_system :
    s.activateJobExecution.machine.system = s.machine.system := by
  by_cases a : s.Armable
  case pos => rw [activateJobExecution_of_armable a]; rfl
  case neg => rw [activateJobExecution_of_not_armable a]

@[simp]
theorem armExecution_system : s.armExecution.machine.system = s.machine.system := by
  by_cases a : s.Runnable
  case pos => rw [armExecution_of_runnable a]; rfl
  case neg => rw [armExecution_of_not_runnable a]

@[simp]
theorem activateJobExecution_firstRead : s.activateJobExecution.firstRead = s.firstRead := by
  by_cases a : s.Armable
  case pos => rw [activateJobExecution_of_armable a]; rfl
  case neg => rw [activateJobExecution_of_not_armable a]

@[simp]
theorem armExecution_firstRead : s.armExecution.firstRead = s.firstRead := by
  by_cases a : s.Runnable
  case pos => rw [armExecution_of_runnable a]; rfl
  case neg => rw [armExecution_of_not_runnable a]

@[simp]
theorem checkSafety_firstRead : (s.checkSafety safety).firstRead = s.firstRead := by
  simp only [checkSafety]
  split <;> rfl

theorem prepare_system :
    (s.prepare i).machine.system = (s.pollCommand i.io i.command).machine.system := by
  simp [prepare]

theorem arm_system (hf : (evaluateSafety i.safety).status ≠ .fault) :
    (s.arm i).machine.system = (s.pollCommand i.io i.command).machine.system := by
  simp only [arm, armExecution_system]
  rw [checkSafety_of_not_fault hf, prepare_system]

theorem arm_system_fault (hf : (evaluateSafety i.safety).status = .fault) :
    (s.arm i).machine.system = .fault := by
  simp only [arm, armExecution_system]
  rw [checkSafety_of_fault hf]
  rfl

theorem execute_firstRead (he : s.execute i = .ok (r, m)) : m.firstRead = false := by
  have ⟨_, _, hm, _⟩ := execute_ok he
  have h := (pollJobIngress_ingested (s := s.pollCommand i.io i.command) i.job).firstRead
  have ha : (s.arm i).firstRead = false := by simp [arm, prepare, h]
  generalize s.arm i = a at hm ha
  exact hm ▸ ha

theorem execute_system (he : s.execute i = .ok (r, m)) :
    m.machine.system = (s.arm i).machine.system := by
  have ⟨_, _, hm, _⟩ := execute_ok he
  simp [hm]

-- The stages between the poll of the ingress region and the orchestrator keep `P`. Those that only
-- touch the bookkeeping, the motion controller or the extruder keep most properties by definition.
structure Relayed (P : State → Prop) (i : TickInput) : Prop where
  armed     : ∀ {s}, s.WellFormed → P s → s.Armable → P s.armed
  fault     : ∀ {s}, s.WellFormed → P s → (evaluateSafety i.safety).status = .fault →
    P (s.requestFault 0xF001)
  run       : ∀ {s}, s.WellFormed → P s → s.Runnable → P s.run
  executed  : ∀ {s f}, s.WellFormed → P s → s.Executed (evaluateSafety i.safety) f →
    P (s.withFeed f)
  scheduled : ∀ {s}, P s → P { s with motion := { s.motion with schedule := i.spin } } := by
    exact fun h => h
  polled    : ∀ {s}, P s → P s.pollMotion := by exact fun h => h
  sampled   : ∀ {s}, P s → P s.sampleMotionIdle := by exact fun h => h

-- The stages between the poll of the command channel and the orchestrator keep `P`.
structure Carried (P : State → Prop) (i : TickInput) : Prop where
  job       : ∀ {s blob q}, s.WellFormed → P s → s.Submittable blob → P (s.acceptJob blob q)
  armed     : ∀ {s}, s.WellFormed → P s → s.Armable → P s.armed
  fault     : ∀ {s}, s.WellFormed → P s → (evaluateSafety i.safety).status = .fault →
    P (s.requestFault 0xF001)
  run       : ∀ {s}, s.WellFormed → P s → s.Runnable → P s.run
  executed  : ∀ {s f}, s.WellFormed → P s → s.Executed (evaluateSafety i.safety) f →
    P (s.withFeed f)
  scheduled : ∀ {s}, P s → P { s with motion := { s.motion with schedule := i.spin } } := by
    exact fun h => h
  first     : ∀ {s}, P s → P { s with firstRead := false } := by exact fun h => h
  refused   : ∀ {s reason}, P s → P (s.refuseJob reason s.heap) := by exact fun h => h
  polled    : ∀ {s}, P s → P s.pollMotion := by exact fun h => h
  sampled   : ∀ {s}, P s → P s.sampleMotionIdle := by exact fun h => h

-- All stages of a tick before the orchestrator keep `P`.
structure Kept (P : State → Prop) (i : TickInput) : Prop extends Carried P i where
  accepted : ∀ {s s' q c}, s.WellFormed → P s → Accepts s i.io c s' → P (s'.note q c .accepted)
  seen     : ∀ {s q}, P s → P (s.see q) := by exact fun h => h
  rejected : ∀ {s q c}, P s → P (s.note q c .rejected) := by exact fun h => h

namespace Relayed

variable {P : State → Prop}

theorem prepare (k : Relayed P i) (w : s.WellFormed)
    (h : P ((s.pollCommand i.io i.command).pollJobIngress i.job)) : P (s.prepare i) := by
  apply k.scheduled
  by_cases a : ((s.pollCommand i.io i.command).pollJobIngress i.job).Armable
  case pos =>
    rw [activateJobExecution_of_armable a]
    exact k.armed w.pollCommand.pollJobIngress h a
  case neg =>
    rw [activateJobExecution_of_not_armable a]
    exact h

theorem arm (k : Relayed P i) (w : s.WellFormed)
    (h : P ((s.pollCommand i.io i.command).pollJobIngress i.job)) : P (s.arm i) := by
  have h₀ : P ((s.prepare i).checkSafety (evaluateSafety i.safety)) := by
    by_cases hf : (evaluateSafety i.safety).status = .fault
    case pos =>
      rw [checkSafety_of_fault hf]
      exact k.fault w.prepare (k.prepare w h) hf
    case neg =>
      rw [checkSafety_of_not_fault hf]
      exact k.prepare w h
  by_cases a : ((s.prepare i).checkSafety (evaluateSafety i.safety)).Runnable
  case pos =>
    rw [State.arm, armExecution_of_runnable a]
    exact k.run w.prepare.checkSafety h₀ a
  case neg =>
    rw [State.arm, armExecution_of_not_runnable a]
    exact h₀

theorem execute (k : Relayed P i) (w : s.WellFormed)
    (h : P ((s.pollCommand i.io i.command).pollJobIngress i.job))
    (he : s.execute i = .ok (r, m)) : P m := by
  have ⟨_, f, hm, e⟩ := execute_ok he
  exact hm ▸ k.sampled (k.polled (k.executed w.arm (k.arm w h) e))

end Relayed

namespace Carried

variable {P : State → Prop}

theorem relayed (k : Carried P i) : Relayed P i where
  armed     := k.armed
  fault     := k.fault
  run       := k.run
  executed  := k.executed
  scheduled := k.scheduled
  polled    := k.polled
  sampled   := k.sampled

theorem pollJobIngress (k : Carried P i) (w : s.WellFormed) (h : P s) :
    P (s.pollJobIngress ipc) := by
  have p := pollJobIngress_ingested (s := s) ipc
  generalize s.pollJobIngress ipc = s' at p
  cases p
  case none         => exact h
  case first        => exact k.first h
  case rejected     => exact k.refused h
  case accepted a q => exact k.job w h a

theorem prepare (k : Carried P i) (w : s.WellFormed) (h : P (s.pollCommand i.io i.command)) :
    P (s.prepare i) :=
  k.relayed.prepare w (k.pollJobIngress w.pollCommand h)

theorem arm (k : Carried P i) (w : s.WellFormed) (h : P (s.pollCommand i.io i.command)) :
    P (s.arm i) :=
  k.relayed.arm w (k.pollJobIngress w.pollCommand h)

theorem execute (k : Carried P i) (w : s.WellFormed) (h : P (s.pollCommand i.io i.command))
    (he : s.execute i = .ok (r, m)) : P m :=
  k.relayed.execute w (k.pollJobIngress w.pollCommand h) he

end Carried

namespace Kept

variable {P : State → Prop}

theorem pollCommand (k : Kept P i) (w : s.WellFormed) (h : P s) :
    P (s.pollCommand i.io i.command) := by
  have p : Polled s i.io (s.pollCommand i.io i.command) := pollCommand_polled i.command
  generalize s.pollCommand i.io i.command = s' at p
  cases p
  case none       => exact h
  case invalid    => exact k.seen h
  case rejected   => exact k.rejected (k.seen h)
  case accepted a => exact k.accepted w.see (k.seen h) a

theorem prepare (k : Kept P i) (w : s.WellFormed) (h : P s) : P (s.prepare i) :=
  k.toCarried.prepare w (k.pollCommand w h)

theorem arm (k : Kept P i) (w : s.WellFormed) (h : P s) : P (s.arm i) :=
  k.toCarried.arm w (k.pollCommand w h)

theorem execute (k : Kept P i) (w : s.WellFormed) (h : P s) (he : s.execute i = .ok (r, m)) : P m :=
  k.toCarried.execute w (k.pollCommand w h) he

end Kept
end Firmware.State
