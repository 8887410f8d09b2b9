import MobilePrinter.Firmware.Theorems.Orchestration

namespace Firmware

-- The states in which an execution is kept from being fed.
def SystemState.suspended : SystemState → Bool
  | .paused | .resuming | .aborting => true
  | _                               => false

namespace State

-- The execution of `s` is still the same in `m`.
structure Untouched (s m : State) : Prop where
  exec          : m.exec = s.exec
  lastCursor    : m.lastCursor = s.lastCursor
  activeJob     : m.activeJob = s.activeJob
  heap          : m.heap = s.heap
  jobPresent    : m.machine.jobPresent = s.machine.jobPresent
  pauseSnapshot : m.pauseSnapshot = s.pauseSnapshot
  snapshotFile  : m.snapshotFile = s.snapshotFile
  latch         : m.abortStartedOnce = s.abortStartedOnce

def restored? (s : State) (i : TickInput) : Option PersistentExecutionSnapshot :=
  if (s.pollCommand i.io i.command).machine.system = .resuming ∧
      (evaluateSafety i.safety).status ≠ .fault
  then loadExecutionSnapshot i.io.load s.snapshotFile
  else none

variable {s s' m m' : State} {i : TickInput} {io : FileOutcomes} {r : ExecutionResult}

theorem Untouched.trans (h₁ : Untouched s m) (h₂ : Untouched m s') : Untouched s s' where
  exec          := h₂.exec.trans h₁.exec
  lastCursor    := h₂.lastCursor.trans h₁.lastCursor
  activeJob     := h₂.activeJob.trans h₁.activeJob
  heap          := h₂.heap.trans h₁.heap
  jobPresent    := h₂.jobPresent.trans h₁.jobPresent
  pauseSnapshot := h₂.pauseSnapshot.trans h₁.pauseSnapshot
  snapshotFile  := h₂.snapshotFile.trans h₁.snapshotFile
  latch         := h₂.latch.trans h₁.latch

theorem Accepts.untouched (a : Accepts s io c s') (h : s'.machine.system.suspended = true) :
    Untouched s s' := by
  cases a
  case pause | resume | abort | setLocalizationMode => constructor <;> rfl
  case start | clearJob | recover                   => cases h

theorem pollCommand_untouched (h : (s.pollCommand io shm).machine.system.suspended = true) :
    Untouched s (s.pollCommand io shm) := by
  have p : Polled s io (s.pollCommand io shm) := pollCommand_polled shm
  generalize s.pollCommand io shm = s' at p h
  cases p
  case accepted a                => exact { a.untouched h with }
  case none | invalid | rejected => constructor <;> rfl

theorem pollJobIngress_untouched (h : s.machine.system.suspended = true) :
    Untouched s (s.pollJobIngress ipc) := by
  have p := pollJobIngress_ingested (s := s) ipc
  generalize s.pollJobIngress ipc = s' at p
  cases p
  case accepted a _            => simp [a.ready, SystemState.suspended] at h
  case none | first | rejected => constructor <;> rfl

theorem prepare_untouched (h : (s.prepare i).machine.system.suspended = true) :
    Untouched s (s.prepare i) := by
  rw [prepare_system] at h
  by_cases a : ((s.pollCommand i.io i.command).pollJobIngress i.job).Armable
  case pos => simp [pollJobIngress_system.symm.trans a.executing, SystemState.suspended] at h
  case neg =>
    simp only [prepare, activateJobExecution_of_not_armable a]
    exact { (pollCommand_untouched h).trans (pollJobIngress_untouched h) with }

theorem arm_untouched (h : (s.arm i).machine.system.suspended = true) : Untouched s (s.arm i) := by
  by_cases hf : (evaluateSafety i.safety).status = .fault
  case pos => simp [arm_system_fault hf, SystemState.suspended] at h
  case neg =>
    rw [arm_system hf, ← prepare_system] at h
    simp only [arm, checkSafety_of_not_fault hf]
    by_cases a : (s.prepare i).Runnable
    case pos => simp [a.executing, SystemState.suspended] at h
    case neg =>
      rw [armExecution_of_not_runnable a]
      exact prepare_untouched h

theorem execute_untouched (he : s.execute i = .ok (r, m)) (h : m.machine.system.suspended = true) :
    Untouched s m := by
  have ⟨_, f, hm, e⟩ := execute_ok he
  simp only [hm, sampleMotionIdle_system, pollMotion_system, withFeed_system] at h ⊢
  have u := arm_untouched h
  generalize s.arm i = a at *
  have hr : f = a.feed := by
    apply e.rests
    intro hs
    simp [hs.right.left, SystemState.suspended] at h
  subst hr
  exact { u with }

theorem pollCommand_of_resuming (he : s.execute i = .ok (r, m))
    (h : m.machine.system = .resuming) : (evaluateSafety i.safety).status ≠ .fault ∧
      (s.pollCommand i.io i.command).machine.system = .resuming := by
  rw [execute_system he] at h
  by_cases hf : (evaluateSafety i.safety).status = .fault
  case pos => simp [arm_system_fault hf] at h
  case neg => exact ⟨hf, arm_system hf ▸ h⟩

theorem execute_resuming (he : s.execute i = .ok (r, m)) (h : m.machine.system = .resuming) :
    s.restored? i = loadExecutionSnapshot i.io.load m.snapshotFile := by
  have u := execute_untouched he (by simp [h, SystemState.suspended])
  have ⟨hf, hs⟩ := pollCommand_of_resuming he h
  simp [restored?, hs, hf, u.snapshotFile]

theorem execute_not_resuming (he : s.execute i = .ok (r, m)) (h : m.machine.system ≠ .resuming) :
    s.restored? i = none := by
  rw [execute_system he] at h
  simp only [restored?, ite_eq_right_iff]
  intro hc
  exact absurd ((arm_system hc.right).trans hc.left) h

end State
end Firmware
