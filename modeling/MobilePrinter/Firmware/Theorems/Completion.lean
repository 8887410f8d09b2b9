import MobilePrinter.Firmware.Orchestrator

namespace Firmware

-- The states in which the orchestrator looks for the end of a job.
def SystemState.finishing : SystemState → Bool
  | .boot | .idle | .ready | .executingPrint => true
  | _                                        => false

namespace State

variable {s s' : State} {last : ExecutionResult} {p : Heap.Ptr}

def completedMachine (ms : MachineState) : MachineState :=
  let executing := ms.system == .executingPrint
  { ms with
    system               := if executing then .ready else ms.system
    resumeAvailable      := if executing then false else ms.resumeAvailable
    resumeConsumed       := if executing then false else ms.resumeConsumed
    jobPresent           := false
    jobId                := 0
    jobSchemaVersion     := 0
    jobHash              := ""
    job                  := { ms.job with layer := 0, segment := 0, state := .none }
    lastCompletionReason := .normal }

def completed (s : State) (p : Heap.Ptr) : State :=
  { s with
    heap      := s.heap.delete p
    activeJob := { s.activeJob with segments := none }
    store     := .clear
    machine   := completedMachine s.machine
    exec      := s.exec.resetHard }.record (.finalized .normal)

theorem completeJob_eq (hp : s.activeJob.segments = some p) (hd : s.heap.deref p = some segs) :
    s.completeJob = .ok (s.completed p) := by
  by_cases hs : s.machine.system = .executingPrint
  all_goals
    simp [completeJob, requestJobComplete, freeJobSegments, completed, completedMachine,
      ExecutionContext.resetHard, record, bind, Except.bind, pure, Except.pure, hs, hp, hd]

-- The job is complete and, as far as the orchestrator knows, drained.
def Completes (s : State) : Prop :=
  s.exec.phase = .running ∧ s.activeJob.totalSegments ≤ s.exec.cursor ∧ s.machine.motionIdle = true

instance : Decidable (Completes s) :=
  inferInstanceAs (Decidable (_ ∧ _ ∧ _))

theorem completionStep_of_completes (h : s.Completes) :
    s.completionStep last = s.completeJob := by
  simp [completionStep, h.left, h.right.left, h.right.right]

theorem completionStep_of_not_completes (hl : last ≠ .starved) (h : ¬s.Completes) :
    s.completionStep last = .ok s := by
  simp only [completionStep, Completes] at *
  grind

end State
end Firmware
