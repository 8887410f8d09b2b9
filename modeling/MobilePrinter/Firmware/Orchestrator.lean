import MobilePrinter.Firmware.StateMachine

-- `execution_orchestrator.cpp`: the only component that finalizes executions.

namespace Firmware.State

-- The early entry to RUNNING.
def startExecution (s : State) : State :=
  if !s.exec.ownedByExecutor && s.exec.phase == .idle &&
      decide (s.exec.cursor < s.activeJob.totalSegments) &&
      (s.exec.armed || s.exec.cursor == 0) then
    { s with exec := { s.exec with phase := .running, ownedByExecutor := true, armed := false } }
  else
    s

def beginAbort (s : State) (io : FileOutcomes) : State :=
  if s.abortStartedOnce then
    s
  else
    { s with
      exec             := { s.exec with
        abortInProgress := true, phase := .idle, ownedByExecutor := false }
      pauseSnapshot    := none
      snapshotFile     := clearExecutionSnapshot io.clear s.snapshotFile
      motion           := MotionController.setAbortActive true (MotionController.abort s.motion)
      abortStartedOnce := true }.record .abortStarted

def detectAbortDrain (s : State) : State :=
  if s.exec.abortInProgress && s.machine.motionIdle then
    { s with exec := { s.exec with abortInProgress := false } }
  else
    s

def finishAbort (s : State) : State :=
  if !s.exec.abortInProgress && s.abortStartedOnce then
    let s := { s with
      motion  := MotionController.setAbortActive false s.motion
      machine := { s.machine with lastCompletionReason := .aborted } }
    { s.finalizeAbort with abortStartedOnce := false }.record (.finalized .aborted)
  else
    s

def abortStep (s : State) (io : FileOutcomes) : State :=
  ((s.beginAbort io).detectAbortDrain).finishAbort

def capturePause (s : State) (io : FileOutcomes) : State :=
  if s.pauseSnapshot.isSome then
    s
  else
    let ps : PersistentExecutionSnapshot := {
      magic            := snapshotMagic
      bootId           := s.machine.bootId.toUInt64
      jobId            := s.machine.job.jobId.toUInt64
      cursor           := s.exec.cursor
      unitProgress     := s.exec.unitProgress
      systemAtSnapshot := .paused }
    { s with
      pauseSnapshot := some {
        jobId         := s.machine.job.jobId
        segment       := s.exec.cursor
        intraProgress := s.exec.unitProgress }
      snapshotFile  := persistExecutionSnapshot io.persist ps s.snapshotFile
    }.record (.snapshotPersisted io.persist ps)

def releaseOwnership (s : State) : State :=
  if s.exec.ownedByExecutor || s.exec.armed then
    { s with exec := { s.exec with phase := .idle, ownedByExecutor := false, armed := false } }
  else
    s

def pausedStep (s : State) (io : FileOutcomes) : State :=
  (s.capturePause io).releaseOwnership

def restoreSnapshot (s : State) (io : FileOutcomes) (snap : PersistentExecutionSnapshot) : State :=
  { s with
    exec          := { s.exec.resetHard with
      cursor            := snap.cursor
      unitProgress      := snap.unitProgress
      phase             := .idle
      armed             := true
      ownedByExecutor   := false
      completionEmitted := false }
    snapshotFile  := clearExecutionSnapshot io.clear s.snapshotFile
    pauseSnapshot := none
    machine       := { s.machine with
      resumeAvailable := false
      resumeConsumed  := true
      system          := .executingPrint } }.record (.snapshotRestored snap)

def resumingStep (s : State) (io : FileOutcomes) : State :=
  if s.exec.ownedByExecutor then
    s
  else
    match loadExecutionSnapshot io.load s.snapshotFile with
    | none      => s.requestFault 0xE060
    | some snap => s.restoreSnapshot io snap

def trackProgress (s : State) (last : ExecutionResult) : State :=
  if s.exec.phase == .running then
    match last with
    | .progressed => { s with exec := { s.exec with blockedTicks := 0 } }
    | .blocked    => { s with exec := { s.exec with blockedTicks := s.exec.blockedTicks + 1 } }
    | _           => s
  else
    s

-- Deleting an array that was deleted before is as fatal as reading one.
def freeJobSegments (s : State) : Except Crash State :=
  match s.activeJob.segments with
  | none   => .ok s
  | some p =>
    match s.heap.deref p with
    | none   => .error .badAccess
    | some _ => .ok { s with
        heap      := s.heap.delete p
        activeJob := { s.activeJob with segments := none } }

-- The completion leaves the job ingress state as it is.
def completeJob (s : State) : Except Crash State := do
  let s := { s with
    machine := { s.machine with lastCompletionReason := .normal }
    exec    := { s.exec with phase := .completed } }
  let s ← s.requestJobComplete.2.freeJobSegments
  return { s with
    store   := .clear
    machine := { s.machine with
      jobPresent       := false
      jobId            := 0
      jobSchemaVersion := 0
      jobHash          := ""
      job              := { s.machine.job with layer := 0, segment := 0, state := .none } }
    exec    := { s.exec.resetHard with
      ownedByExecutor := false
      cursor          := 0
      phase           := .idle } }.record (.finalized .normal)

def starveJob (s : State) : State :=
  let s := { s with
    machine := { s.machine with lastCompletionReason := .starvation }
    exec    := { s.exec with phase := .completed } }
  let s := s.requestJobComplete.2
  let s := { s with exec := { s.exec.resetHard with ownedByExecutor := false } }
  s.record (.finalized .starvation)

def completionStep (s : State) (last : ExecutionResult) : Except Crash State :=
  if s.exec.phase != .running then
    .ok s
  else if s.exec.phase == .running && decide (s.exec.cursor ≥ s.activeJob.totalSegments) &&
      s.machine.motionIdle then
    s.completeJob
  else if last == .starved then
    .ok s.starveJob
  else
    .ok s

def orchestratorStep (s : State) (io : FileOutcomes) (last : ExecutionResult) :
    Except Crash State :=
  if s.exec.armed && s.exec.ownedByExecutor then
    .error (.assertion .armedAndOwned)
  else
    match s.machine.system with
    | .fault | .recovering => .ok s
    | .aborting            => .ok (s.abortStep io)
    | .paused              => .ok (s.pausedStep io)
    | .resuming            => .ok (s.resumingStep io)
    | .executingPrint      =>
      if s.machine.job.state == .completed then
        .ok s
      else
        (s.startExecution.trackProgress last).completionStep last
    | _                    => (s.trackProgress last).completionStep last

end Firmware.State
