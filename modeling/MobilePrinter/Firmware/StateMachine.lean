import MobilePrinter.Firmware.State

-- `state_machine.cpp`: the lifecycle transitions of the machine.

namespace Firmware.State

def canStartJob (s : State) : Bool :=
  s.machine.system == .ready && !s.machine.operatorRecoveryRequired

-- Neither this nor any other part of START resets the execution context.
def acceptStart (s : State) : State :=
  { s with
    machine := { s.machine with
      resumeAvailable := false
      resumeConsumed  := false
      system          := .executingPrint
      job             := { s.machine.job with
        state := .active
        layer := if s.machine.job.layer == 0 && s.machine.job.segment == 0
                 then 1 else s.machine.job.layer } } }

def requestStartJob (s : State) : TransitionResult × State :=
  if !s.machine.jobPresent then
    (.rejected, s)
  else if s.exec.cursor ≥ s.activeJob.totalSegments then
    (.rejected, s)
  else if !s.machine.jobPresent then
    (.rejected, s)
  else if s.machine.job.state == .completed then
    (.rejected, s)
  else if !s.canStartJob then
    (.rejected, s)
  else
    (.accepted, s.acceptStart)

def canPause (s : State) : Bool :=
  s.machine.system == .executingPrint

def acceptPause (s : State) : State :=
  { s with machine := { s.machine with system := .paused, resumeAvailable := true } }

def requestPause (s : State) : TransitionResult × State :=
  if s.machine.system == .recovering then
    (.rejected, s)
  else if !s.canPause then
    (.rejected, s)
  else
    (.accepted, s.acceptPause)

def canResume (s : State) (snap : PauseSnapshot) : Bool :=
  s.machine.system != .fault && s.machine.system != .recovering && s.machine.system == .paused &&
  s.machine.resumeAvailable && !s.machine.resumeConsumed && s.machine.job.jobId == snap.jobId &&
  !s.exec.ownedByExecutor

def acceptResume (s : State) : State :=
  { s with
    machine := { s.machine with
      system          := .resuming
      resumeAvailable := false
      resumeConsumed  := true } }

def requestResume (s : State) (snap : PauseSnapshot) : TransitionResult × State :=
  if s.machine.system == .recovering then
    (.rejected, s)
  else if !s.canResume snap then
    (.rejected, s)
  else
    (.accepted, s.acceptResume)

-- Neither this transition nor `acceptRecover` resets the cursor, the in-memory pause snapshot or
-- the state of an abort that is in progress.
def acceptClearJob (s : State) (io : FileOutcomes) : State :=
  { s with
    exec         := s.exec.resetSoft
    snapshotFile := clearExecutionSnapshot io.clear s.snapshotFile
    store        := .clear
    ingress      := { s.ingress with
      jobLoaded := false, jobId := 0, schemaVersion := 0, lastRejection := "" }
    machine      := { s.machine with
      job                      := {}
      jobPresent               := false
      recoveryInProgress       := false
      operatorRecoveryRequired := false
      resumeAvailable          := false
      resumeConsumed           := true
      system                   := .ready } }

def requestClearJob (s : State) (io : FileOutcomes) : TransitionResult × State :=
  if s.machine.system != .ready && s.machine.system != .idle &&
      s.machine.system != .recovering && s.machine.system != .fault then
    (.rejected, s)
  else
    (.accepted, s.acceptClearJob io)

def acceptRecover (s : State) (io : FileOutcomes) : State :=
  { s with
    exec         := s.exec.resetSoft
    snapshotFile := clearExecutionSnapshot io.clear s.snapshotFile
    machine      := { s.machine with
      system                   := .recovering
      recoveryInProgress       := true
      resumeAvailable          := false
      resumeConsumed           := true
      operatorRecoveryRequired := true } }

def requestRecover (s : State) (io : FileOutcomes) : TransitionResult × State :=
  if s.machine.system != .fault then
    (.rejected, s)
  else
    (.accepted, s.acceptRecover io)

def acceptLocalizationMode (s : State) (mode : LocalizationMode) : State :=
  { s with machine := { s.machine with localizationMode := mode } }

def requestSetLocalizationMode (s : State) (mode : LocalizationMode) : TransitionResult × State :=
  if s.machine.system == .executingPrint || s.machine.system == .resuming then
    (.rejected, s)
  else if mode == .anchored && !s.machine.anchorsValid then
    (.rejected, s)
  else
    (.accepted, s.acceptLocalizationMode mode)

def acceptAbort (s : State) : State :=
  { s with machine := { s.machine with system := .aborting } }

def requestAbort (s : State) : TransitionResult × State :=
  if s.machine.system == .idle then
    (.rejected, s)
  else if s.machine.system == .recovering then
    (.rejected, s)
  else if s.machine.system != .executingPrint && s.machine.system != .paused then
    (.rejected, s)
  else
    (.accepted, s.acceptAbort)

def requestFault (s : State) (code : UInt32) : State :=
  { s with
    machine := { s.machine with
      system                    := .fault
      safety                    := { state := .fault, faultCode := code }
      resumeAvailable           := false
      resumeConsumed            := true
      lastCommandOutcome        := .faulted
      operatorRecoveryRequired  := true
      resumePermanentlyDisabled := true } }.record (.faulted code)

def requestJobComplete (s : State) : TransitionResult × State :=
  if s.machine.system != .executingPrint then
    (.rejected, s)
  else
    (.accepted, { s with
      machine := { s.machine with
        job             := { s.machine.job with state := .completed }
        resumeAvailable := false
        resumeConsumed  := false
        system          := .ready } })

def finalizeAbort (s : State) : State :=
  { s with
    machine := { s.machine with
      resumeAvailable := false
      resumeConsumed  := false
      system          := .idle
      job             := { s.machine.job with state := .none } } }

def recordCommandOutcome (s : State) (seq : UInt32) (outcome : CommandOutcome) : State :=
  { s with
    machine := { s.machine with lastCommandSeq := seq, lastCommandOutcome := outcome } }

def clearPausePendingIfStable (s : State) : State :=
  { s with
    pausePending :=
      if s.pausePending && s.machine.system == .paused && s.exec.phase == .paused
      then false else s.pausePending }

-- The source treats a completed job first, but every path below it overwrites what that sets.
def deriveOperatorActions (ms : MachineState) : OperatorActions :=
  if ms.system == .fault then
    { canClearJob := true, canRecover := true }
  else if ms.system == .recovering then
    { canClearJob := true }
  else
    { canSubmitJob := true
      canStart     := true
      canClearJob  := true
      canResume    := !ms.resumeConsumed }

def updateOperatorActions (s : State) : State :=
  { s with machine := { s.machine with operatorActions := deriveOperatorActions s.machine } }

end Firmware.State
