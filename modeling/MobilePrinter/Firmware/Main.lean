import MobilePrinter.Library.Transition
import MobilePrinter.Firmware.CommandChannel
import MobilePrinter.Firmware.JobIngress
import MobilePrinter.Firmware.ExecutionLoop
import MobilePrinter.Firmware.Orchestrator

-- `main.cpp` with the parts that it alone calls, `safety_monitor.cpp`, `execution_gate.cpp`,
-- `invariants.cpp` and `state_publisher.cpp`: the boot of the firmware and one iteration of its
-- loop.

namespace Firmware

inductive SafetyStatus
  | safe
  | warning
  | fault
  deriving DecidableEq, Repr

structure SafetyInputs where
  status         : SafetyStatus := .safe
  emergencyStop  : Bool         := false
  guardOpen      : Bool         := false
  powerOk        : Bool         := true
  frameStable    : Bool         := true
  alignmentValid : Bool         := true
  deriving DecidableEq, Repr

def evaluateSafety (raw : SafetyInputs) : SafetyInputs :=
  if raw.emergencyStop || raw.guardOpen || !raw.powerOk then
    { raw with status := .fault }
  else if !raw.frameStable || !raw.alignmentValid then
    { raw with status := .warning }
  else
    { raw with status := .safe }

-- What the environment does in one tick.
structure TickInput where
  command : Option CommandShm    := none
  job     : Option JobIngressIpc := none
  safety  : SafetyInputs         := {}
  io      : FileOutcomes         := {}
  spin    : List SpinSlice       := []

-- A tick in which a well-formed command frame is read.
def TickInput.issue (seq command : UInt32) : TickInput where
  command := some { seq := seq, frame := { seq := seq, command := command } }

-- A tick in which the job ingress region holds a job of `n` segments, all of whose bytes are zero,
-- or cannot be mapped if it is too small for them.
def TickInput.submit (sequence : UInt32) (n : Nat) : TickInput where
  job :=
    if h : n * segmentSize ≤ jobMaxSize
    then some (.ofBlob sequence (List.replicate (n * segmentSize) 0) (by simpa using h))
    else none

namespace State

def activateJobExecution (s : State) : State :=
  if s.machine.system != .executingPrint then
    s
  else if s.exec.phase != .idle then
    s
  else if s.exec.armed then
    s
  else if !s.ingress.jobLoaded || !s.machine.jobPresent then
    s
  else
    { s with exec := { s.exec with armed := true, completionEmitted := false } }

def checkSafety (s : State) (safety : SafetyInputs) : State :=
  if safety.status == .fault then s.requestFault 0xF001 else s

-- The transition from armed to RUNNING that `main` makes itself.
def armExecution (s : State) : State :=
  if s.machine.system == .executingPrint && s.exec.phase == .idle && s.exec.armed &&
      decide (s.exec.cursor < s.activeJob.totalSegments) then
    { s with exec := { s.exec with phase := .running, armed := false, ownedByExecutor := true } }
  else
    s

def feed (s : State) : Feed RosMotion where
  ctx        := s.exec
  lastCursor := s.lastCursor
  motion     := s.motion
  motionIdle := s.machine.motionIdle
  extruder   := s.extruder

def withFeed (s : State) (f : Feed RosMotion) : State :=
  { s with
    exec       := f.ctx
    lastCursor := f.lastCursor
    motion     := f.motion
    machine    := { s.machine with motionIdle := f.motionIdle }
    extruder   := f.extruder
    history    := f.submitted.map (fun c => .motionSubmitted c.1 c.2) ++ s.history }

def Steps (s : State) (safety : SafetyInputs) : Prop :=
  safety.status = .safe ∧ s.machine.system = .executingPrint ∧ s.exec.phase = .running ∧
    s.exec.abortInProgress = false

instance : Decidable (Steps s safety) :=
  inferInstanceAs (Decidable (_ ∧ _ ∧ _ ∧ _))

def executeStep (s : State) (safety : SafetyInputs) : Except Crash (ExecutionResult × State) :=
  if s.Steps safety then
    (executionStep s.activeJob s.heap s.feed).map fun r => (r.1, s.withFeed r.2)
  else
    .ok (.blocked, s)

def pollMotion (s : State) : State :=
  let r := MotionController.poll s.machine.motionIdle s.motion
  { s with machine := { s.machine with motionIdle := r.2.1 }, motion := r.2.2 }

def sampleMotionIdle (s : State) : State :=
  let ready := MotionController.isReady s.motion
  { s with machine := { s.machine with motionIdle := ready.1 }, motion := ready.2 }

def assertCompleted (s : State) : Except Crash Unit :=
  if s.machine.system == .idle && s.machine.job.state == .completed then
    if s.exec.phase != .idle then
      .error (.assertion .completedNotIdle)
    else if s.exec.cursor != 0 then
      .error (.assertion .completedCursor)
    else if s.exec.ownedByExecutor then
      .error (.assertion .completedOwned)
    else
      .ok ()
  else
    .ok ()

def enforceExecutionOwnership (s : State) : Except Crash Unit :=
  if s.exec.phase == .running && !s.exec.ownedByExecutor then
    .error (.assertion .runningWithoutOwnership)
  else if s.exec.phase != .running && s.exec.ownedByExecutor then
    .error (.assertion .ownershipWithoutRunning)
  else
    .ok ()

def enforceInvariants (s : State) : State :=
  let s :=
    if s.machine.system == .ready && s.exec.phase != .idle
    then { s with exec := s.exec.resetSoft } else s
  let s :=
    if s.machine.system == .paused && s.exec.phase != .paused
    then { s with exec := { s.exec with phase := .paused } } else s
  let s :=
    if s.machine.system == .aborting then { s with exec := s.exec.resetSoft } else s
  if s.machine.system == .fault then { s with exec := s.exec.resetSoft } else s

def publishIpcState (s : State) : State :=
  { s with
    published := {
      sequence               := s.published.sequence + 1
      systemState            := s.machine.system
      safetyState            := s.machine.safety.state
      paused                 := s.machine.system == .paused
      layer                  := s.machine.job.layer
      segment                := s.machine.job.segment
      jobLoaded              := s.ingress.jobLoaded
      jobId                  := s.ingress.jobId.toUInt32
      loadedJobId            := s.ingress.jobId
      loadedJobSchemaVersion := s.ingress.schemaVersion
      loadedJobHash          := s.ingress.jobHash
      lastJobRejection       := s.ingress.lastRejection
      lastCommandSeq         := s.machine.lastCommandSeq
      lastCommandOutcome     := s.machine.lastCommandOutcome } }

def settle (s : State) : State :=
  let s :=
    if s.machine.system == .executingPrint && s.exec.phase == .running
    then s.enforceInvariants else s
  let s := s.clearPausePendingIfStable
  let s := { s with
    machine := { s.machine with resumePermanentlyDisabled := s.machine.resumeConsumed } }
  s.updateOperatorActions.publishIpcState

-- The state in which the safety inputs are evaluated: the command and the job of the tick have been
-- handled and the gate has run.
def prepare (s : State) (i : TickInput) : State :=
  let s := ((s.pollCommand i.io i.command).pollJobIngress i.job).activateJobExecution
  { s with motion := { s.motion with schedule := i.spin } }

def arm (s : State) (i : TickInput) : State :=
  ((s.prepare i).checkSafety (evaluateSafety i.safety)).armExecution

-- The state that the orchestrator receives, with the result of the execution step.
def execute (s : State) (i : TickInput) : Except Crash (ExecutionResult × State) :=
  ((s.arm i).executeStep (evaluateSafety i.safety)).map
    fun r => (r.1, r.2.pollMotion.sampleMotionIdle)

def checkAssertions (s : State) : Except Crash State := do
  s.assertCompleted
  s.enforceExecutionOwnership
  return s.settle

end State

def tick (i : TickInput) (s : State) : Except Crash State := do
  let (result, s) ← s.execute i
  let s ← s.orchestratorStep i.io result
  s.sampleMotionIdle.checkAssertions

structure BootOutcomes where
  load   : Bool := true
  clear  : Bool := true
  reload : Bool := true

namespace State

def classifyBootState (s : State) (io : BootOutcomes) : State :=
  let s := { s with
    exec    := s.exec.resetSoft
    machine := { s.machine with
      recoveryInProgress        := false
      resumeAvailable           := false
      resumeConsumed            := false
      system                    := .ready
      operatorRecoveryRequired  := false
      resumePermanentlyDisabled := false
      operatorActions           := {} } }
  match loadExecutionSnapshot io.load s.snapshotFile with
  | none      => s
  | some snap =>
    if snap.magic != snapshotMagic || snap.systemAtSnapshot != .paused then
      { s with snapshotFile := clearExecutionSnapshot io.clear s.snapshotFile }
    else if snap.jobId != s.machine.jobId || snap.jobSchemaVersion != s.machine.jobSchemaVersion ||
        snap.jobHash != s.machine.jobHash then
      { s with snapshotFile := clearExecutionSnapshot io.clear s.snapshotFile }
    else
      { s with machine := { s.machine with system := .paused, resumeAvailable := true } }

def reconstructPauseSnapshot (s : State) (io : BootOutcomes) : Except Crash State :=
  if s.machine.system == .paused then
    match loadExecutionSnapshot io.reload s.snapshotFile with
    | none      => .error (.assertion .snapshotReload)
    | some snap => .ok { s with
        pauseSnapshot := some {
          jobId          := snap.jobId.toUInt32
          layer          := snap.layer
          segment        := snap.segment.toNat
          intraProgress  := snap.unitProgress
          volumeChecksum := snap.checksum } }
  else
    .ok s

end State

-- The state in which the loop is entered for the first time after power-up.
def boot (io : BootOutcomes) (file : SnapshotFile) : Except Crash State :=
  let s : State := { snapshotFile := file }
  let s := { s with machine := { s.machine with bootId := s.machine.bootId + 1 } }
  (s.classifyBootState io).reconstructPauseSnapshot io

def Booted (s : State) : Prop :=
  ∃ io file, boot io file = .ok s

-- The tick boundaries of all runs from all boots.
inductive Reachable (s : State) : Prop
  | intro (boot : Booted s₀) (run : Transition.Run tick s₀ is s)

end Firmware
