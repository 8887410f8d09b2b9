import MobilePrinter.Supervisor.CommandPolicy

-- `ui_policy.cpp`: which actions the user interface offers, and how long it is locked behind a
-- command.

namespace Ui

open Firmware Supervisor

structure UiActionState where
  enabled : Bool   := false
  reason  : String := ""
  deriving DecidableEq, Repr

structure UiState where
  start  : UiActionState := {}
  pause  : UiActionState := {}
  resume : UiActionState := {}
  abort  : UiActionState := {}
  deriving DecidableEq, Repr

structure AlignmentStatus where
  status : UInt8
  deriving DecidableEq, Repr

def AlignmentStatus.valid : UInt8 := 0

-- The user interface takes a job for running once it has a layer or a segment.
def executing (fw : MachineStateMsg) : Bool :=
  decide (fw.layer > 0) || decide (fw.segment > 0)

def computeUiState (fw : MachineStateMsg) (align : AlignmentStatus) (commandPending : Bool) :
    UiState :=
  -- hard lock while command pending
  if commandPending then
    { start := { reason := "Command pending" } }
  else
    { start :=
        if !fw.jobLoaded then { reason := "No job loaded" }
        else if executing fw then { reason := "Already executing" }
        else { enabled := true }
      pause :=
        if !executing fw then { reason := "Not executing" }
        else if fw.paused then { reason := "Already paused" }
        else { enabled := true }
      resume :=
        if !fw.paused then { reason := "Not paused" }
        else if align.status != AlignmentStatus.valid then { reason := "Alignment invalid" }
        else { enabled := true }
      abort := { enabled := executing fw || fw.paused } }

-- The user interface has no other actions.
def UiState.enables (ui : UiState) : CommandType → Bool
  | .start  => ui.start.enabled
  | .pause  => ui.pause.enabled
  | .resume => ui.resume.enabled
  | .abort  => ui.abort.enabled
  | _       => false

structure UiPolicy where
  pending : Option CommandType := none
  deriving DecidableEq, Repr

namespace UiPolicy

def markCommandSent (type : CommandType) (_ : UiPolicy) : UiPolicy where
  pending := some type

def observeFirmwareState (fw : MachineStateMsg) (p : UiPolicy) : UiPolicy :=
  match p.pending with
  | none         => p
  -- START resolves only when execution begins
  | some .start  => if executing fw then {} else p
  -- PAUSE resolves when paused flips true
  | some .pause  => if fw.paused then {} else p
  -- RESUME resolves when paused clears
  | some .resume => if !fw.paused then {} else p
  -- ABORT resolves when job unloaded
  | some .abort  => if !fw.jobLoaded then {} else p
  | some _       => p

def isCommandPending (p : UiPolicy) : Bool :=
  p.pending.isSome

end UiPolicy
end Ui
