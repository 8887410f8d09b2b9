import MobilePrinter.Firmware.SafeTravelRules
import MobilePrinter.Firmware.State
import MobilePrinter.Library.Transition

-- `command_executor.cpp` with the commands of `command.hpp`, and what it changes of
-- `printed_volume.cpp`.

namespace Firmware

inductive Command (R : Type)
  | jobStart (jobId : UInt32)
  | setLayer (layer : UInt32)
  | printSegment (seg x y : UInt32) (z : R)
  | jobEnd

inductive CommandResult
  | executed
  | blocked
  deriving DecidableEq, Repr

namespace PrintedVolume

structure Full (R : Type) extends PrintedVolume R where
  sy             : UInt32
  volumeChecksum : UInt32

namespace Full

variable {R : Type}

-- The number of cells is a product of 32 bits.
def construct [Zero R] (sx sy : UInt32) : Full R where
  sx             := sx
  height         := List.replicate (sx * sy).toNat 0
  sy             := sy
  volumeChecksum := 0

def commit [LT R] [DecidableLT R] (x y : UInt32) (z : R) (v : Full R) : Except Crash (Full R) :=
  match v.maxHeight x y with
  | none   => .error .badAccess
  | some h =>
    if z > h then
      .ok { v with
        height         := v.height.set (v.idx x y) z
        volumeChecksum := v.volumeChecksum + 1 }
    else
      .ok v

end Full
end PrintedVolume

structure CommandExecutor (R : Type) where
  state  : MachineState
  volume : PrintedVolume.Full R
  ctx    : ExecutionContext

namespace CommandExecutor

variable {R : Type}

def construct [Zero R] (state : MachineState) (sx sy : UInt32) (ctx : ExecutionContext) :
    CommandExecutor R where
  state  := state
  volume := .construct sx sy
  ctx    := ctx

-- The height `z` of a segment is a double, which `narrow` casts to a float for the volume.
def printSegment [LT R] [DecidableLT R] (narrow : R → R) (seg x y : UInt32) (z : R)
    (s : CommandExecutor R) : Except Crash (CommandResult × CommandExecutor R) :=
  match SafeTravelRules.canDescend s.state s.volume.toPrintedVolume x y z with
  | none       => .error .badAccess
  | some false => .ok (.blocked, s)
  | some true  =>
    (s.volume.commit x y (narrow z)).map fun volume =>
      (.executed, { s with
        volume := volume
        state  := { s.state with job := { s.state.job with segment := seg } } })

def execute [LT R] [DecidableLT R] (narrow : R → R) (cmd : Command R) (s : CommandExecutor R) :
    Except Crash (CommandResult × CommandExecutor R) :=
  if !s.state.operatorActions.canStart && cmd matches .jobStart _ then
    .ok (.blocked, s)
  else if s.ctx.phase == .paused then
    .ok (.blocked, s)
  else
    match cmd with
    | .jobStart _             =>
      .ok (.executed, { s with state := { s.state with system := .executingPrint } })
    | .setLayer layer         =>
      .ok (.executed, { s with
        state := { s.state with job := { s.state.job with layer := layer } } })
    | .printSegment seg x y z => s.printSegment narrow seg x y z
    | .jobEnd                 =>
      .ok (.executed, { s with state := { s.state with system := .idle } })

def pause (s : CommandExecutor R) : PauseSnapshot × CommandExecutor R :=
  ({ jobId          := s.state.job.jobId
     layer          := s.state.job.layer
     segment        := s.state.job.segment.toNat
     intraProgress  := s.ctx.unitProgress
     volumeChecksum := s.volume.volumeChecksum },
   { s with ctx := { s.ctx with phase := .paused } })

def resume (snap : PauseSnapshot) (s : CommandExecutor R) : Bool × CommandExecutor R :=
  if snap.volumeChecksum != s.volume.volumeChecksum then
    (false, s)
  else
    (true, { s with
      ctx := { s.ctx with phase := .running, unitProgress := snap.intraProgress } })

inductive Input (R : Type)
  | execute (cmd : Command R)
  | pause
  | resume (snap : PauseSnapshot)
  -- What the rest of the firmware makes of the records.
  | other (state : MachineState) (ctx : ExecutionContext)

def step [LT R] [DecidableLT R] (narrow : R → R) (i : Input R) (s : CommandExecutor R) :
    Except Crash (CommandExecutor R) :=
  match i with
  | .execute cmd     => (s.execute narrow cmd).map Prod.snd
  | .pause           => .ok s.pause.2
  | .resume snap     => .ok (s.resume snap).2
  | .other state ctx => .ok { s with state := state, ctx := ctx }

end CommandExecutor
end Firmware
