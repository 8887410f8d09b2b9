import MobilePrinter.Firmware.StateMachine

-- `command_channel.cpp`: the operator's command frames, from shared memory to the state machine.

namespace Firmware

-- `wbp_command_ipc_t`
structure CommandIpc where
  abiVersion       : UInt32 := 1
  seq              : UInt32
  command          : UInt32
  flags            : UInt32 := 0
  timestampNs      : UInt64 := 0
  checksum         : UInt64 := 0
  localizationMode : UInt8  := 0
  deriving DecidableEq, Repr

def commandIpcAbiVersion : UInt32 := 1

-- What one poll reads of the shared memory: the sequence number by itself, and then the whole
-- frame. A writer may run in between, so the two need not agree.
structure CommandShm where
  seq   : UInt32
  frame : CommandIpc
  deriving DecidableEq, Repr

def CommandIpc.validate (cmd : CommandIpc) : Bool :=
  if cmd.abiVersion != commandIpcAbiVersion then
    false
  else if cmd.flags != 0 then
    false
  else
    true

def commandAllowedInState (sys : SystemState) (cmd : CommandType) : Bool :=
  match sys with
  | .fault          => cmd == .recover || cmd == .clearJob
  | .recovering     => cmd == .clearJob
  | .ready          => cmd == .start || cmd == .clearJob || cmd == .setLocalizationMode
  | .executingPrint => cmd == .pause || cmd == .abort
  | .paused         => cmd == .resume || cmd == .abort
  | _               => false

def TransitionResult.outcome : TransitionResult → CommandOutcome
  | .accepted => .accepted
  | _         => .rejected

namespace State

-- The request that a frame makes of the state machine, behind the filters on the system state and
-- on the operator actions that were last published.
def dispatchCommand (s : State) (io : FileOutcomes) (cmd : CommandIpc) : TransitionResult × State :=
  let oa := s.machine.operatorActions
  if !commandAllowedInState s.machine.system (.ofRaw cmd.command) then
    (.rejected, s)
  else
    match CommandType.ofRaw cmd.command with
    | .start               => if !oa.canStart then (.rejected, s) else s.requestStartJob
    | .pause               => s.requestPause
    | .resume              => if !oa.canResume then (.rejected, s) else s.requestResume {}
    | .abort               => s.requestAbort
    | .clearJob            => if !oa.canClearJob then (.rejected, s) else s.requestClearJob io
    | .setLocalizationMode => s.requestSetLocalizationMode (.ofRaw cmd.localizationMode)
    | .recover             => if !oa.canRecover then (.rejected, s) else s.requestRecover io
    | .none | .unknown _   => (.rejected, s)

def handleCommand (s : State) (io : FileOutcomes) (cmd : CommandIpc) : State :=
  let r := s.dispatchCommand io cmd
  (r.2.recordCommandOutcome cmd.seq r.1.outcome).record
    (.commandHandled cmd.seq (.ofRaw cmd.command) r.1.outcome)

def see (s : State) (seq : UInt32) : State :=
  { s with lastSeenSeq := seq }

-- `none` stands for shared memory that could not be mapped.
def pollCommand (s : State) (io : FileOutcomes) (shm : Option CommandShm) : State :=
  match shm with
  | none     => s
  | some shm =>
    if shm.seq ≤ s.lastSeenSeq then
      s
    else if shm.frame.seq != shm.seq then
      s
    else
      let s := s.see shm.seq
      if !shm.frame.validate then
        s
      else
        s.handleCommand io shm.frame

end Firmware.State
