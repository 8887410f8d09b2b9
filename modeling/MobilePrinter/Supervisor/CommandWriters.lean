import MobilePrinter.Firmware.CommandChannel

-- The writers of the command channel: `ipc_command_writer.cpp` of the supervisor, and that of the
-- firmware bridge with the service that calls it.

namespace Supervisor

open Firmware

def rawCommand : CommandType → UInt32
  | .none                => 0
  | .start               => 1
  | .pause               => 2
  | .resume              => 3
  | .abort               => 4
  | .setLocalizationMode => 5
  | .clearJob            => 6
  | .recover             => 7
  | .unknown raw         => raw

def xorChecksum (c : CommandIpc) : UInt64 :=
  c.abiVersion.toUInt64 ^^^ c.seq.toUInt64 ^^^ c.command.toUInt64 ^^^ c.flags.toUInt64 ^^^
    c.timestampNs

structure IpcCommandWriter where
  isConnected : Bool
  seq         : UInt32 := 0
  deriving DecidableEq, Repr

namespace IpcCommandWriter

-- The constructor marks whatever frame the shared memory holds with its version of the interface.
def connect (slot : CommandIpc) : CommandIpc :=
  { slot with abiVersion := commandIpcAbiVersion }

def sendCommand (command : CommandType) (now : UInt64) (w : IpcCommandWriter) :
    Option CommandIpc × IpcCommandWriter :=
  if !w.isConnected then
    (none, w)
  else if command = .none then
    (none, w)
  else
    let seq := w.seq + 1
    let cmd : CommandIpc := {
      abiVersion  := commandIpcAbiVersion
      seq         := seq
      command     := rawCommand command
      flags       := 0
      timestampNs := now }
    (some { cmd with checksum := xorChecksum cmd }, { w with seq })

end IpcCommandWriter

namespace FirmwareBridge

-- The frame that the service writes if it can map the shared memory, and then it answers that the
-- command was accepted. All fields but the command are zero.
def handleCommand (connected : Bool) (command : UInt8) : Option CommandIpc :=
  if !connected then
    none
  else
    some { abiVersion := 0, seq := 0, command := command.toUInt32 }

end FirmwareBridge
end Supervisor
