import MobilePrinter.Firmware.Main
import MobilePrinter.Ui.UiPolicy

-- The firmware, the user interface and the topic that carries the published states from one to the
-- other.

namespace Ui

open Firmware Supervisor

-- A command that is marked as sent, the number of the frame that carries it to the firmware, and
-- how many commands the firmware has handled before.
structure Mark where
  command : CommandType
  seq     : UInt32
  since   : Nat
  deriving DecidableEq

structure Console where
  firmware : State
  -- The states whose published record is on its way, oldest first.
  topic    : List State  := []
  policy   : UiPolicy    := {}
  mark     : Option Mark := none

inductive Input
  | tick (i : TickInput)
  | sample
  | observe
  | mark (command : CommandType) (seq : UInt32)

namespace Console

def tick (i : TickInput) (s : Console) : Except Crash Console :=
  (Firmware.tick i s.firmware).map fun firmware => { s with firmware }

-- The supervisor reads what is published, and sends it on.
def sample (s : Console) : Console :=
  { s with topic := s.topic ++ [s.firmware] }

def observe (s : Console) : Console :=
  match s.topic with
  | []         => s
  | f :: topic => { s with topic, policy := s.policy.observeFirmwareState (.ofIpc f.published) }

def markCommandSent (command : CommandType) (seq : UInt32) (s : Console) : Console :=
  { s with
    policy := s.policy.markCommandSent command
    mark   := some { command, seq, since := s.firmware.history.handled.length } }

def step (i : Input) (s : Console) : Except Crash Console :=
  match i with
  | .tick i           => s.tick i
  | .sample           => .ok s.sample
  | .observe          => .ok s.observe
  | .mark command seq => .ok (s.markCommandSent command seq)

end Console
end Ui
