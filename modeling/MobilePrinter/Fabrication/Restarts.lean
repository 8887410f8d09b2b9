import MobilePrinter.Fabrication.Streaming

-- Sessions of the firmware, which starts anew while the other node runs on.

namespace Fabrication

open Firmware

namespace Streaming

-- The counters of the motion controller start at zero again. Of what is under way, the new session
-- may miss the oldest completions, and the newest targets of the old one may never be sent.
def restart (sent missed : Nat) (s : Streaming) : Streaming where
  world       := s.world
  targets     := s.targets.take sent
  completions := s.completions.drop missed

-- A completion reaches the firmware before those that were published ahead of it.
def overtake (index : Nat) (s : Streaming) : Streaming :=
  { s with completions := s.completions[index]?.toList ++ s.completions.eraseIdx index }

end Streaming

namespace Restarts

inductive Input
  | session (i : Streaming.Input)
  | overtake (index : Nat)
  | restart (sent missed : Nat)

def step [Arithmetic Double] (i : Input) (s : Streaming) : Except Empty Streaming :=
  match i with
  | .session i           => s.step i
  | .overtake index      => .ok (s.overtake index)
  | .restart sent missed => .ok (s.restart sent missed)

end Restarts
end Fabrication
