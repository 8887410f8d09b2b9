import MobilePrinter.Supervisor.Link

-- The supervisor on its own: what its services answer to any sequence of calls, messages and ticks
-- of its timer.

namespace Supervisor

open Firmware

-- An action, and what the shared memory of the firmware holds then. `none` stands for shared memory
-- that could not be mapped.
structure Call where
  action : Action
  shm    : Option MachineStateIpc := none

-- The command that a service is there to send.
def Action.command : Action → Option CommandType
  | .pause _    => some .pause
  | .resume _   => some .resume
  | .abort _    => some .abort
  | .clearJob _ => some .clearJob
  | _           => none

namespace SupervisorNode

def boot (connected : Bool) : SupervisorNode where
  commandWriter := { isConnected := connected }

-- The response if a service is called, the frame that is written, and the node behind the call.
def respond (c : Call) (s : SupervisorNode) :
    Option TriggerResponse × Option CommandIpc × SupervisorNode :=
  match c.action with
  | .pause now                 => (s.pauseSrv now).map some id
  | .resume now                => (s.resumeSrv now).map some id
  | .abort now                 => (s.abortSrv now).map some id
  | .clearJob now              => (s.clearJobSrv now).map some id
  | .startJob                  => (some s.startJobSrv.1, none, s.startJobSrv.2)
  | .motionState execState now => (none, s.motionStateCallback execState now)
  | .timer now                 => (none, s.onTimer c.shm now)

def response (c : Call) (s : SupervisorNode) : Option TriggerResponse :=
  (s.respond c).1

def written (c : Call) (s : SupervisorNode) : Option CommandIpc :=
  (s.respond c).2.1

def next (c : Call) (s : SupervisorNode) : SupervisorNode :=
  (s.respond c).2.2

def step (c : Call) (s : SupervisorNode) : Except Empty SupervisorNode :=
  .ok (s.next c)

end SupervisorNode
end Supervisor
