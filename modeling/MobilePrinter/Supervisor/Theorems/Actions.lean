import MobilePrinter.Supervisor.Link

namespace Supervisor

open Firmware Transition

inductive Writes (w : IpcCommandWriter) : Option CommandIpc → IpcCommandWriter → Prop
  | nothing : Writes w none w
  | frame (valid : cmd.validate = true) (next : cmd.seq = w.seq + 1) :
    Writes w (some cmd) { w with seq := cmd.seq }

theorem Writes.numbered (h : Writes w (some cmd) w') :
    cmd.validate = true ∧ cmd.seq = w.seq + 1 ∧ w'.seq = cmd.seq := by
  cases h
  case frame valid next => exact ⟨valid, next, rfl⟩

namespace SupervisorNode

variable {s : SupervisorNode} {a : Action}

theorem sendCommand_writes (w : IpcCommandWriter) (cmd : CommandType) (now : UInt64) :
    Writes w (w.sendCommand cmd now).1 (w.sendCommand cmd now).2 := by
  simp only [IpcCommandWriter.sendCommand]
  split
  · exact .nothing
  split
  · exact .nothing
  · exact .frame rfl rfl

-- The attempt to send a command is given up without a trace, or the command is written and marked.
inductive Attempts (cmd : CommandType) (s : SupervisorNode) :
    Option CommandIpc × SupervisorNode → Prop
  | refused : Attempts cmd s (none, s)
  | sent (state : s.lastState = some msg) (writes : Writes s.commandWriter (some frame) writer) :
    Attempts cmd s (some frame, { s with
      commandWriter := writer
      commandPolicy := s.commandPolicy.markSent cmd msg })

theorem attempt_attempts (cmd : CommandType) (now : UInt64) (s : SupervisorNode) :
    Attempts cmd s (s.attempt cmd now).2 := by
  simp only [attempt]
  split
  case _ => exact .refused
  case _ msg hm =>
    split
    case isTrue => exact .refused
    split
    case isTrue => exact .refused
    have hw := sendCommand_writes s.commandWriter cmd now
    generalize s.commandWriter.sendCommand cmd now = r at hw
    have ⟨frame, writer⟩ := r
    cases hw
    case nothing          => exact .refused
    case frame valid next => exact .sent hm (.frame valid next)

-- The node from which an action tries to send its command.
def seen (a : Action) (shm : MachineStateIpc) (s : SupervisorNode) : SupervisorNode :=
  match a with
  | .timer _ => s.observe (.ofIpc shm)
  | _        => s

theorem observe_commandWriter : (s.observe msg).commandWriter = s.commandWriter := by
  simp only [observe]
  split <;> rfl

theorem seen_commandWriter : (s.seen a shm).commandWriter = s.commandWriter := by
  cases a
  case timer => exact observe_commandWriter
  all_goals rfl

-- What an action does: nothing to the policy, or it writes a command and marks it.
inductive Performs (a : Action) (s : SupervisorNode) :
    Option CommandIpc → SupervisorNode → Prop
  | quiet (policy : s'.commandPolicy = s.commandPolicy) (state : s'.lastState = s.lastState)
    (writer : s'.commandWriter = s.commandWriter) : Performs a s none s'
  | unmarked (marks : a.marks = false) (policy : s'.commandPolicy = s.commandPolicy)
    (state : s'.lastState = s.lastState)
    (writes : Writes s.commandWriter (some frame) s'.commandWriter) : Performs a s (some frame) s'
  | marked (marks : a.marks = true) (sent : s.lastState = some msg)
    (policy : s'.commandPolicy = s.commandPolicy.markSent cmd msg)
    (state : s'.lastState = s.lastState)
    (writes : Writes s.commandWriter (some frame) s'.commandWriter) : Performs a s (some frame) s'

structure Alike (s t : SupervisorNode) : Prop where
  policy : t.commandPolicy = s.commandPolicy
  state  : t.lastState = s.lastState
  writer : t.commandWriter = s.commandWriter

theorem Performs.congr (h : Performs a s frame s') (ha : Alike s t) (ha' : Alike s' t') :
    Performs a t frame t' := by
  have ⟨hp, hs, hw⟩ := ha
  have ⟨hp', hs', hw'⟩ := ha'
  cases h
  case quiet => constructor <;> simp [*]
  case unmarked writes => exact .unmarked ‹_› (by simp [*]) (by simp [*]) (by rwa [hw, hw'])
  case marked writes =>
    exact .marked ‹_› (by rwa [hs]) (by rw [hp', hp]; assumption) (by simp [*]) (by rwa [hw, hw'])

theorem Attempts.performs (h : Attempts cmd s r) (hm : a.marks = true) :
    Performs a s r.1 r.2 := by
  cases h
  case refused    => exact .quiet rfl rfl rfl
  case sent hs hw => exact .marked hm hs rfl rfl hw

theorem sendAbort_performs (now : UInt64) (hm : a.marks = false) :
    Performs a s (s.sendAbortToFirmware now).2.1 (s.sendAbortToFirmware now).2.2 := by
  simp only [sendAbortToFirmware]
  split
  case isTrue => exact .quiet rfl rfl rfl
  case isFalse =>
    have hw := sendCommand_writes s.commandWriter .abort now
    generalize s.commandWriter.sendCommand .abort now = r at hw
    have ⟨frame, writer⟩ := r
    cases hw
    case nothing          => exact .quiet rfl rfl rfl
    case frame valid next => exact .unmarked hm rfl rfl (.frame valid next)

theorem perform_performs (a : Action) (shm : MachineStateIpc) (s : SupervisorNode) :
    Performs a (s.seen a shm) (s.perform a shm).1 (s.perform a shm).2 := by
  cases a
  case pause now => exact (attempt_attempts .pause now s).performs rfl
  case clearJob now => exact (attempt_attempts .clearJob now s).performs rfl
  case abort => exact sendAbort_performs _ rfl
  case startJob => exact .quiet rfl rfl rfl
  case resume now =>
    simp only [perform, resumeSrv]
    split
    case _ => exact .quiet rfl rfl rfl
    case _ =>
      split
      · exact .quiet rfl rfl rfl
      · exact (attempt_attempts .resume now s).performs rfl
  case motionState execState now =>
    simp only [perform, motionStateCallback]
    split
    case isFalse => exact .quiet rfl rfl rfl
    split
    case isFalse => exact .quiet rfl rfl rfl
    let s₁ := { s with lastExecState := some execState }
    have h := sendAbort_performs (s := s₁) now (a := .motionState execState now) rfl
    exact h.congr ⟨rfl, rfl, rfl⟩ ⟨rfl, rfl, rfl⟩
  case timer now =>
    simp only [perform, onTimer]
    split
    case isFalse => exact .quiet rfl rfl rfl
    have h := (attempt_attempts .start now (s.observe (.ofIpc shm))).performs (a := .timer now) rfl
    exact h.congr ⟨rfl, rfl, rfl⟩ ⟨rfl, rfl, rfl⟩

end SupervisorNode

namespace Link

variable {s s' : Link}

theorem tick_ok (h : s.tick i = .ok s') :
    ∃ f, Firmware.tick (s.reading i) s.firmware = .ok f ∧ s' = s.land f :=
  map_eq_ok.mp h

theorem restartFirmware_ok (h : s.restartFirmware io = .ok s') :
    ∃ f, boot io s.firmware.snapshotFile = .ok f ∧
      s' = { s with firmware := f, slot := { abiVersion := 0, seq := 0, command := 0 } } :=
  map_eq_ok.mp h

end Link
end Supervisor
