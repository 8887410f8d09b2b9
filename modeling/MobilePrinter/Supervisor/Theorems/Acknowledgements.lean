import MobilePrinter.Supervisor.Services
import MobilePrinter.Supervisor.Theorems.Actions

namespace Supervisor

open Firmware Transition

def Wrote (cmd : CommandType) (frame : Option CommandIpc) : Prop :=
  ∃ f, frame = some f ∧ f.command = rawCommand cmd

theorem Wrote.ne_none (h : Wrote cmd frame) : frame ≠ none := by
  have ⟨_, h, _⟩ := h
  simp [h]

namespace SupervisorNode

variable {s : SupervisorNode} {c : Call} {w : IpcCommandWriter}

structure Truthful (c : Call) (s : SupervisorNode) : Prop where
  answers : ∀ cmd r, c.action.command = some cmd → s.response c = some r → r.success = true →
    Wrote cmd (s.written c)
  latch   : s.startRequested = true → (s.next c).startRequested = false →
    (∃ now, c.action = .timer now) ∧ Wrote .start (s.written c)

structure CanSend (s : SupervisorNode) : Prop where
  state     : s.lastState.isSome = true
  free      : s.commandPolicy.commandInFlight = false
  connected : s.commandWriter.isConnected = true

-- A RESUME that will be reported as sent can be sent, and so can a START that consumes its request,
-- unless it is blocked by a command whose outcome the published state does not show.
def Sendable (c : Call) (s : SupervisorNode) : Prop :=
  match c.action, c.shm with
  | .resume _, _       => (∃ e, s.lastExecState = some e ∧ e ≠ execFault) → s.CanSend
  | .timer _, some shm =>
    s.startRequested = true → shm.jobLoaded = true →
      (s.startSent = true → shm.systemState = .ready) →
      s.commandWriter.isConnected = true ∧ s.commandPolicy.preState ≠ some (.ofIpc shm)
  | _, _               => True

-- What the policy has in flight was sent from a state that is known.
structure Marked (s : SupervisorNode) : Prop where
  pre   : s.commandPolicy.activeCommand.isSome = s.commandPolicy.preState.isSome
  state : s.commandPolicy.preState.isSome = true → s.lastState.isSome = true

theorem sendCommand_wrote (hw : w.isConnected = true) (hc : cmd ≠ .none) (now : UInt64) :
    Wrote cmd (w.sendCommand cmd now).1 := by
  simp [IpcCommandWriter.sendCommand, hw, hc, Wrote]

theorem attempt_of_canSend (h : s.CanSend) (hc : cmd ≠ .none) (now : UInt64) :
    (s.attempt cmd now).1 = .sent ∧ Wrote cmd (s.attempt cmd now).2.1 := by
  have ⟨msg, hm⟩ := Option.isSome_iff_exists.mp h.state
  have hp : s.commandPolicy.canSend cmd msg = true := by
    simpa [CommandPolicy.canSend, CommandPolicy.commandInFlight] using h.free
  have ⟨frame, hf, hr⟩ := sendCommand_wrote h.connected hc now
  have he : s.commandWriter.sendCommand cmd now =
    (some frame, (s.commandWriter.sendCommand cmd now).2) := Prod.ext hf rfl
  simp only [attempt, hm, hp, h.connected]
  rw [he]
  exact ⟨rfl, frame, rfl, hr⟩

theorem attempt_of_not_canSend (h : ¬s.CanSend) (cmd : CommandType) (now : UInt64) :
    (s.attempt cmd now).1 ≠ .sent ∧ (s.attempt cmd now).2.1 = none := by
  simp only [attempt]
  split
  case _ => simp
  case _ msg hm =>
    split
    case isTrue => simp
    case isFalse hp =>
      split
      case isTrue => simp
      case isFalse hw =>
        refine absurd ⟨by simp [hm], ?_, by simpa using hw⟩ h
        simpa [CommandPolicy.canSend, CommandPolicy.commandInFlight] using hp

theorem attempt_wrote (hc : cmd ≠ .none) : Wrote cmd (s.attempt cmd now).2.1 ↔ s.CanSend where
  mp hw := by
    by_contra h
    exact hw.ne_none (attempt_of_not_canSend h cmd now).right
  mpr h := (attempt_of_canSend h hc now).right

theorem attempt_sent (h : (s.attempt cmd now).1 = .sent) (hc : cmd ≠ .none) :
    Wrote cmd (s.attempt cmd now).2.1 := by
  by_contra hw
  exact (attempt_of_not_canSend ((attempt_wrote hc).not.mp hw) cmd now).left h

theorem attempt_startRequested : (s.attempt cmd now).2.2.startRequested = s.startRequested := by
  have h := attempt_attempts cmd now s
  generalize (s.attempt cmd now).2 = r at h
  cases h <;> rfl

theorem sendAbort_startRequested :
    (s.sendAbortToFirmware now).2.2.startRequested = s.startRequested := by
  simp only [sendAbortToFirmware]
  split <;> rfl

theorem observe_startRequested : (s.observe msg).startRequested = s.startRequested := by
  simp only [observe]
  split <;> rfl

theorem observe_lastState : (s.observe msg).lastState = some msg := by
  simp only [observe]
  split <;> rfl

theorem observe_commandPolicy : (s.observe msg).commandPolicy =
    if s.lastState.isSome then (s.commandPolicy.evaluate msg).2 else s.commandPolicy := by
  simp only [observe]
  split <;> rfl

theorem observe_startSent : (s.observe msg).startSent = true ↔
    s.startSent = true ∧ msg.systemState ≠ .ready := by
  simp only [observe]
  split <;> simp_all

theorem sendAbort_wrote (h : (s.sendAbortToFirmware now).1 = true) :
    Wrote .abort (s.sendAbortToFirmware now).2.1 := by
  cases hw : s.commandWriter.isConnected
  case false => simp [sendAbortToFirmware, hw] at h
  case true  => simpa [sendAbortToFirmware, hw] using sendCommand_wrote hw (by decide) now

theorem clearJob_sent (h : (s.clearJobSrv now).1.success = true) :
    (s.attempt .clearJob now).1 = .sent := by
  simp only [clearJobSrv] at h
  cases ha : (s.attempt .clearJob now).1 <;> simp_all

theorem truthful_iff_answer (hc : c.action.command = some cmd) (hr : s.response c = some r)
    (hs : (s.next c).startRequested = s.startRequested) :
    Truthful c s ↔ (r.success = true → Wrote cmd (s.written c)) where
  mp h  := h.answers cmd r hc hr
  mpr h := by
    refine ⟨fun cmd' r' hc' hr' => ?_, fun hn hf => absurd (hs.symm.trans hf) (by simp [hn])⟩
    cases hc.symm.trans hc'
    cases hr.symm.trans hr'
    exact h

theorem truthful_of_silent (hc : c.action.command = none)
    (hs : s.startRequested = true → (s.next c).startRequested = true) : Truthful c s where
  answers _ _ hn      := nomatch hc.symm.trans hn
  latch hn hf         := absurd (hs hn) (by simp [hf])

namespace Marked

theorem boot : Marked (boot connected) :=
  ⟨rfl, nofun⟩

theorem attempt (h : Marked s) : Marked (s.attempt cmd now).2.2 := by
  have ha := attempt_attempts cmd now s
  generalize (s.attempt cmd now).2 = r at ha
  cases ha
  case refused   => exact h
  case sent hs _ => exact ⟨rfl, fun _ => by simp [hs]⟩

theorem sendAbort (h : Marked s) : Marked (s.sendAbortToFirmware now).2.2 := by
  simp only [sendAbortToFirmware]
  split
  · exact h
  · exact ⟨h.pre, h.state⟩

theorem observe (h : Marked s) : Marked (s.observe msg) := by
  refine ⟨?_, fun _ => by rw [observe_lastState]; rfl⟩
  rw [observe_commandPolicy]
  split
  case isFalse => exact h.pre
  case isTrue =>
    simp only [CommandPolicy.evaluate]
    split
    case h_2 => exact h.pre
    case h_1 =>
      split
      · rfl
      · exact h.pre

theorem observe_commandInFlight (h : Marked s) :
    (s.observe msg).commandPolicy.commandInFlight = true ↔
      s.commandPolicy.preState = some msg := by
  rw [observe_commandPolicy]
  have ⟨hp, hs⟩ := h
  cases hc : s.commandPolicy.activeCommand <;> cases hm : s.commandPolicy.preState
  all_goals simp only [hc, hm, Option.isSome_some, Option.isSome_none, reduceCtorEq] at hp hs
  case none.none =>
    simp [CommandPolicy.evaluate, CommandPolicy.commandInFlight, hc]
  case some.some cmd pre =>
    simp only [hs, if_true, CommandPolicy.evaluate, CommandPolicy.commandInFlight, hc, hm]
    by_cases he : msg = pre <;> simp [he, hc, eq_comm]

theorem observe_canSend (h : Marked s) : (s.observe msg).CanSend ↔
    s.commandWriter.isConnected = true ∧ s.commandPolicy.preState ≠ some msg := by
  have hw : (s.observe msg).commandWriter = s.commandWriter := observe_commandWriter
  rw [Ne, ← h.observe_commandInFlight, Bool.not_eq_true, ← hw]
  exact ⟨fun h => ⟨h.connected, h.free⟩, fun h => ⟨by rw [observe_lastState]; rfl, h.right, h.left⟩⟩

theorem next (h : Marked s) : Marked (s.next c) := by
  have ⟨a, shm⟩ := c
  cases a
  case pause    => exact h.attempt
  case clearJob => exact h.attempt
  case abort    => exact h.sendAbort
  case startJob => exact ⟨h.pre, h.state⟩
  case resume   =>
    simp only [SupervisorNode.next, respond, resumeSrv]
    split
    case _ => exact h
    case _ =>
      split
      · exact h
      · exact h.attempt
  case motionState execState now =>
    let s₁ := { s with lastExecState := some execState }
    have h₁ : Marked (s₁.sendAbortToFirmware now).2.2 := sendAbort ⟨h.pre, h.state⟩
    simp only [SupervisorNode.next, respond, motionStateCallback]
    split
    case isFalse => exact ⟨h.pre, h.state⟩
    split
    case isFalse => exact ⟨h.pre, h.state⟩
    case isTrue  => exact ⟨h₁.pre, h₁.state⟩
  case timer now =>
    cases shm
    case none => exact h
    case some shm =>
      have h₁ : Marked (s.observe (.ofIpc shm)) := h.observe
      have h₂ : Marked ((s.observe (.ofIpc shm)).attempt .start now).2.2 := h₁.attempt
      simp only [SupervisorNode.next, respond, onTimer]
      split
      case isFalse => exact h₁
      case isTrue  => exact ⟨h₂.pre, h₂.state⟩

end Marked

theorem pause_truthful : Truthful { action := .pause now, shm } s := by
  refine (truthful_iff_answer rfl rfl ?_).mpr fun hs => ?_
  · exact attempt_startRequested
  · exact attempt_sent (eq_of_beq hs) nofun

theorem clearJob_truthful : Truthful { action := .clearJob now, shm } s := by
  refine (truthful_iff_answer rfl rfl ?_).mpr fun hs => ?_
  · exact attempt_startRequested
  · exact attempt_sent (clearJob_sent hs) nofun

theorem abort_truthful : Truthful { action := .abort now, shm } s := by
  refine (truthful_iff_answer rfl rfl ?_).mpr fun hs => ?_
  · exact sendAbort_startRequested
  · exact sendAbort_wrote hs

theorem motionState_truthful : Truthful { action := .motionState execState now, shm } s := by
  refine truthful_of_silent rfl fun hs => ?_
  simp only [next, respond, motionStateCallback]
  split
  case isFalse => exact hs
  split
  case isFalse => exact hs
  case isTrue  => exact sendAbort_startRequested.trans hs

theorem respond_resume (h : ∃ e, s.lastExecState = some e ∧ e ≠ execFault) :
    s.respond { action := .resume now, shm } =
      (some ⟨true, "resume sent"⟩, (s.attempt .resume now).2) := by
  have ⟨e, he, hf⟩ := h
  simp [respond, resumeSrv, he, hf, sendCommand]

theorem respond_resume_refused (h : ¬∃ e, s.lastExecState = some e ∧ e ≠ execFault) :
    ∃ m, s.respond { action := .resume now, shm } = (some ⟨false, m⟩, none, s) := by
  cases he : s.lastExecState
  case none => exact ⟨_, by simp only [respond, resumeSrv, he]; rfl⟩
  case some e =>
    have hf : (e == execFault) = true := by simpa [he] using h
    exact ⟨_, by simp only [respond, resumeSrv, he, hf]; rfl⟩

theorem resume_truthful : Truthful { action := .resume now, shm } s ↔
    ((∃ e, s.lastExecState = some e ∧ e ≠ execFault) → s.CanSend) := by
  have hn : CommandType.resume ≠ .none := nofun
  by_cases h : ∃ e, s.lastExecState = some e ∧ e ≠ execFault
  case pos =>
    have hr : s.respond { action := .resume now, shm } = _ := respond_resume h
    have hf : s.written { action := .resume now, shm } = _ := congrArg (·.2.1) hr
    rw [truthful_iff_answer rfl (congrArg (·.1) hr)
      ((congrArg (·.2.2.startRequested) hr).trans attempt_startRequested), hf, attempt_wrote hn]
    exact ⟨fun hc _ => hc rfl, fun hc _ => hc h⟩
  case neg =>
    have ⟨m, hr⟩ : ∃ m, s.respond { action := .resume now, shm } = (some ⟨false, m⟩, none, s) :=
      respond_resume_refused h
    rw [truthful_iff_answer rfl (congrArg (·.1) hr) (congrArg (·.2.2.startRequested) hr)]
    exact iff_of_true nofun fun hn => absurd hn h

-- The timer consumes the start request together with an attempt to send START, or it leaves it.
theorem onTimer_sends (now : UInt64) (hs : s.startRequested = true)
    (hj : shm.jobLoaded = true) (hr : s.startSent = true → shm.systemState = .ready) :
    s.written { action := .timer now, shm := some shm } =
        ((s.observe (.ofIpc shm)).attempt .start now).2.1 ∧
      (s.next { action := .timer now, shm := some shm }).startRequested = false := by
  have hr : (s.observe (.ofIpc shm)).startSent = false := by
    by_contra hn
    have ⟨hs, hn⟩ := observe_startSent.mp (Bool.not_eq_false _ ▸ hn)
    exact hn (hr hs)
  have hs : (s.observe (.ofIpc shm)).startRequested = true := observe_startRequested.trans hs
  have hj : (MachineStateMsg.ofIpc shm).jobLoaded = true := hj
  simp [written, next, respond, onTimer, hr, hs, hj, sendCommand]

theorem onTimer_waits
    (h : ¬(shm.jobLoaded = true ∧ (s.startSent = true → shm.systemState = .ready))) :
    (s.next { action := .timer now, shm := some shm }).startRequested = s.startRequested := by
  simp only [next, respond, onTimer]
  split
  case isFalse => exact observe_startRequested
  case isTrue hf =>
    simp only [Bool.and_eq_true, Bool.not_eq_true'] at hf
    refine absurd ⟨hf.left.right, fun hr => ?_⟩ h
    by_contra hn
    have hs : (s.observe (.ofIpc shm)).startSent = true := observe_startSent.mpr ⟨hr, hn⟩
    exact Bool.false_ne_true (hf.right.symm.trans hs)

theorem timer_truthful (h : Marked s) : Truthful { action := .timer now, shm := some shm } s ↔
    Sendable { action := .timer now, shm := some shm } s := by
  have hn : CommandType.start ≠ .none := nofun
  constructor
  case mp =>
    intro ht hs hj hr
    have ⟨hf, hs'⟩ := onTimer_sends now hs hj hr
    have ⟨_, hw⟩ := ht.latch hs hs'
    rw [hf, attempt_wrote hn] at hw
    exact h.observe_canSend.mp hw
  case mpr =>
    intro hc
    refine ⟨nofun, fun hs hs' => ⟨⟨now, rfl⟩, ?_⟩⟩
    by_cases hr : shm.jobLoaded = true ∧ (s.startSent = true → shm.systemState = .ready)
    case pos =>
      have ⟨hf, _⟩ := onTimer_sends now hs hr.left hr.right
      rw [hf, attempt_wrote hn]
      exact h.observe_canSend.mpr (hc hs hr.left hr.right)
    case neg => exact absurd ((onTimer_waits hr).symm.trans hs') (by simp [hs])

theorem Marked.truthful_iff (h : Marked s) : Truthful c s ↔ Sendable c s := by
  have ⟨a, shm⟩ := c
  cases a
  case pause       => exact iff_of_true pause_truthful trivial
  case clearJob    => exact iff_of_true clearJob_truthful trivial
  case abort       => exact iff_of_true abort_truthful trivial
  case motionState => exact iff_of_true motionState_truthful trivial
  case startJob    => exact iff_of_true (truthful_of_silent rfl fun _ => rfl) trivial
  case resume      => exact resume_truthful
  case timer       =>
    cases shm
    case none => exact iff_of_true (truthful_of_silent rfl id) trivial
    case some => exact timer_truthful h

end SupervisorNode

open SupervisorNode

-- The acknowledgements of the supervisor are truthful along a run exactly if every RESUME that it
-- reports and every START for which it consumes the request can be sent.
theorem truthful_iff_sendable (connected : Bool) :
    Along step Truthful (boot connected) is ↔ Along step Sendable (boot connected) is := by
  refine along_congr (I := Marked) (fun h _ => h.truthful_iff) ?_ .boot
  intro c s s' h hs
  cases hs
  exact h.next

-- The request for a START is consumed, although nothing can be written.
theorem start_consumed : ¬∀ connected is, Along step Truthful (boot connected) is := by
  intro h
  let shm : MachineStateIpc := { systemState := .ready, jobLoaded := true }
  have ⟨_, h⟩ := h false [⟨.startJob, none⟩, ⟨.timer 1, some shm⟩] _ rfl
  have ⟨h, _⟩ := h _ rfl
  exact (h.latch rfl rfl).right.ne_none rfl

end Supervisor
