import MobilePrinter.Firmware.Theorems.Crashes
import MobilePrinter.Firmware.Theorems.Boundary
import MobilePrinter.Firmware.Theorems.Motion

namespace Firmware
namespace State

-- The orchestrator takes `m` to `m'` and finalizes an execution for the given reason.
def Finalizes (reason : CompletionReason) (m m' : State) : Prop :=
  m.history.length < m'.history.length ∧ m'.history.head? = some (.finalized reason)

instance : Decidable (Finalizes reason m m') :=
  inferInstanceAs (Decidable (_ ∧ _))

def inflight (s : State) : UInt32 :=
  s.motion.controller.inflight

-- The result of the executor and the state in which `main` then polls the motion controller.
def executed? (s : State) (i : TickInput) : Option (ExecutionResult × State) :=
  ((s.arm i).executeStep (evaluateSafety i.safety)).toOption

-- The poll of the motion controller takes an abort for finished because of its silence.
def fallback (e : State) : Bool :=
  e.motion.inflight.2.abortFallback.1

-- Whatever the orchestrator finalizes in the tick has been drained.
def Drains (i : TickInput) (s : State) : Prop :=
  ∀ e ∈ s.executed? i, let m := e.2.pollMotion.sampleMotionIdle
    ∀ m', m.orchestratorStep i.io e.1 = .ok m' →
      (Finalizes .normal m m' → m.inflight = 0) ∧
      (Finalizes .aborted m m' → m.inflight = 0 ∨ e.2.fallback = true)

instance : Decidable (Drains i s) :=
  inferInstanceAs (Decidable (∀ e ∈ s.executed? i, ∀ _, _ = _ → _))

-- The job has been submitted as a whole, and the orchestrator waits for the end of its motion.
def Submitted (e : State) : Prop :=
  e.machine.system.finishing = true ∧ e.exec.phase = .running ∧
    e.activeJob.totalSegments ≤ e.exec.cursor

instance : Decidable (Submitted e) :=
  inferInstanceAs (Decidable (_ ∧ _ ∧ _))

-- While the orchestrator waits for the end of a job or of an abort, the motion controller has no
-- room for another command beside those that are in flight.
def LeavesNoRoom (i : TickInput) (s : State) : Prop :=
  ∀ e ∈ s.executed? i, let m := e.2.pollMotion.motion
    (e.2.Submitted → m.Filled) ∧ (e.2.machine.system = .aborting → m.Filled ∨ e.2.fallback = true)

instance : Decidable (LeavesNoRoom i s) :=
  inferInstanceAs (Decidable (∀ e ∈ s.executed? i, _ ∧ _))

variable {s s' m m' : State} {i : TickInput} {io : FileOutcomes} {r : ExecutionResult}

theorem Orchestrated.of_finalizes {reason : CompletionReason} (o : Orchestrated m io m')
    (h : Finalizes reason m m') :
    (reason = .normal ∧ m.machine.system.finishing = true ∧ m.Completes) ∨
    (reason = .aborted ∧ m.machine.system = .aborting ∧ ∃ b, Aborting m io b ∧
      (b.exec.abortInProgress = true → m.machine.motionIdle = true)) := by
  have ⟨hl, hh⟩ := h
  cases o
  case draining a _ =>
    cases a
    case begun => simp [abortBegun, record] at hh
    case stale => exact absurd hl (Nat.lt_irrefl _)
  case aborted hs a hd =>
    simp only [State.aborted, record, List.head?_cons, Option.some.injEq,
      Event.finalized.injEq] at hh
    exact .inr ⟨hh.symm, hs, _, a, hd⟩
  case paused a _ _ =>
    cases a
    case captured => simp [State.captured, record] at hh
    case kept     => exact absurd hl (Nat.lt_irrefl _)
  case released a =>
    cases a
    case captured => simp [State.released, State.captured, record] at hh
    case kept     => exact absurd hl (Nat.lt_irrefl _)
  case lost     => simp [requestFault, record] at hh
  case restored => simp [restoreSnapshot, record] at hh
  case completed hs hc _ =>
    simp only [State.completed, record, List.head?_cons, Option.some.injEq,
      Event.finalized.injEq] at hh
    exact .inl ⟨hh.symm, hs, hc⟩
  all_goals exact absurd hl (Nat.lt_irrefl _)

theorem Orchestrated.finalizes_normal_iff (o : Orchestrated m io m') :
    Finalizes .normal m m' ↔ m.machine.system.finishing = true ∧ m.Completes where
  mp h := by
    cases o.of_finalizes h
    case inl h => exact h.right
    case inr h => cases h.left
  mpr h := by
    have ⟨_, _, _, hm⟩ := o.of_completes h.left h.right
    subst hm
    exact ⟨Nat.lt_succ_self _, rfl⟩

theorem kept_latch_inProgress :
    Kept (fun s => s.abortStartedOnce = true → s.exec.abortInProgress = true) i where
  accepted _ h a := by cases a <;> exact h
  job _ h _      := h
  armed _ h _    := h
  fault _ h _    := h
  run _ h _      := h
  executed _ h e := by rw [withFeed, e.exec_eq]; exact h

theorem Aborting.inProgress (a : Aborting m io b)
    (h : m.abortStartedOnce = true → m.exec.abortInProgress = true) :
    b.exec.abortInProgress = true := by
  cases a
  case begun   => rfl
  case stale l => exact h l

theorem Orchestrated.finalizes_aborted_iff (o : Orchestrated m io m')
    (h : m.abortStartedOnce = true → m.exec.abortInProgress = true) :
    Finalizes .aborted m m' ↔ m.machine.system = .aborting ∧ m.machine.motionIdle = true where
  mp hf := by
    cases o.of_finalizes hf
    case inl hf => cases hf.left
    case inr hf =>
      have ⟨_, hs, _, a, hd⟩ := hf
      exact ⟨hs, hd (a.inProgress h)⟩
  mpr hf := by
    cases o
    case draining hm _ _ => cases hm.symm.trans hf.right
    case aborted b _ a _ =>
      have hl : m.history.length ≤ b.history.length := by
        cases a
        case begun => exact Nat.le_succ _
        case stale => exact Nat.le_refl _
      exact ⟨Nat.lt_succ_of_le hl, rfl⟩
    all_goals simp_all [SystemState.finishing]

theorem Orchestrated.latch_inProgress (o : Orchestrated m io m')
    (h : m.abortStartedOnce = true → m.exec.abortInProgress = true) :
    m'.abortStartedOnce = true → m'.exec.abortInProgress = true := by
  cases o
  case draining a _   => exact fun _ => a.inProgress h
  case aborted        => nofun
  case paused a _ _   => cases a <;> exact h
  case released a     => cases a <;> exact h
  all_goals exact h

theorem executed?_eq_some (h : e ∈ s.executed? i) :
    s.execute i = .ok (e.1, e.2.pollMotion.sampleMotionIdle) := by
  simp only [executed?, Option.mem_def] at h
  cases he : (s.arm i).executeStep (evaluateSafety i.safety) <;>
    simp only [he, Except.toOption, Option.some.injEq, reduceCtorEq] at h
  case ok => simp [execute, he, Except.map, h]

-- The orchestrator takes the readiness of the motion controller for its idleness.
theorem tick_drains_iff (w : s.WellFormed)
    (h : s.abortStartedOnce = true → s.exec.abortInProgress = true) :
    s.Drains i ↔ s.LeavesNoRoom i := by
  apply forall₂_congr
  intro e he
  have he := executed?_eq_some he
  have wm := w.execute he
  have hl := kept_latch_inProgress.execute w h he
  have ⟨m', hm⟩ := wm.orchestratorStep_total i.io (execute_ok he).left
  have o := orchestratorStep_orchestrated wm (execute_ok he).left hm
  have hn := o.finalizes_normal_iff
  have ha := o.finalizes_aborted_iff hl
  simp only [hm, Except.ok.injEq, forall_eq', hn, ha, RosMotion.filled_iff]
  constructor
  case mp =>
    intro hd
    refine ⟨fun hs hr => hd.left ⟨hs.left, hs.right.left, hs.right.right, hr⟩, fun hs => ?_⟩
    by_cases hf : e.2.fallback = true
    case pos => exact .inr hf
    case neg => exact .inl fun hr => (hd.right ⟨hs, hr⟩).resolve_right hf
  case mpr =>
    intro hr
    exact ⟨fun hc => hr.left ⟨hc.left, hc.right.left, hc.right.right.left⟩ hc.right.right.right,
      fun hs => (hr.right hs.left).imp_left fun h => h hs.right⟩

structure Latched (s : State) : Prop where
  wellFormed : s.WellFormed
  inProgress : s.abortStartedOnce = true → s.exec.abortInProgress = true

theorem Latched.tick (l : s.Latched) (h : Firmware.tick i s = .ok s') : s'.Latched where
  wellFormed := l.wellFormed.tick h
  inProgress := kept_latch_inProgress.tick l.wellFormed l.inProgress h fun _ o => o.latch_inProgress

end State

open State Transition

theorem Booted.latched (b : Booted s) : s.Latched := by
  have ⟨_, b⟩ := b.boots
  have w := b.wellFormed
  cases b <;> exact ⟨w, nofun⟩

-- Every execution of a run is finalized behind its drain exactly if the motion controller never has
-- room for another command beside those in flight that the orchestrator waits for.
theorem drains_iff_leaves_no_room (b : Booted s₀) :
    Along tick State.Drains s₀ is ↔ Along tick State.LeavesNoRoom s₀ is := by
  refine along_congr (I := State.Latched) ?_ (fun l h => l.tick h) b.latched
  exact fun l _ => tick_drains_iff l.wellFormed l.inProgress

-- An executor whose queue holds a single command has no room before it has been drained.
theorem drains_iff_leaves_no_room_queue :
    ∃ s₀, Booted s₀ ∧ Along tick State.Drains s₀
      [{ spin := [{ callbacks := [.motionStatus true 0 1 0] }] }, .submit 1 1, .issue 1 1, {},
        { spin := [{ callbacks := [.worldComplete 1 0] }] }] := by
  have ⟨s₀, hb, h⟩ : ∃ s₀, boot {} none = .ok s₀ ∧ Along tick State.LeavesNoRoom s₀
      [{ spin := [{ callbacks := [.motionStatus true 0 1 0] }] }, .submit 1 1, .issue 1 1, {},
        { spin := [{ callbacks := [.worldComplete 1 0] }] }] :=
    ⟨_, rfl, by decide +kernel⟩
  exact ⟨s₀, ⟨_, _, hb⟩, drains_iff_leaves_no_room ⟨_, _, hb⟩ |>.mpr h⟩

-- The only segment of the job is still in flight when the job is finalized.
theorem drains_fails : ¬∀ s₀ is, Booted s₀ → Along tick State.Drains s₀ is := by
  intro hc
  have ⟨s₀, hb, h⟩ : ∃ s₀, boot {} none = .ok s₀ ∧ ¬Along tick State.Drains s₀
      [{}, .submit 1 1, .issue 1 1] :=
    ⟨_, rfl, by decide +kernel⟩
  exact h (hc s₀ _ ⟨_, _, hb⟩)

end Firmware
