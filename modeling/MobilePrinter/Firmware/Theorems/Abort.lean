import MobilePrinter.Firmware.Theorems.Boundary
import MobilePrinter.Firmware.Theorems.Motion

namespace Firmware
namespace State

-- No trace of an abort is left.
structure Unaborted (s : State) : Prop where
  inProgress : s.exec.abortInProgress = false
  latch      : s.abortStartedOnce = false
  active     : s.motion.controller.abortActive = false

instance : Decidable (Unaborted s) :=
  decidable_of_iff
    (s.exec.abortInProgress = false ∧ s.abortStartedOnce = false ∧
      s.motion.controller.abortActive = false)
    ⟨fun ⟨h₁, h₂, h₃⟩ => ⟨h₁, h₂, h₃⟩, fun ⟨h₁, h₂, h₃⟩ => ⟨h₁, h₂, h₃⟩⟩

-- No abort outlives ABORTING. Therefore a job that runs is stepped, and an abort that is accepted
-- in the next tick performs its start block.
structure AbortFree (s : State) : Prop where
  clear   : s.machine.system ≠ .aborting → s.Unaborted
  stepped : ∀ i, (evaluateSafety i.safety).status = .safe →
    (s.arm i).machine.system = .executingPrint → (s.arm i).exec.phase = .running →
    (s.arm i).Steps (evaluateSafety i.safety)
  started : ∀ i r m, s.machine.system ≠ .aborting → s.execute i = .ok (r, m) →
    m.machine.system = .aborting → ∃ m', m.orchestratorStep i.io r = .ok m' ∧
      m'.exec.ownedByExecutor = false ∧
      m'.motion.controller.abortPub = m.motion.controller.abortPub + 1 ∧
      .abortStarted ∈ m'.history.take 2

-- The tick does not take an abort into FAULT.
def AbortUndisturbed (i : TickInput) (s : State) : Prop :=
  ¬(s.machine.system = .aborting ∧ (evaluateSafety i.safety).status = .fault)

instance : Decidable (AbortUndisturbed i s) :=
  inferInstanceAs (Decidable (¬_))

variable {s s' m : State} {i : TickInput} {io : FileOutcomes} {r : ExecutionResult}

theorem kept_unaborted : Kept Unaborted i where
  accepted _ h a := by cases a <;> exact { h with }
  job _ h _      := { h with }
  armed _ h _    := { h with }
  fault _ h _    := { h with }
  run _ h _      := { h with }
  executed _ h e := {
    inProgress := by rw [withFeed, e.exec_eq]; exact h.inProgress
    latch      := h.latch
    active     := e.keeps RosMotion.keeps_inactive h.active }
  scheduled h    := { h with }
  seen h         := { h with }
  rejected h     := { h with }
  first h        := { h with }
  refused h      := { h with }
  polled h       := { h with active := RosMotion.poll_abortActive h.active }
  sampled h      := { h with active := RosMotion.isReady_abortActive.trans h.active }

theorem kept_latch : Kept (fun s => s.abortStartedOnce = true) i where
  accepted _ h a := by cases a <;> exact h
  job _ h _      := h
  armed _ h _    := h
  fault _ h _    := h
  run _ h _      := h
  executed _ h _ := h

-- Behind the orchestrator an abort is either in progress or gone.
theorem Orchestrated.abort_cases (o : Orchestrated s io s')
    (h : s.machine.system = .aborting ∨ s.Unaborted) :
    (s'.machine.system = .aborting ∧ s'.abortStartedOnce = true) ∨
    (s'.machine.system ≠ .aborting ∧ s'.Unaborted) := by
  have u (hs : s.machine.system ≠ .aborting) := h.resolve_left hs
  cases o
  case draining hs _ a _  => exact .inl ⟨a.system.trans hs, a.latched⟩
  case aborted            => exact .inr ⟨nofun, rfl, rfl, RosMotion.setAbortActive_abortActive⟩
  case stopped hs         =>
    have hn : s.machine.system ≠ .aborting := by cases hs <;> simp [*]
    exact .inr ⟨hn, u hn⟩
  case paused hs a _ _    =>
    have hn : s.machine.system ≠ .aborting := by simp [hs]
    exact .inr ⟨a.system ▸ hn, by cases a <;> exact { u hn with }⟩
  case released hs a      =>
    have hn : s.machine.system ≠ .aborting := by simp [hs]
    exact .inr ⟨a.system ▸ hn, by cases a <;> exact { u hn with }⟩
  case lost hs _ _        => exact .inr ⟨nofun, { u (by simp [hs]) with }⟩
  case restored hs _ _    => exact .inr ⟨nofun, { u (by simp [hs]) with }⟩
  case held hs _          => exact .inr ⟨by simp [hs], u (by simp [hs])⟩
  case started hs _ _ _   =>
    have hn : s.machine.system ≠ .aborting := by simp [hs]
    exact .inr ⟨hn, { u hn with }⟩
  case continued hs _     =>
    have hn : s.machine.system ≠ .aborting := fun hc => by rw [hc] at hs; cases hs
    exact .inr ⟨hn, { u hn with }⟩
  case completed hs _ _   =>
    have hn : s.machine.system ≠ .aborting := fun hc => by rw [hc] at hs; cases hs
    refine .inr ⟨?_, { u hn with }⟩
    rw [completed_system, tracked_system]
    split
    · nofun
    · exact hn

theorem abortStep_started (u : s.Unaborted) :
    (s.abortStep io).exec.ownedByExecutor = false ∧
    (s.abortStep io).motion.controller.abortPub = s.motion.controller.abortPub + 1 ∧
    .abortStarted ∈ (s.abortStep io).history.take 2 := by
  have hb : s.beginAbort io = s.abortBegun io := by
    simp [beginAbort, abortBegun, u.latch]
  have hp : (s.abortBegun io).motion.controller.abortPub = s.motion.controller.abortPub + 1 :=
    RosMotion.setAbortActive_abortPub.trans RosMotion.abort_abortPub
  simp only [abortStep, hb]
  cases hm : s.machine.motionIdle
  case false =>
    have hs : (s.abortBegun io).detectAbortDrain.finishAbort = s.abortBegun io := by
      simp [detectAbortDrain, finishAbort, abortBegun, record, hm]
    rw [hs]
    exact ⟨rfl, hp, by simp [abortBegun, record]⟩
  case true =>
    have hs : (s.abortBegun io).detectAbortDrain.finishAbort = (s.abortBegun io).aborted := by
      simp [detectAbortDrain, finishAbort, finalizeAbort, aborted, abortBegun, record, hm]
    rw [hs]
    exact ⟨rfl, RosMotion.setAbortActive_abortPub.trans hp, by simp [aborted, abortBegun, record]⟩

-- What the states of a run have to satisfy so that no abort outlives ABORTING.
structure AbortTracked (s : State) : Prop where
  wellFormed : s.WellFormed
  clear      : s.machine.system ≠ .aborting → s.Unaborted
  latched    : s.machine.system = .aborting → s.abortStartedOnce = true

theorem AbortTracked.abortFree (t : s.AbortTracked) : s.AbortFree where
  clear := t.clear
  stepped i hf hs hp := by
    by_cases ha : s.machine.system = .aborting
    case neg =>
      have u := kept_unaborted.arm (i := i) t.wellFormed (t.clear ha)
      exact ⟨hf, hs, hp, u.inProgress⟩
    case pos =>
      rw [arm_system (by simp [hf]), pollCommand_system (by simp [ha, commandAllowedInState])] at hs
      cases ha.symm.trans hs
  started i r m ha he hs := by
    have u := kept_unaborted.execute t.wellFormed (t.clear ha) he
    have w := t.wellFormed.execute he
    have hn : (m.exec.armed && m.exec.ownedByExecutor) = false := by
      have := w.armed
      have := w.owned
      grind
    exact ⟨m.abortStep i.io, by simp [orchestratorStep, hn, hs], abortStep_started u⟩

-- A tick leaves no trace of an abort behind exactly if it does not take an abort into FAULT.
theorem tick_abortTracked (t : s.AbortTracked) (ht : tick i s = .ok s') :
    (s.AbortUndisturbed i → s'.AbortTracked) ∧
    (¬s.AbortUndisturbed i → s'.machine.system ≠ .aborting ∧ ¬s'.Unaborted) := by
  have ⟨m, ⟨_, he⟩, _, m', _, o, hs⟩ := t.wellFormed.orchestrates ht
  have w' := t.wellFormed.tick ht
  subst hs
  by_cases ha : s.machine.system = .aborting ∧ (evaluateSafety i.safety).status = .fault
  case pos =>
    refine ⟨absurd ha, fun _ => ?_⟩
    have hm : m.machine.system = .fault := (execute_system he).trans (arm_system_fault ha.right)
    have hl := kept_latch.execute t.wellFormed (t.latched ha.left) he
    rw [o.of_stopped (.inl hm)]
    refine ⟨by simp [hm], fun u => ?_⟩
    cases hl.symm.trans u.latch
  case neg =>
    refine ⟨fun _ => ?_, fun h => absurd ha h⟩
    have hc : m.machine.system = .aborting ∨ m.Unaborted := by
      by_cases hs : s.machine.system = .aborting
      case neg => exact .inr (kept_unaborted.execute t.wellFormed (t.clear hs) he)
      case pos =>
        have hf : (evaluateSafety i.safety).status ≠ .fault := fun hf => ha ⟨hs, hf⟩
        have hp : (s.pollCommand i.io i.command).machine.system = s.machine.system :=
          pollCommand_system (by simp [hs, commandAllowedInState])
        exact .inl ((execute_system he).trans (arm_system hf) |>.trans (hp.trans hs))
    cases o.abort_cases hc
    case inl h =>
      exact { wellFormed := w', clear := (absurd h.left ·), latched := fun _ => h.right }
    case inr h =>
      have u := h.right
      exact {
        wellFormed := w'
        clear _    := { u with active := RosMotion.isReady_abortActive.trans u.active }
        latched hs := absurd hs h.left }

end State

open State Transition

-- No abort outlives ABORTING as long as no fault strikes during ABORTING.
theorem abort_free_iff_undisturbed (b : Booted s₀) :
    Always tick State.AbortFree s₀ is ↔ Along tick State.AbortUndisturbed s₀ is := by
  refine always_iff_along (I := State.AbortTracked) (·.abortFree) ?step ?back ?boot
  case step => exact fun t hp ht => (tick_abortTracked t ht).left hp
  case back =>
    intro i s s' t ha ht
    by_contra hp
    have ⟨hs, hu⟩ := (tick_abortTracked t ht).right hp
    exact hu (ha.clear hs)
  case boot =>
    have ⟨_, b⟩ := b.boots
    have w := b.wellFormed
    cases b <;> exact ⟨w, fun _ => ⟨rfl, rfl, rfl⟩, nofun⟩

theorem abort_free_iff_undisturbed_abort :
    ∃ s₀, Booted s₀ ∧ Always tick State.AbortFree s₀
      [{}, .submit 1 3, .issue 1 1, .issue 2 4, { safety := { guardOpen := true } }] := by
  have ⟨s₀, hb, h⟩ : ∃ s₀, boot {} none = .ok s₀ ∧ Along tick State.AbortUndisturbed s₀
      [{}, .submit 1 3, .issue 1 1, .issue 2 4, { safety := { guardOpen := true } }] :=
    ⟨_, rfl, by decide +kernel⟩
  exact ⟨s₀, ⟨_, _, hb⟩, abort_free_iff_undisturbed ⟨_, _, hb⟩ |>.mpr h⟩

-- The executor is not ready when the abort starts, so that the fault finds the abort in progress.
theorem abort_free_fails : ¬∀ s, Reachable s → s.AbortFree := by
  intro hc
  have ⟨s₀, hb, h⟩ : ∃ s₀, boot {} none = .ok s₀ ∧
      Reaches tick (fun s => s.machine.system ≠ .aborting ∧ ¬s.Unaborted) s₀
        [{}, .submit 1 3, .issue 1 1,
          { TickInput.issue 2 4 with spin := [{ callbacks := [.motionStatus false 0 0 0] }] },
          { safety := { guardOpen := true } }] :=
    ⟨_, rfl, by decide +kernel⟩
  have ⟨s, e, hs, hu⟩ := h.run
  exact hu (hc s (.intro ⟨_, _, hb⟩ e) |>.clear hs)

end Firmware
