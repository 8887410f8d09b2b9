import MobilePrinter.Firmware.Theorems.Boundary

namespace Firmware
namespace State

-- An execution that is not dead: it runs, or the next tick makes it run.
def Alive (s : State) : Prop :=
  s.machine.system = .executingPrint →
    (s.exec.phase = .running ∧ s.exec.ownedByExecutor = true) ∨
    (s.exec.armed = true ∧ s.exec.cursor < s.activeJob.totalSegments)

instance : Decidable (Alive s) :=
  inferInstanceAs (Decidable (_ → _))

-- The tick restores no cursor at or behind the end of the job.
def RestoresInside (i : TickInput) (s : State) : Prop :=
  ∀ snap ∈ s.restored? i, snap.cursor < s.activeJob.totalSegments

instance : Decidable (RestoresInside i s) :=
  inferInstanceAs (Decidable (∀ _ ∈ _, _))

def Unfinished (s : State) : Prop :=
  s.machine.system = .executingPrint →
    s.exec.phase = .running ∨ s.exec.cursor < s.activeJob.totalSegments

variable {s s' m : State} {i : TickInput} {r : ExecutionResult}

theorem Alive.unfinished (h : s.Alive) : s.Unfinished :=
  fun hs => (h hs).imp (·.left) (·.right)

theorem Executed.phase {f : Feed RosMotion} (e : s.Executed safety f) :
    f.ctx.phase = s.exec.phase := by
  rw [e.exec_eq]

theorem kept_unfinished : Kept Unfinished i where
  accepted w h a := by
    cases a
    case start hr _ _ hl _ _     => exact fun _ => .inr hl
    case setLocalizationMode     => exact h
    all_goals exact nofun
  job _ _ a hs     := by cases a.ready.symm.trans hs
  armed _ h a _    := h a.executing
  fault _ _ _      := nofun
  run _ _ _ _      := .inl rfl
  executed {s f} _ h e hs := by
    cases e.moves
    case inl hm =>
      have hc : (s.withFeed f).exec.cursor = s.exec.cursor := congrArg (·.cursor) hm.ctx
      exact (h hs).imp e.phase.trans hc.trans_lt
    case inr hf => exact .inl (e.phase.trans hf.left.right.right.left)

theorem activateJobExecution_armed (w : s.WellFormed)
    (hs : s.activateJobExecution.machine.system = .executingPrint)
    (hi : s.activateJobExecution.exec.phase = .idle)
    (hl : s.activateJobExecution.exec.cursor < s.activateJobExecution.activeJob.totalSegments) :
    s.activateJobExecution.exec.armed = true := by
  by_cases a : s.Armable
  case pos => rw [activateJobExecution_of_armable a]; rfl
  case neg =>
    rw [activateJobExecution_of_not_armable a] at hs hi hl ⊢
    have hp := w.present (by rw [hs]; rfl) hl
    have ⟨_, b⟩ := w.bound hp
    by_contra ha
    exact a ⟨hs, hi, by simpa using ha, b.loaded, hp⟩

theorem arm_running (w : s.WellFormed) (h : s.Unfinished)
    (hs : (s.arm i).machine.system = .executingPrint) : (s.arm i).exec.phase = .running := by
  by_cases hf : (evaluateSafety i.safety).status = .fault
  case pos => simp [arm_system_fault hf] at hs
  case neg =>
    have ha := kept_unfinished.prepare (i := i) w h
    have hw := w.prepare (i := i)
    rw [arm_system hf, ← prepare_system] at hs
    simp only [arm, checkSafety_of_not_fault hf]
    by_cases a : (s.prepare i).Runnable
    case pos => rw [armExecution_of_runnable a]; rfl
    case neg =>
      rw [armExecution_of_not_runnable a]
      refine hw.phase.resolve_left fun hi => a ?_
      have hl := (ha hs).resolve_left (by simp [hi])
      exact ⟨hs, hi, activateJobExecution_armed w.pollCommand.pollJobIngress hs hi hl, hl⟩

theorem execute_running (w : s.WellFormed) (h : s.Unfinished) (he : s.execute i = .ok (r, m))
    (hs : m.machine.system = .executingPrint) : m.exec.phase = .running := by
  rw [execute_system he] at hs
  have ⟨_, _, hm, e⟩ := execute_ok he
  have ha := arm_running w h hs
  subst hm
  exact e.phase.trans ha

-- A tick keeps an execution alive exactly if it does not restore a cursor that has nothing behind
-- it.
theorem tick_alive_iff (b : s.Boundary) (h : s.Alive) (ht : tick i s = .ok s') :
    s'.Alive ↔ s.RestoresInside i := by
  have ⟨m, ⟨_, he⟩, w, m', _, o, hs⟩ := b.wellFormed.orchestrates ht
  have hr := execute_running b.wellFormed h.unfinished he
  subst hs
  by_cases hm : m.machine.system = .resuming
  case neg =>
    have hn : s.RestoresInside i := by
      simp [RestoresInside, execute_not_resuming he hm]
    refine ⟨fun _ => hn, fun _ hs => .inl ?_⟩
    obtain ⟨hs, _, rfl | ⟨_, rfl⟩⟩ | ⟨hs, _⟩ := o.of_executing hs
    · exact ⟨rfl, rfl⟩
    · exact ⟨hr hs, w.owned.mpr (hr hs)⟩
    · exact absurd hs hm
  case pos =>
    have u := execute_untouched he (by simp [hm, SystemState.suspended])
    simp only [RestoresInside, execute_resuming he hm]
    obtain ⟨hl, rfl⟩ | ⟨snap, hl, rfl⟩ := o.of_resuming hm (b.execute_released he hm)
    case inl => simp [hl, Alive, requestFault, record]
    case inr =>
      simp [hl, Alive, restoreSnapshot, record, sampleMotionIdle, ended, publishIpcState,
        u.activeJob]

end State

open State Transition

-- An execution is never dead as long as no RESUME restores a cursor with nothing behind it.
theorem alive_iff_restores_inside (b : Booted s₀) :
    Always tick State.Alive s₀ is ↔ Along tick State.RestoresInside s₀ is := by
  refine always_iff_along (I := fun s => s.Boundary ∧ s.Alive) (·.right) ?step ?back ?boot
  case step => exact fun h hp ht => ⟨h.left.tick ht, tick_alive_iff h.left h.right ht |>.mpr hp⟩
  case back => exact fun h ha ht => tick_alive_iff h.left h.right ht |>.mp ha
  case boot =>
    refine ⟨b.boundary, ?_⟩
    have ⟨_, b⟩ := b.boots
    cases b <;> exact nofun

theorem alive_iff_restores_inside_resume :
    ∃ s₀, Booted s₀ ∧ Always tick State.Alive s₀
      [{}, .submit 1 3, .issue 1 1, .issue 2 2, .issue 3 3, {}] := by
  have ⟨s₀, hb, h⟩ : ∃ s₀, boot {} none = .ok s₀ ∧ Along tick State.RestoresInside s₀
      [{}, .submit 1 3, .issue 1 1, .issue 2 2, .issue 3 3, {}] :=
    ⟨_, rfl, by decide +kernel⟩
  exact ⟨s₀, ⟨_, _, hb⟩, alive_iff_restores_inside ⟨_, _, hb⟩ |>.mpr h⟩

-- The executor's queue takes one command at a time, so that the PAUSE comes before the only segment
-- of the job is drained. The RESUME then restores a cursor at the end of the job.
theorem alive_fails : ¬∀ s, Reachable s → s.Alive := by
  intro hc
  have ⟨s₀, hb, h⟩ : ∃ s₀, boot {} none = .ok s₀ ∧ Reaches tick (¬·.Alive) s₀
      [{ spin := [{ callbacks := [.motionStatus true 0 3 0] }] }, .submit 1 1, .issue 1 1,
        .issue 2 2, .issue 3 3] :=
    ⟨_, rfl, by decide +kernel⟩
  have ⟨s, e, hn⟩ := h.run
  exact hn (hc s (.intro ⟨_, _, hb⟩ e))

end Firmware
