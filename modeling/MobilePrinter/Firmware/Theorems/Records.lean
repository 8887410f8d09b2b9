import MobilePrinter.Firmware.Theorems.Boundary

namespace Firmware
namespace State

-- The job store, the machine state and the ingress state agree on whether there is a job, and if
-- there is one on its identity and on its schema. What was published last agrees with them.
structure Agree (s : State) : Prop where
  stored    : s.store.hasJob = s.machine.jobPresent
  loaded    : s.ingress.jobLoaded = s.machine.jobPresent
  published : s.published.jobLoaded = s.machine.jobPresent
  identity  : s.machine.jobPresent = true →
    s.ingress.jobId = s.machine.jobId ∧ s.store.jobId = s.machine.jobId
  schema    : s.machine.jobPresent = true →
    s.ingress.schemaVersion = s.machine.jobSchemaVersion ∧
      s.store.jobSchemaVersion = s.machine.jobSchemaVersion

instance : Decidable (Agree s) :=
  decidable_of_iff
    (s.store.hasJob = s.machine.jobPresent ∧ s.ingress.jobLoaded = s.machine.jobPresent ∧
      s.published.jobLoaded = s.machine.jobPresent ∧
      (s.machine.jobPresent = true →
        s.ingress.jobId = s.machine.jobId ∧ s.store.jobId = s.machine.jobId) ∧
      (s.machine.jobPresent = true →
        s.ingress.schemaVersion = s.machine.jobSchemaVersion ∧
          s.store.jobSchemaVersion = s.machine.jobSchemaVersion))
    ⟨fun ⟨h₁, h₂, h₃, h₄, h₅⟩ => ⟨h₁, h₂, h₃, h₄, h₅⟩,
      fun ⟨h₁, h₂, h₃, h₄, h₅⟩ => ⟨h₁, h₂, h₃, h₄, h₅⟩⟩

variable {s s' m : State} {i : TickInput} {io : FileOutcomes} {r : ExecutionResult}

theorem kept_loaded : Kept (fun s => s.ingress.jobLoaded = s.machine.jobPresent) i where
  accepted _ h a := by
    cases a
    case clearJob => rfl
    all_goals exact h
  job _ _ _      := rfl
  armed _ h _    := h
  fault _ h _    := h
  run _ h _      := h
  executed _ h _ := h

theorem Orchestrated.loaded (o : Orchestrated s io s')
    (hn : ¬(s.machine.system.finishing = true ∧ s.Completes))
    (h : s.ingress.jobLoaded = s.machine.jobPresent) :
    s'.ingress.jobLoaded = s'.machine.jobPresent := by
  cases o
  case draining a _      => cases a <;> exact h
  case aborted a _       => cases a <;> exact h
  case paused a _ _      => cases a <;> exact h
  case released a        => cases a <;> exact h
  case completed hs hc _ => exact absurd ⟨hs, hc⟩ hn
  all_goals exact h

-- A tick keeps the agreement exactly if the orchestrator does not find the job complete.
theorem tick_agree_iff (w : s.WellFormed) (h : s.Agree) (ht : tick i s = .ok s') :
    s'.Agree ↔ ¬s.Finishes i := by
  have w' := w.tick ht
  have ⟨m, ⟨_, he⟩, wm, m', _, o, hs⟩ := w.orchestrates ht
  rw [finishes_iff he]
  subst hs
  constructor
  case mp =>
    intro ha hf
    have ⟨_, b⟩ := wm.bound (wm.running hf.right.left)
    have ⟨_, _, _, hm⟩ := o.of_completes hf.left hf.right
    subst hm
    have hl : m.ingress.jobLoaded = false := ha.loaded
    simp [b.loaded] at hl
  case mpr =>
    intro hn
    have hl := o.loaded hn (kept_loaded.execute w h.loaded he)
    exact {
      stored    := w'.stored
      loaded    := hl
      published := hl
      identity  := fun hp => have ⟨_, b⟩ := w'.bound hp; ⟨b.ingressId, b.storeId⟩
      schema    := fun hp => have ⟨_, b⟩ := w'.bound hp; ⟨b.ingressSchema, b.storeSchema⟩ }

end State

open State Transition

-- The records of the loaded job agree as long as no job completes.
theorem agree_iff_never_finishes (b : Booted s₀) :
    Always tick State.Agree s₀ is ↔ Along tick (fun i s => ¬s.Finishes i) s₀ is := by
  refine always_iff_along (I := fun s => s.WellFormed ∧ s.Agree) (·.right) ?step ?back ?boot
  case step => exact fun h hp ht => ⟨h.left.tick ht, tick_agree_iff h.left h.right ht |>.mpr hp⟩
  case back => exact fun h ha ht => tick_agree_iff h.left h.right ht |>.mp ha
  case boot =>
    refine ⟨b.wellFormed, ?_⟩
    have ⟨_, b⟩ := b.boots
    cases b <;> exact ⟨rfl, rfl, rfl, nofun, nofun⟩

theorem agree_iff_never_finishes_clear :
    ∃ s₀, Booted s₀ ∧ Always tick State.Agree s₀
      [{}, .submit 1 3, .issue 1 1, { safety := { guardOpen := true } }, .issue 2 6] := by
  have ⟨s₀, hb, h⟩ : ∃ s₀, boot {} none = .ok s₀ ∧
      Along tick (fun i s => ¬State.Finishes i s) s₀
        [{}, .submit 1 3, .issue 1 1, { safety := { guardOpen := true } }, .issue 2 6] :=
    ⟨_, rfl, by decide +kernel⟩
  exact ⟨s₀, ⟨_, _, hb⟩, agree_iff_never_finishes ⟨_, _, hb⟩ |>.mpr h⟩

-- The job is still reported as loaded after its completion.
theorem agree_fails : ¬∀ s, Reachable s → s.Agree := by
  intro hc
  have ⟨s₀, hb, h⟩ : ∃ s₀, boot {} none = .ok s₀ ∧ Reaches tick (¬·.Agree) s₀
      [{}, .submit 1 1, .issue 1 1] :=
    ⟨_, rfl, by decide +kernel⟩
  have ⟨s, e, hn⟩ := h.run
  exact hn (hc s (.intro ⟨_, _, hb⟩ e))

end Firmware
