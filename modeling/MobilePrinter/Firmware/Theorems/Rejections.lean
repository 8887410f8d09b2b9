import MobilePrinter.Firmware.Main
import MobilePrinter.Firmware.Theorems.Ingress

namespace Firmware
namespace State

variable {s : State}

-- Nothing of what a submission may write is changed, but for the text of the rejection.
structure Unchanged (s s' : State) : Prop where
  machine   : s'.machine = s.machine
  store     : s'.store = s.store
  activeJob : s'.activeJob = s.activeJob
  ingress   : { s'.ingress with lastRejection := s.ingress.lastRejection } = s.ingress

theorem unchanged_refuseJob {text : String} {array : Heap Segment} :
    Unchanged s (s.refuseJob text array) ↔ s.machine.lastCompletionReason = .none where
  mp u := (congrArg (·.lastCompletionReason) u.machine).symm
  mpr h := by
    refine ⟨?_, rfl, rfl, rfl⟩
    rw [refuseJob, ← h]

end State

open State

-- A rejected submission leaves the machine unchanged exactly if there is no completion reason that
-- it could take back.
theorem rejection_harmless_iff (s : State) (blob : List UInt8)
    (h : (s.submitJob blob).1.accepted = false) :
    Unchanged s (s.submitJob blob).2 ↔ s.machine.lastCompletionReason = .none := by
  cases submitJob_outcome s blob
  case inl hr =>
    have ⟨_, _, hr⟩ := hr
    rw [hr]
    exact unchanged_refuseJob
  case inr hr => cases h.symm.trans hr.left

-- A second job is submitted while the first one is waiting for its START.
theorem rejection_harmless_iff_occupied :
    ∃ s, Reachable s ∧ s.machine.jobPresent = true ∧
      (s.submitJob (List.replicate segmentSize 1)).1.accepted = false ∧
      Unchanged s (s.submitJob (List.replicate segmentSize 1)).2 := by
  have ⟨s₀, hb, h⟩ : ∃ s₀, boot {} none = .ok s₀ ∧
      Transition.Reaches tick (fun s => s.machine.jobPresent = true ∧
        (s.submitJob (List.replicate segmentSize 1)).1.accepted = false ∧
        s.machine.lastCompletionReason = .none) s₀ [{}, .submit 1 2] :=
    ⟨_, rfl, by decide +kernel⟩
  have ⟨s, e, hj, ha, hn⟩ := h.run
  exact ⟨s, ⟨⟨_, _, hb⟩, e⟩, hj, ha, (rejection_harmless_iff s _ ha).mpr hn⟩

-- A job has been completed, and an empty blob is submitted.
theorem rejection_harmless_fails :
    ¬∀ s blob, Reachable s → (s.submitJob blob).1.accepted = false →
      Unchanged s (s.submitJob blob).2 := by
  intro hc
  have ⟨s₀, hb, h⟩ : ∃ s₀, boot {} none = .ok s₀ ∧
      Transition.Reaches tick (fun s => s.machine.lastCompletionReason = .normal ∧
        (s.submitJob []).1.accepted = false ∧
        (s.submitJob []).2.machine.lastCompletionReason = .none) s₀
        [{}, .submit 1 1, .issue 1 1, {}] :=
    ⟨_, rfl, by decide +kernel⟩
  have ⟨s, e, hn, ha, hr⟩ := h.run
  have u := hc s [] ⟨⟨_, _, hb⟩, e⟩ ha
  rw [u.machine, hn] at hr
  cases hr

end Firmware
