import MobilePrinter.Firmware.Theorems.Markers
import MobilePrinter.Ui.UiPolicy

namespace Ui

open Firmware Supervisor

variable {fw : MachineStateMsg} {align : AlignmentStatus} {s : State}

theorem executing_eq_false : executing fw = false ↔ fw.layer = 0 ∧ fw.segment = 0 := by
  simp [executing, UInt32.pos_iff_ne_zero]

theorem enables_start : (computeUiState fw align false).enables .start = true ↔
    fw.jobLoaded = true ∧ executing fw = false := by
  simp only [computeUiState, UiState.enables]
  grind

theorem enables_pause : (computeUiState fw align false).enables .pause = true ↔
    executing fw = true ∧ fw.paused = false := by
  simp only [computeUiState, UiState.enables]
  grind

theorem enables_resume : (computeUiState fw align false).enables .resume = true ↔
    fw.paused = true ∧ align.status = AlignmentStatus.valid := by
  simp only [computeUiState, UiState.enables]
  grind

theorem enables_abort : (computeUiState fw align false).enables .abort = true ↔
    executing fw = true ∨ fw.paused = true := by
  simp [computeUiState, UiState.enables]

-- The firmware lets every action through that the user interface offers for the state.
def Sound (fw : MachineStateMsg) : Prop :=
  ∀ align cmd, (computeUiState fw align false).enables cmd = true →
    commandAllowedInState fw.systemState cmd = true

-- The state is one in which the firmware takes commands of the user interface, or there is no job
-- of which the user interface could know.
def Live (fw : MachineStateMsg) : Prop :=
  (fw.systemState = .ready ∨ fw.systemState = .executingPrint ∨ fw.systemState = .paused) ∨
    (fw.jobLoaded = false ∧ fw.layer = 0 ∧ fw.segment = 0)

theorem sound_iff : Sound fw ↔
    (fw.jobLoaded = true → executing fw = false →
      commandAllowedInState fw.systemState .start = true) ∧
    (executing fw = true → fw.paused = false →
      commandAllowedInState fw.systemState .pause = true) ∧
    (fw.paused = true → commandAllowedInState fw.systemState .resume = true) ∧
    (executing fw = true ∨ fw.paused = true →
      commandAllowedInState fw.systemState .abort = true) where
  mp h := by
    refine ⟨fun hl he => ?_, fun he hp => ?_, fun hp => ?_, fun ha => ?_⟩
    · exact h ⟨AlignmentStatus.valid⟩ _ (enables_start.mpr ⟨hl, he⟩)
    · exact h ⟨AlignmentStatus.valid⟩ _ (enables_pause.mpr ⟨he, hp⟩)
    · exact h ⟨AlignmentStatus.valid⟩ _ (enables_resume.mpr ⟨hp, rfl⟩)
    · exact h ⟨AlignmentStatus.valid⟩ _ (enables_abort.mpr ha)
  mpr h align cmd he := by
    have ⟨hs, hp, hr, ha⟩ := h
    cases cmd
    case start  => exact hs (enables_start.mp he).left (enables_start.mp he).right
    case pause  => exact hp (enables_pause.mp he).left (enables_pause.mp he).right
    case resume => exact hr (enables_resume.mp he).left
    case abort  => exact ha (enables_abort.mp he)
    all_goals cases he

-- What the user interface may rely on in a state that is published.
structure Plausible (fw : MachineStateMsg) : Prop where
  paused   : fw.paused = true ↔ fw.systemState = .paused
  ready    : fw.systemState = .ready → executing fw = false
  printing : fw.systemState.printing = true → fw.jobLoaded = true → executing fw = true

theorem Plausible.sound_iff_live (p : Plausible fw) : Sound fw ↔ Live fw := by
  have ⟨hp, hr, he⟩ := p
  rw [sound_iff, Live, ← executing_eq_false]
  generalize fw.systemState = system at hp hr he ⊢
  cases system <;> simp only [commandAllowedInState, SystemState.printing] at hp hr he ⊢ <;> grind

theorem executing_published (m : s.Marked) (h : s.Shown) :
    executing (.ofIpc s.published) = s.history.started := by
  rw [Bool.eq_iff_iff, ← m.started, ← h.layer, ← h.segment]
  simp [executing, MachineStateMsg.ofIpc, UInt32.pos_iff_ne_zero]

theorem plausible_published (r : Reachable s) : Plausible (.ofIpc s.published) := by
  have m := r.marked
  cases r.shown
  case inr h =>
    rw [h]
    exact ⟨by decide, fun _ => rfl, nofun⟩
  case inl h =>
    have hs : (MachineStateMsg.ofIpc s.published).systemState = s.machine.system := h.systemState
    have hl : (MachineStateMsg.ofIpc s.published).jobLoaded = s.history.loaded :=
      h.jobLoaded.trans m.loaded
    have hp : (MachineStateMsg.ofIpc s.published).paused = (s.machine.system == .paused) := h.paused
    constructor
    case paused   => rw [hs, hp, beq_iff_eq]
    case ready    => rw [hs, executing_published m h]; exact m.ready
    case printing => rw [hs, hl, executing_published m h]; exact m.printing

-- What the user interface offers in a published state is let through exactly if the machine is
-- READY, EXECUTING or PAUSED, or there is no job.
theorem sound_published_iff (r : Reachable s) :
    Sound (.ofIpc s.published) ↔ Live (.ofIpc s.published) :=
  (plausible_published r).sound_iff_live

instance : Decidable (Live fw) :=
  inferInstanceAs (Decidable (_ ∨ _))

-- A job that has been started.
theorem sound_published_executing :
    ∃ s, Reachable s ∧ s.machine.system = .executingPrint ∧ Sound (.ofIpc s.published) := by
  have ⟨f, hb, h⟩ : ∃ f, boot {} none = .ok f ∧
      Transition.Reaches tick
        (fun s => s.machine.system = .executingPrint ∧ Live (.ofIpc s.published)) f
        [{}, .submit 1 2, .issue 1 1] :=
    ⟨_, rfl, by decide +kernel⟩
  have ⟨s, e, hs, hl⟩ := h.run
  have r : Reachable s := ⟨⟨_, _, hb⟩, e⟩
  exact ⟨s, r, hs, (sound_published_iff r).mpr hl⟩

-- ABORT is offered for a job that has been aborted.
theorem abort_offered_in_idle : ¬∀ s, Reachable s → Sound (.ofIpc s.published) := by
  intro hc
  have ⟨f, hb, h⟩ : ∃ f, boot {} none = .ok f ∧
      Transition.Reaches tick
        (fun s => (computeUiState (.ofIpc s.published) ⟨0⟩ false).enables .abort = true ∧
          commandAllowedInState s.published.systemState .abort = false) f
        [{}, .submit 1 2, .issue 1 1, .issue 2 4] :=
    ⟨_, rfl, by decide +kernel⟩
  have ⟨s, e, hs, hl⟩ := h.run
  have hn := hc s ⟨⟨_, _, hb⟩, e⟩ _ _ hs
  exact absurd (hl.symm.trans hn) nofun

end Ui
