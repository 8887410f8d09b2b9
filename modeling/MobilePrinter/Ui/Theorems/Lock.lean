import MobilePrinter.Ui.Console
import MobilePrinter.Ui.Theorems.Enablement

namespace Ui

open Firmware Supervisor Transition

-- The published record of `f` carries the outcome that the firmware has recorded for the command
-- since it was marked.
structure Carries (m : Mark) (f : State) : Prop where
  outcome : f.published.lastCommandOutcome = .accepted ∨ f.published.lastCommandOutcome = .rejected
  seq     : f.published.lastCommandSeq = m.seq
  handled : (m.seq, m.command, f.published.lastCommandOutcome) ∈
    f.history.handled.take (f.history.handled.length - m.since)

instance : Decidable (Carries m f) :=
  decidable_of_iff
    ((f.published.lastCommandOutcome = .accepted ∨ f.published.lastCommandOutcome = .rejected) ∧
      f.published.lastCommandSeq = m.seq ∧
      (m.seq, m.command, f.published.lastCommandOutcome) ∈
        f.history.handled.take (f.history.handled.length - m.since))
    ⟨fun ⟨h₁, h₂, h₃⟩ => ⟨h₁, h₂, h₃⟩, fun ⟨h₁, h₂, h₃⟩ => ⟨h₁, h₂, h₃⟩⟩

def Transient (system : SystemState) : Prop :=
  system = .resuming ∨ system = .aborting

instance : Decidable (Transient system) :=
  inferInstanceAs (Decidable (_ ∨ _))

-- What a command has to have left behind for its lock to be released: START a job that is started,
-- PAUSE a machine that is PAUSED, RESUME one that is not, and ABORT no job.
def Settled (c : CommandType) (f : State) : Prop :=
  match c with
  | .start  => f.history.started = true
  | .pause  => f.machine.system = .paused
  | .resume => f.machine.system ≠ .paused
  | .abort  => f.history.loaded = false
  | _       => False

instance Settled.decidable : (c : CommandType) → Decidable (Settled c f)
  | .start                                                   => inferInstanceAs (Decidable (_ = _))
  | .pause                                                   => inferInstanceAs (Decidable (_ = _))
  | .resume                                                  => inferInstanceAs (Decidable (_ ≠ _))
  | .abort                                                   => inferInstanceAs (Decidable (_ = _))
  | .none | .setLocalizationMode | .clearJob | .recover | .unknown _ => .isFalse id

namespace Console

variable {s s' : Console} {i : Input} {f : State}

-- The observation releases the lock if it carries the outcome of the command.
def Releases : Input → Console → Prop
  | .observe, s => ∀ f ∈ s.topic.head?, ∀ m ∈ s.mark, Carries m f →
    ¬Transient f.published.systemState → s.observe.policy.isCommandPending = false
  | _, _        => True

def Settles : Input → Console → Prop
  | .observe, s => ∀ f ∈ s.topic.head?, ∀ m ∈ s.mark, s.policy.pending = some m.command →
    Carries m f → ¬Transient f.published.systemState → Settled m.command f
  | _, _        => True

instance Releases.decidable : (i : Input) → Decidable (Releases i s)
  | .observe                  =>
    inferInstanceAs (Decidable (∀ f ∈ s.topic.head?, ∀ m ∈ s.mark, _ → _ → _))
  | .tick _ | .sample | .mark .. => .isTrue trivial

instance Settles.decidable : (i : Input) → Decidable (Settles i s)
  | .observe                  =>
    inferInstanceAs (Decidable (∀ f ∈ s.topic.head?, ∀ m ∈ s.mark, _ → _ → _ → _))
  | .tick _ | .sample | .mark .. => .isTrue trivial

end Console

-- A state that has been published in a run of the firmware.
structure Published (f : State) : Prop where
  marked : f.Marked
  shown  : f.Shown ∨ f.history = []

theorem Published.shown_of_carries (p : Published f) (h : Carries m f) : f.Shown := by
  refine p.shown.resolve_right fun hn => ?_
  have hh := h.handled
  simp [hn, History.handled] at hh

theorem UiPolicy.isCommandPending_ite {p : UiPolicy} {resolved : Bool} (h : p.pending = some c) :
    (if resolved = true then ({} : UiPolicy) else p).isCommandPending = false ↔
      resolved = true := by
  cases resolved <;> simp [isCommandPending, h]

theorem UiPolicy.observeFirmwareState_pending {p : UiPolicy}
    (h : (p.observeFirmwareState fw).pending = some c) : p.pending = some c := by
  simp only [observeFirmwareState] at h
  split at h <;> try split at h
  all_goals first | exact h | cases h

theorem resolves_iff (m : f.Marked) (h : f.Shown) {p : UiPolicy} (hp : p.pending = some c) :
    (p.observeFirmwareState (.ofIpc f.published)).isCommandPending = false ↔ Settled c f := by
  have hx := executing_published m h
  have hd : (MachineStateMsg.ofIpc f.published).paused = (f.machine.system == .paused) := h.paused
  have hl : (MachineStateMsg.ofIpc f.published).jobLoaded = f.history.loaded :=
    h.jobLoaded.trans m.loaded
  simp only [UiPolicy.observeFirmwareState, hp]
  cases c
  case start  => rw [hx, UiPolicy.isCommandPending_ite hp, Settled]
  case pause  => rw [hd, UiPolicy.isCommandPending_ite hp, Settled, beq_iff_eq]
  case resume => rw [hd, UiPolicy.isCommandPending_ite hp, Settled]; simp
  case abort  => rw [hl, UiPolicy.isCommandPending_ite hp, Settled]; simp
  all_goals simp [Settled, UiPolicy.isCommandPending, hp]

namespace Console

structure Watches (s : Console) : Prop where
  wellFormed : s.firmware.WellFormed
  firmware   : Published s.firmware
  topic      : ∀ f ∈ s.topic, Published f
  pending    : ∀ c, s.policy.pending = some c → ∃ m, s.mark = some m ∧ m.command = c

namespace Watches

theorem fresh (b : Booted f) : Watches { firmware := f } where
  wellFormed := b.wellFormed
  firmware   := ⟨b.marked, .inr b.silent.right⟩
  topic      := List.forall_mem_nil _
  pending    := nofun

theorem observe (w : Watches s) : Watches s.observe := by
  simp only [Console.observe]
  split
  case _ => exact w
  case _ f topic ht =>
    have hf := List.forall_mem_cons.mp (ht ▸ w.topic)
    refine ⟨w.wellFormed, w.firmware, hf.right, fun c hc => w.pending c ?_⟩
    exact UiPolicy.observeFirmwareState_pending hc

theorem step (w : Watches s) (h : step i s = .ok s') : Watches s' := by
  cases i
  case tick i =>
    have ⟨f, hf, hs⟩ := map_eq_ok.mp h
    rw [hs]
    exact { w with
      wellFormed := w.wellFormed.tick hf
      firmware   := ⟨w.wellFormed.tick_marked w.firmware.marked hf, .inl (State.tick_shown hf)⟩ }
  case sample =>
    cases h
    refine { w with topic := fun f hf => ?_ }
    obtain hf | hf := List.mem_append.mp hf
    · exact w.topic f hf
    · exact List.mem_singleton.mp hf ▸ w.firmware
  case observe =>
    cases h
    exact w.observe
  case mark =>
    cases h
    refine { w with pending := fun c hc => ?_ }
    cases hc
    exact ⟨_, rfl, rfl⟩

-- An observation releases a lock exactly if its command is settled.
theorem releases_iff (w : Watches s) : Releases i s ↔ Settles i s := by
  cases i
  case observe =>
    refine forall₂_congr fun f hf => forall₂_congr fun m hm => ?_
    have p := w.topic f (List.mem_of_mem_head? hf)
    have ho : s.observe.policy = s.policy.observeFirmwareState (.ofIpc f.published) := by
      have ⟨topic, ht⟩ := List.head?_eq_some_iff.mp hf
      simp [Console.observe, ht]
    rw [ho]
    cases hp : s.policy.pending
    case none => simp [UiPolicy.observeFirmwareState, UiPolicy.isCommandPending, hp]
    case some c =>
      have ⟨m', hm', hc⟩ := w.pending c hp
      cases hm.symm.trans hm'
      rw [hc]
      constructor
      case mp  =>
        exact fun h _ ha ht => (resolves_iff p.marked (p.shown_of_carries ha) hp).mp (h ha ht)
      case mpr =>
        exact fun h ha ht => (resolves_iff p.marked (p.shown_of_carries ha) hp).mpr (h rfl ha ht)
  all_goals exact .rfl

end Watches
end Console

open Console

-- The lock of the user interface is released with the outcome of a command exactly if the command
-- has left behind what the user interface waits for.
theorem released_iff_settled (b : Booted f) :
    Along step Releases { firmware := f } is ↔ Along step Settles { firmware := f } is :=
  along_congr (fun w _ => w.releases_iff) (fun w h => w.step h) (Watches.fresh b)

-- A START that is accepted.
theorem released_iff_settled_start :
    ∃ f, Booted f ∧ Along step Releases { firmware := f }
      [.tick {}, .tick (.submit 1 2), .mark .start 1, .tick (.issue 1 1), .sample, .observe] := by
  have ⟨f, hb, h⟩ : ∃ f, boot {} none = .ok f ∧ Along step Settles { firmware := f }
      [.tick {}, .tick (.submit 1 2), .mark .start 1, .tick (.issue 1 1), .sample, .observe] :=
    ⟨_, rfl, by decide +kernel⟩
  exact ⟨f, ⟨_, _, hb⟩, (released_iff_settled ⟨_, _, hb⟩).mpr h⟩

-- A START that is rejected, because there is no job, locks the user interface.
theorem locked_by_rejection :
    ¬∀ f is, Booted f → Along step Releases { firmware := f } is := by
  intro hc
  have ⟨f, hb, h⟩ : ∃ f, boot {} none = .ok f ∧ ¬Along step Releases { firmware := f }
      [.tick {}, .mark .start 1, .tick (.issue 1 1), .sample, .observe] :=
    ⟨_, rfl, by decide +kernel⟩
  exact h (hc f _ ⟨_, _, hb⟩)

end Ui
