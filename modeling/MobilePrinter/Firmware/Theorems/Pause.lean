import MobilePrinter.Firmware.Theorems.Boundary

open Transition

namespace Firmware
namespace State

-- What was written to the snapshot file or cleared from it in the tick has reached the disk.
def WritesSucceed (i : TickInput) (_ : State) : Prop :=
  i.io.persist = .written ∧ i.io.clear = true

instance : Decidable (WritesSucceed i s) :=
  inferInstanceAs (Decidable (_ ∧ _))

def Pauses (s : State) (i : TickInput) : Prop :=
  s.machine.system = .executingPrint ∧ (s.pollCommand i.io i.command).machine.system = .paused

instance : Decidable (Pauses s i) :=
  inferInstanceAs (Decidable (_ ∧ _))

-- A RESUME is accepted in the tick and reaches the orchestrator.
def Resumes (s : State) (i : TickInput) : Prop :=
  (s.pollCommand i.io i.command).machine.system = .resuming ∧
    (evaluateSafety i.safety).status ≠ .fault

instance : Decidable (Resumes s i) :=
  inferInstanceAs (Decidable (_ ∧ _))

-- The snapshot file in `s'` is the record of the pause that was accepted in `s`.
def Captures (s s' : State) : Prop :=
  ∃ snap, s'.snapshotFile = some snap ∧
    snap.magic = snapshotMagic ∧ snap.systemAtSnapshot = .paused ∧
    snap.cursor = s.exec.cursor ∧ snap.unitProgress = s.exec.unitProgress ∧
    ∃ events, s'.history = events ++ s.history ∧ .snapshotPersisted .written snap ∈ events

-- The execution that was paused in `s` continues in `s'`.
def ResumedFrom (s s' : State) : Prop :=
  s'.machine.system = .executingPrint ∧ s'.exec.cursor = s.exec.cursor ∧
    s'.exec.unitProgress = s.exec.unitProgress

-- A snapshot in memory that is left over from an earlier job has no counterpart on disk.
def Orphaned (s : State) : Prop :=
  s.pauseSnapshot ≠ none → s.machine.system = .ready ∨ s.machine.system = .executingPrint →
    s.snapshotFile = none

variable {s s' s₁ s₂ s₃ m m' : State} {i j : TickInput} {io : FileOutcomes} {r : ExecutionResult}

theorem kept_orphaned (hc : i.io.clear = true) : Kept Orphaned i where
  accepted _ h a := by
    cases a
    case start hr _ _ _ _ _     => exact fun hp _ => h hp (.inl hr)
    case clearJob               =>
      intro _ _
      simp [acceptClearJob, note, record, recordCommandOutcome, clearExecutionSnapshot, hc]
    case setLocalizationMode    => exact h
    all_goals exact fun _ hs => by obtain hs | hs := hs <;> cases hs
  job _ h _      := h
  armed _ h _    := h
  fault _ _ _    := fun _ hs => by obtain hs | hs := hs <;> cases hs
  run _ h _      := h
  executed _ h _ := h

theorem Orchestrated.orphaned (o : Orchestrated s io s') (h : s.Orphaned) : s'.Orphaned := by
  cases o
  case draining hs _ a _ => exact fun _ hc => by simp [a.system, hs] at hc
  case aborted           => exact fun _ hc => by simp [State.aborted, record] at hc
  case paused hs a _ _   => exact fun _ hc => by simp [a.system, hs] at hc
  case released hs a     => exact fun _ hc => by simp [State.released, a.system, hs] at hc
  case lost              => exact fun _ hc => by simp [requestFault, record] at hc
  case restored          => exact fun hp => absurd rfl hp
  case completed hs _ _  =>
    intro hp hc
    rw [completed_system, tracked_system] at hc
    apply h hp
    split at hc
    case isTrue hs => exact .inr hs
    case isFalse   => exact hc
  all_goals exact h

theorem tick_orphaned (w : s.WellFormed) (h : s.Orphaned) (hw : s.WritesSucceed i)
    (ht : tick i s = .ok s') : s'.Orphaned :=
  (kept_orphaned hw.right).tick w h ht fun _ o => o.orphaned

theorem Pausing.file (a : Pausing s io s') (h : s.pauseSnapshot ≠ none) :
    s'.snapshotFile = s.snapshotFile := by
  cases a
  case captured hn => exact absurd hn h
  case kept        => rfl

theorem tick_paused_file (w : s.WellFormed) (h : s.pauseSnapshot ≠ none)
    (ht : tick i s = .ok s') (hs : s'.machine.system = .paused) :
    s'.snapshotFile = s.snapshotFile := by
  have ⟨m, ⟨_, he⟩, _, m', _, o, hs'⟩ := w.orchestrates ht
  subst hs'
  have ⟨hm, _, _, c, a, hc⟩ := o.of_paused hs
  have u := execute_untouched he (by simp [hm, SystemState.suspended])
  have hf := (a.file (u.pauseSnapshot ▸ h)).trans u.snapshotFile
  obtain rfl | rfl := hc <;> exact hf

theorem tick_paused_captures (w : s.WellFormed) (h : s.pauseSnapshot = none)
    (hw : s.WritesSucceed i) (ht : tick i s = .ok s') (hs : s'.machine.system = .paused) :
    s.Captures s' := by
  have ⟨m, ⟨_, he⟩, _, m', _, o, hs'⟩ := w.orchestrates ht
  subst hs'
  have ⟨hm, _, _, c, a, hc⟩ := o.of_paused hs
  have u := execute_untouched he (by simp [hm, SystemState.suspended])
  obtain ⟨events, hh⟩ := kept_history.execute w (List.suffix_refl _) he
  cases a
  case kept hn => exact absurd (u.pauseSnapshot.trans h) hn
  case captured =>
    have hp :
        persistExecutionSnapshot i.io.persist m.snapshot m.snapshotFile = some m.snapshot := by
      simp [persistExecutionSnapshot, hw.left]
    have hh' : .snapshotPersisted i.io.persist m.snapshot :: m.history =
        (.snapshotPersisted .written m.snapshot :: events) ++ s.history := by
      simp [← hh, hw.left]
    refine ⟨m.snapshot, ?_, rfl, rfl, congrArg (·.cursor) u.exec,
      congrArg (·.unitProgress) u.exec, .snapshotPersisted .written m.snapshot :: events, ?_,
      List.mem_cons_self⟩
    · obtain rfl | rfl := hc <;> exact hp
    · obtain rfl | rfl := hc <;> exact hh'

-- The file does not change for as long as the execution stays PAUSED.
theorem file_stays (b : s₁.Boundary) (e : Run tick s₁ is s₂)
    (h : Always tick (·.machine.system = .paused) s₁ is) : s₂.snapshotFile = s₁.snapshotFile := by
  induction e
  case refl         => rfl
  case cons ht _ ih =>
    have hs := h.right _ ht
    have hf := tick_paused_file b.wellFormed (b.captured h.left) ht hs.head
    exact (ih (b.tick ht) hs).trans hf

theorem run_history (w : s₁.WellFormed) (e : Run tick s₁ is s₂) : s₁.history <:+ s₂.history :=
  WellFormed.invariant (I := fun s => s₁.history <:+ s.history)
    (fun w h ht => h.trans (w.tick_history ht)) w (List.suffix_refl _) e

theorem Captures.stays (c : s.Captures s₁) (b : s₁.Boundary) (e : Run tick s₁ is s₂)
    (h : Always tick (·.machine.system = .paused) s₁ is) : s.Captures s₂ := by
  have ⟨snap, hf, hm, hp, hc, hu, events, hh, he⟩ := c
  have ⟨later, hl⟩ := run_history b.wellFormed e
  refine ⟨snap, (file_stays b e h).trans hf, hm, hp, hc, hu, later ++ events, ?_, ?_⟩
  · rw [← hl, hh, List.append_assoc]
  · exact List.mem_append_right _ he

theorem tick_resumes (b : s₂.Boundary) (hr : s₂.Resumes j) (ht : tick j s₂ = .ok s₃) :
    (loadExecutionSnapshot j.io.load s₂.snapshotFile = none ∧ s₃.machine.system = .fault) ∨
    ∃ snap, loadExecutionSnapshot j.io.load s₂.snapshotFile = some snap ∧
      s₃.machine.system = .executingPrint ∧ s₃.exec.cursor = snap.cursor ∧
      s₃.exec.unitProgress = snap.unitProgress := by
  have ⟨m, ⟨_, he⟩, _, m', _, o, hs⟩ := b.wellFormed.orchestrates ht
  subst hs
  have hm : m.machine.system = .resuming :=
    (execute_system he).trans ((arm_system hr.right).trans hr.left)
  have u := execute_untouched he (by simp [hm, SystemState.suspended])
  rw [← u.snapshotFile]
  obtain ⟨hl, rfl⟩ | ⟨snap, hl, rfl⟩ := o.of_resuming hm (b.execute_released he hm)
  · exact .inl ⟨hl, rfl⟩
  · exact .inr ⟨snap, hl, rfl, rfl, rfl⟩

end State

open State

theorem Booted.orphaned (b : Booted s) : s.Orphaned := by
  have ⟨_, b⟩ := b.boots
  cases b
  case ready  => exact fun h => absurd rfl h
  case paused => exact fun _ => nofun

-- A PAUSE gets its own snapshot exactly if there is none left over in memory when it is accepted,
-- and its RESUME continues the execution exactly if, moreover, the file can be read.
theorem captures_iff_no_snapshot_left (b : Booted s₀) (e₁ : Run tick s₀ is₁ s₁)
    (e₂ : Run tick s₁ (i :: is₂) s₂) (hw₁ : Along tick State.WritesSucceed s₀ is₁)
    (hw₂ : Along tick State.WritesSucceed s₁ (i :: is₂)) (hp : s₁.Pauses i)
    (hs : ∀ s, tick i s₁ = .ok s → Always tick (·.machine.system = .paused) s is₂) :
    (s₁.Captures s₂ ↔ s₁.pauseSnapshot = none) ∧
    ∀ j s₃, s₂.Resumes j → tick j s₂ = .ok s₃ →
      (s₁.ResumedFrom s₃ ↔ s₁.pauseSnapshot = none ∧ j.io.load = true) := by
  have b₁ := e₁.invariant Boundary.tick b.boundary
  have b₂ := e₂.invariant Boundary.tick b₁
  have ho : s₁.WellFormed ∧ s₁.Orphaned :=
    e₁.invariant_along (I := fun s => s.WellFormed ∧ s.Orphaned)
      (fun h hw ht => ⟨h.left.tick ht, tick_orphaned h.left h.right hw ht⟩)
      ⟨b.wellFormed, b.orphaned⟩ hw₁
  cases e₂
  case cons s ht e =>
    have ha := hs s ht
    by_cases hn : s₁.pauseSnapshot = none
    case pos =>
      have c := tick_paused_captures b₁.wellFormed hn (hw₂ s ht).left ht ha.head
        |>.stays (b₁.tick ht) e ha
      refine ⟨iff_of_true c hn, fun j s₃ hr h₃ => ?_⟩
      have ⟨snap, hf, _, _, hc, hu, _⟩ := c
      cases tick_resumes b₂ hr h₃
      case inl h =>
        refine iff_of_false (fun hs => by cases hs.left.symm.trans h.right) (fun hs => ?_)
        cases h.left.symm.trans (loadExecutionSnapshot_eq_some.mpr ⟨hs.right, hf⟩)
      case inr h =>
        have ⟨_, hl, hs, hc', hu'⟩ := h
        have ⟨ho, hf'⟩ := loadExecutionSnapshot_eq_some.mp hl
        cases hf.symm.trans hf'
        exact iff_of_true ⟨hs, hc'.trans hc, hu'.trans hu⟩ ⟨hn, ho⟩
    case neg =>
      have hf : s₂.snapshotFile = none :=
        (file_stays (b₁.tick ht) e ha).trans (tick_paused_file b₁.wellFormed hn ht ha.head)
          |>.trans (ho.right hn (.inr hp.left))
      refine ⟨iff_of_false ?_ hn, fun j s₃ hr h₃ => iff_of_false ?_ (fun h => hn h.left)⟩
      · intro ⟨_, hc, _⟩
        cases hf.symm.trans hc
      · intro h
        cases tick_resumes b₂ hr h₃
        case inl hl => cases h.left.symm.trans hl.right
        case inr hl =>
          have ⟨_, hl, _⟩ := hl
          cases hf.symm.trans (loadExecutionSnapshot_eq_some.mp hl).right

theorem captures_iff_no_snapshot_left_resume :
    ∃ s₁ s₂ : State, s₁.Captures s₂ ∧
      ∀ j s₃, s₂.Resumes j → tick j s₂ = .ok s₃ → j.io.load = true → s₁.ResumedFrom s₃ := by
  have ⟨s₀, hb, h⟩ : ∃ s₀, boot {} none = .ok s₀ ∧
      Along tick State.WritesSucceed s₀ [{}, .submit 1 3, .issue 1 1] ∧
      Reaches tick
        (fun s₁ => s₁.pauseSnapshot = none ∧ s₁.Pauses (.issue 2 2) ∧
          Along tick State.WritesSucceed s₁ [.issue 2 2, {}] ∧
          (∀ s, tick (.issue 2 2) s₁ = .ok s → Always tick (·.machine.system = .paused) s [{}]) ∧
          Reaches tick (fun _ => True) s₁ [.issue 2 2, {}])
        s₀ [{}, .submit 1 3, .issue 1 1] :=
    ⟨_, rfl, by decide +kernel⟩
  have ⟨s₁, e₁, hn, hp, hw₂, hs, hr⟩ := h.right.run
  have ⟨s₂, e₂, _⟩ := hr.run
  have hc := captures_iff_no_snapshot_left ⟨_, _, hb⟩ e₁ e₂ h.left hw₂ hp hs
  exact ⟨s₁, s₂, hc.left.mpr hn, fun j s₃ hr ht hl => (hc.right j s₃ hr ht).mpr ⟨hn, hl⟩⟩

-- The snapshot of the first job is still in memory when the second one is paused, while CLEAR has
-- cleared the file.
theorem captures_fails :
    ¬∀ s₀ is₁ s₁ i is₂ s₂, Booted s₀ → Run tick s₀ is₁ s₁ → Run tick s₁ (i :: is₂) s₂ →
      Along tick State.WritesSucceed s₀ is₁ → Along tick State.WritesSucceed s₁ (i :: is₂) →
      s₁.Pauses i →
      (∀ s, tick i s₁ = .ok s → Always tick (·.machine.system = .paused) s is₂) →
      s₁.Captures s₂ := by
  intro hc
  have ⟨s₀, hb, h⟩ : ∃ s₀, boot {} none = .ok s₀ ∧
      Along tick State.WritesSucceed s₀
        [{}, .submit 1 3, .issue 1 1, .issue 2 2, { safety := { emergencyStop := true } },
          .issue 3 6, .submit 2 3, .issue 4 1] ∧
      Reaches tick
        (fun s₁ => s₁.Pauses (.issue 5 2) ∧ Along tick State.WritesSucceed s₁ [.issue 5 2] ∧
          (∀ s, tick (.issue 5 2) s₁ = .ok s → Always tick (·.machine.system = .paused) s []) ∧
          Reaches tick (·.snapshotFile = none) s₁ [.issue 5 2])
        s₀
        [{}, .submit 1 3, .issue 1 1, .issue 2 2, { safety := { emergencyStop := true } },
          .issue 3 6, .submit 2 3, .issue 4 1] :=
    ⟨_, rfl, by decide +kernel⟩
  have ⟨s₁, e₁, hp, hw₂, hs, hr⟩ := h.right.run
  have ⟨s₂, e₂, hn⟩ := hr.run
  have ⟨_, hf, _⟩ := hc s₀ _ s₁ _ _ s₂ ⟨_, _, hb⟩ e₁ e₂ h.left hw₂ hp hs
  cases hn.symm.trans hf

end Firmware
