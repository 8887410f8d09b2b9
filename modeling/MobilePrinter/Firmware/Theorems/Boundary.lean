import MobilePrinter.Firmware.Theorems.Suspension

namespace Firmware
namespace State

structure Boundary (s : State) : Prop where
  wellFormed  : s.WellFormed
  notResuming : s.machine.system ≠ .resuming
  released    : s.machine.system = .paused →
    s.exec.ownedByExecutor = false ∧ s.exec.armed = false
  captured    : s.machine.system = .paused → s.pauseSnapshot ≠ none
  available   : s.machine.system = .paused → s.machine.resumeAvailable = true

variable {s s' m m' : State} {i : TickInput} {io : FileOutcomes} {r : ExecutionResult}

theorem pollCommand_resuming (h : s.machine.system ≠ .resuming)
    (hp : (s.pollCommand io shm).machine.system = .resuming) : s.exec.ownedByExecutor = false := by
  have p : Polled s io (s.pollCommand io shm) := pollCommand_polled shm
  generalize s.pollCommand io shm = s' at p hp
  cases p
  case none | invalid | rejected => exact absurd hp h
  case accepted a =>
    cases a
    case resume hw              => exact hw
    case setLocalizationMode    => exact absurd hp h
    all_goals cases hp

theorem kept_available :
    Kept (fun s => s.machine.system = .paused → s.machine.resumeAvailable = true) i where
  accepted _ h a := by
    cases a
    case pause               => exact fun _ => rfl
    case setLocalizationMode => exact h
    all_goals exact nofun
  job _ h _ := h
  armed _ h _ := h
  fault _ _ _ := nofun
  run _ h _ := h
  executed _ h _ := h

theorem kept_history {s₀ : State} : Kept (s₀.history <:+ ·.history) i where
  accepted _ h a := by
    cases a <;> exact h.trans (List.suffix_cons _ _)
  job _ h _      := h.trans (List.suffix_cons _ _)
  armed _ h _    := h
  fault _ h _    := h.trans (List.suffix_cons _ _)
  run _ h _      := h
  executed _ h _ := h.trans (List.suffix_append _ _)
  rejected h     := h.trans (List.suffix_cons _ _)

theorem Orchestrated.history (o : Orchestrated s io s') : s.history <:+ s'.history := by
  cases o
  case draining a _ =>
    cases a
    case begun => exact List.suffix_cons _ _
    case stale => exact List.suffix_refl _
  case aborted a _ =>
    cases a
    case begun => exact (List.suffix_cons _ _).trans (List.suffix_cons _ _)
    case stale => exact List.suffix_cons _ _
  case paused a _ _ =>
    cases a
    case captured => exact List.suffix_cons _ _
    case kept     => exact List.suffix_refl _
  case released a =>
    cases a
    case captured => exact List.suffix_cons _ _
    case kept     => exact List.suffix_refl _
  case lost      => exact List.suffix_cons _ _
  case restored  => exact List.suffix_cons _ _
  case completed => exact List.suffix_cons _ _
  all_goals exact List.suffix_refl _

theorem WellFormed.tick_history (w : s.WellFormed) (h : Firmware.tick i s = .ok s') :
    s.history <:+ s'.history :=
  kept_history.tick w (List.suffix_refl _) h fun _ o hs => hs.trans o.history

namespace Boundary

theorem execute_released (b : s.Boundary) (he : s.execute i = .ok (r, m))
    (h : m.machine.system = .resuming) : m.exec.ownedByExecutor = false := by
  have u := execute_untouched he (by simp [h, SystemState.suspended])
  rw [u.exec]
  exact pollCommand_resuming b.notResuming (pollCommand_of_resuming he h).right

theorem tick (b : s.Boundary) (ht : Firmware.tick i s = .ok s') : s'.Boundary := by
  have ⟨m, ⟨_, he⟩, wm, m', _, o, hs⟩ := b.wellFormed.orchestrates ht
  have w := b.wellFormed.tick ht
  have ha := kept_available.execute b.wellFormed b.available he
  subst hs
  refine {
    wellFormed  := w
    notResuming := o.not_resuming (b.execute_released he)
    released    := ?released
    captured    := ?captured
    available   := ?available }
  all_goals
    intro h
    have ⟨hs, ho, ha', _, p, hb⟩ := o.of_paused h
  case released => exact ⟨ho, ha'⟩
  case captured => obtain rfl | rfl := hb <;> exact p.pauseSnapshot
  case available => obtain rfl | rfl := hb <;> cases p <;> exact ha hs

end Boundary

end State

open State

theorem Booted.boundary (b : Booted s) : s.Boundary := by
  have w := b.wellFormed
  have ⟨_, b⟩ := b.boots
  cases b
  case ready =>
    exact {
      wellFormed  := w
      notResuming := nofun
      released    := nofun
      captured    := nofun
      available   := nofun }
  case paused =>
    exact {
      wellFormed  := w
      notResuming := nofun
      released    := fun _ => ⟨rfl, rfl⟩
      captured    := fun _ => nofun
      available   := fun _ => rfl }

theorem Reachable.boundary (r : Reachable s) : s.Boundary := by
  cases r
  case intro b e => exact e.invariant Boundary.tick b.boundary

end Firmware
