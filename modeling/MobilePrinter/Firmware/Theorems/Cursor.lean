import MobilePrinter.Firmware.Theorems.Crashes
import MobilePrinter.Firmware.Theorems.Suspension

namespace Firmware
namespace State

variable {s s' m m' : State} {i : TickInput} {io : FileOutcomes} {r : ExecutionResult} {c : Crash}

theorem Executed.not_behind {f : Feed RosMotion} (e : s.Executed safety f) (h : ¬s.Behind) :
    ¬(s.withFeed f).Behind := by
  intro hb
  have hc : f.ctx.cursor ≠ 0 ∧ f.ctx.cursor < f.lastCursor := hb
  cases e.moves
  case inl hm =>
    have hf : f.ctx.cursor = s.exec.cursor := by rw [hm.ctx]; rfl
    cases e.lastCursor
    case inl hl => exact h ⟨hf ▸ hc.left, hl ▸ hf ▸ hc.right⟩
    case inr hl => omega
  case inr hf =>
    have ⟨_, hl, _, res, hm⟩ := hf
    have hf : s.exec.cursor ≤ f.ctx.cursor := by
      rw [hm.ctx]
      split
      · exact Nat.le_refl _
      · exact Nat.le_succ _
    omega

theorem kept_not_behind : Kept (¬·.Behind) i where
  accepted _ h a := by cases a <;> exact h
  job _ h _      := h
  armed _ h _    := h
  fault _ h _    := h
  run _ h _      := h
  executed _ h e := e.not_behind h

-- The tick restores no cursor that is behind the last one that was stepped.
def RestoresAhead (i : TickInput) (s : State) : Prop :=
  ∀ snap ∈ s.restored? i, snap.cursor = 0 ∨ s.lastCursor ≤ snap.cursor

instance : Decidable (RestoresAhead i s) :=
  inferInstanceAs (Decidable (∀ _ ∈ _, _))

theorem tick_not_behind (w : s.WellFormed) (hb : ¬s.Behind) (hr : s.RestoresAhead i)
    (h : tick i s = .ok s') : ¬s'.Behind := by
  have ⟨m, ⟨_, he⟩, _, m', _, o, hs⟩ := w.orchestrates h
  have hm := kept_not_behind.execute w hb he
  subst hs
  cases o
  case stopped | held | started | continued => exact hm
  case draining a _   => cases a <;> exact hm
  case aborted a _    => cases a <;> exact hm
  case paused a _ _   => cases a <;> exact hm
  case released a     => cases a <;> exact hm
  case lost           => exact hm
  case completed      => exact fun hc => hc.left rfl
  case restored snap hs _ hl =>
    have u := execute_untouched he (by simp [hs, SystemState.suspended])
    have ha := hr snap ((execute_resuming he hs).trans hl)
    intro hc
    have hc' : snap.cursor ≠ 0 ∧ snap.cursor < m.lastCursor := hc
    rw [u.lastCursor] at hc'
    omega

end State

open State Transition

-- The assertions of the loop hold as long as no RESUME restores a cursor that is behind the last
-- one that was stepped.
theorem assertions_hold_if_restores_ahead (b : Booted s₀)
    (h : Along tick State.RestoresAhead s₀ is) : ¬Fails tick (.assertion a) s₀ is := by
  intro hf
  have ⟨is₁, i, is₂, s, hi, e, he⟩ := hf.run
  rw [hi] at h
  have hs : ∀ {i s s'}, s.WellFormed ∧ ¬s.Behind → s.RestoresAhead i → tick i s = .ok s' →
      s'.WellFormed ∧ ¬s'.Behind :=
    fun h hr ht => ⟨h.left.tick ht, tick_not_behind h.left h.right hr ht⟩
  have hb : ¬s₀.Behind := by
    have ⟨_, b⟩ := b.boots
    cases b <;> exact fun hc => hc.left rfl
  have hn := e.invariant_along hs ⟨b.wellFormed, hb⟩ h.prefix
  exact kept_not_behind.arm hn.left hn.right (hn.left.tick_error he).right.right

theorem assertions_hold_if_restores_ahead_resume :
    ∃ s₀, Booted s₀ ∧ ¬Fails tick (.assertion .cursorBehind) s₀
      [{}, .submit 1 3, .issue 1 1, .issue 2 2, .issue 3 3, {}] := by
  have ⟨s₀, hb, h⟩ : ∃ s₀, boot {} none = .ok s₀ ∧ Along tick State.RestoresAhead s₀
      [{}, .submit 1 3, .issue 1 1, .issue 2 2, .issue 3 3, {}] :=
    ⟨_, rfl, by decide +kernel⟩
  exact ⟨s₀, ⟨_, _, hb⟩, assertions_hold_if_restores_ahead ⟨_, _, hb⟩ h⟩

-- A snapshot that survives CLEAR takes the next job back to the cursor of the last one.
theorem assertion_fails :
    ¬∀ s₀ is a, Booted s₀ → ¬Fails tick (.assertion a) s₀ is := by
  intro hc
  have ⟨s₀, hb, h⟩ : ∃ s₀, boot {} none = .ok s₀ ∧ Fails tick (.assertion .cursorBehind) s₀
      [{}, .submit 1 3, .issue 1 1, .issue 2 2, { safety := { emergencyStop := true } },
        { TickInput.issue 3 6 with io := { clear := false } }, .submit 2 4, .issue 4 1, {},
        .issue 5 2, .issue 6 3, {}] :=
    ⟨_, rfl, by decide +kernel⟩
  exact hc s₀ _ _ ⟨_, _, hb⟩ h

end Firmware
