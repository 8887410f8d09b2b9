import MobilePrinter.Supervisor.Theorems.Delivery

namespace Supervisor

open Firmware Transition

namespace Link

variable {s s' : Link} {f : State} {i : TickInput}

-- Every command that was reported as sent has been handled, but for one that is not yet polled.
def Reached (s : Link) : Prop :=
  ∀ n ≤ s.sent.length, 0 < n → n ∈ s.heard ∨ s.unread = true ∧ n = s.sent.length

instance : Decidable (Reached s) :=
  inferInstanceAs (Decidable (∀ n ≤ _, _))

-- The first poll behind a write finds a frame of the current version of the interface, whose number
-- is greater than the last one that this session of the firmware has seen.
def Taken : Input → Link → Prop
  | .tick _, s => s.unread = true → s.firmware.Takes s.slot
  | _, _       => True

instance Taken.decidable : (i : Input) → Decidable (Taken i s)
  | .tick _              => inferInstanceAs (Decidable (_ → _))
  | .act _               => .isTrue trivial
  | .bridge _ _          => .isTrue trivial
  | .restartSupervisor _ => .isTrue trivial
  | .restartFirmware _   => .isTrue trivial

theorem land_heard (h : f.history.handled = c :: s.firmware.history.handled) :
    (s.land f).heard = s.sent.length :: s.heard := by
  simp [land, handledBetween, h]

theorem land_passed (h : f.history.handled = s.firmware.history.handled) :
    (s.land f).heard = s.heard := by
  simp [land, handledBetween, h]

-- What is handled has been sent, and what is unread has not been handled.
structure Reaching (s : Link) : Prop where
  wellFormed : s.firmware.WellFormed
  heard      : ∀ n ∈ s.heard, n ≤ s.sent.length
  unread     : s.unread = true → 0 < s.sent.length ∧ s.sent.length ∉ s.heard
  reached    : s.Reached

namespace Reaching

theorem write (r : Reaching s) (hu : s.unread = false) (frame : CommandIpc) :
    Reaching (s.write frame) where
  wellFormed := r.wellFormed
  heard n hn := Nat.le_succ_of_le (r.heard n hn)
  unread _   := ⟨Nat.succ_pos _, fun hn => absurd (r.heard _ hn) (Nat.not_succ_le_self _)⟩
  reached    := by
    intro n hl hn
    cases Nat.lt_or_eq_of_le hl
    case inr he => exact .inr ⟨rfl, he⟩
    case inl hl =>
      have h := r.reached n (Nat.le_of_lt_succ hl) hn
      exact .inl (h.resolve_right fun h => by simp [hu] at h)

theorem act (r : Reaching s) (hs : Spaced (.act a) s) : Reaching (s.act a) := by
  cases act_cases a s
  case inl h =>
    have ⟨_, node, flight, h, _⟩ := h
    rw [h]
    exact ⟨r.wellFormed, r.heard, r.unread, r.reached⟩
  case inr h =>
    have ⟨frame, node, flight, hf, h, _⟩ := h
    rw [h]
    have r : Reaching { s with node, flight } := ⟨r.wellFormed, r.heard, r.unread, r.reached⟩
    exact r.write (hs (by rw [hf]; rfl)) frame

theorem bridge (r : Reaching s) (hs : Spaced (.bridge connected command) s) :
    Reaching (s.bridge connected command) := by
  cases connected
  case false => exact r
  case true  => exact r.write (hs rfl) _

theorem tick (r : Reaching s) (ht : Taken (.tick i) s) (h : s.tick i = .ok s') : Reaching s' := by
  have ⟨f, h, wf, hf⟩ := tick_cases r.wellFormed h
  rw [h]
  cases hf
  case inl hf =>
    have ⟨_, _, _, hh⟩ := hf
    have hl := land_heard hh
    exact {
      wellFormed := wf
      heard n hn := by
        rw [hl] at hn
        exact (List.mem_cons.mp hn).elim Nat.le_of_eq (r.heard n)
      unread     := nofun
      reached    := by
        intro n hn hp
        rw [hl]
        cases r.reached n hn hp
        case inl h => exact .inl (List.mem_cons_of_mem _ h)
        case inr h => exact .inl (List.mem_cons.mpr (.inl h.right)) }
  case inr hf =>
    have ⟨hp, hh, _⟩ := hf
    have hl := land_passed hh
    exact {
      wellFormed := wf
      heard      := by rw [hl]; exact r.heard
      unread     := nofun
      reached    := by
        intro n hn hz
        rw [hl]
        exact .inl ((r.reached n hn hz).resolve_right fun h => hp (ht h.left)) }

theorem taken (r : Reaching s) (hr : Reached s') (h : s.tick i = .ok s') : Taken (.tick i) s := by
  intro hu
  have ⟨hn, hm⟩ := r.unread hu
  have ⟨f, h, _, hf⟩ := tick_cases r.wellFormed h
  rw [h] at hr
  cases hf
  case inl hf => exact hf.left
  case inr hf =>
    have hl := hr _ (Nat.le_refl _) hn
    rw [land_passed hf.right.left] at hl
    exact absurd (hl.resolve_right fun h => nomatch h.left) hm

end Reaching
end Link

open Link

-- If there is a poll between any two writes, whoever makes them, then no command is lost exactly if
-- each poll behind a write finds a valid frame with a number that this session of the firmware has
-- not seen.
theorem reached_iff_taken (b : Booted f) (node : SupervisorNode) (slot : CommandIpc)
    (hs : Along step Spaced { node, slot, firmware := f } is) :
    Always step Reached { node, slot, firmware := f } is ↔
      Along step Taken { node, slot, firmware := f } is := by
  refine always_iff_along_of (I := Reaching) (·.reached) ?step ?back ?boot hs
  case step =>
    intro i s s' r hs ht h
    cases i
    case act    => cases h; exact r.act hs
    case bridge => cases h; exact r.bridge hs
    case tick   => exact r.tick ht h
    case restartSupervisor =>
      cases h
      exact ⟨r.wellFormed, r.heard, r.unread, r.reached⟩
    case restartFirmware io =>
      have ⟨f, hf, hs⟩ := restartFirmware_ok h
      rw [hs]
      exact ⟨Booted.wellFormed ⟨_, _, hf⟩, r.heard, r.unread, r.reached⟩
  case back =>
    intro i s s' r _ hr h
    cases i
    case tick => exact r.taken hr h
    all_goals trivial
  case boot => exact ⟨b.wellFormed, nofun, nofun, fun n hn hp => absurd hn (Nat.not_le_of_lt hp)⟩

-- Both sides restart between two commands.
theorem reached_iff_taken_restarts :
    ∃ f, Booted f ∧ Always step Reached (fresh true f) [
      .tick {}, .act (.timer 1), .act (.pause 2), .tick {}, .restartFirmware {},
      .restartSupervisor true, .tick {}, .act (.timer 3), .act (.pause 4), .tick {}] := by
  have ⟨f, hb, hs, ht⟩ : ∃ f, boot {} none = .ok f ∧
      Along step Spaced (fresh true f) [
        .tick {}, .act (.timer 1), .act (.pause 2), .tick {}, .restartFirmware {},
        .restartSupervisor true, .tick {}, .act (.timer 3), .act (.pause 4), .tick {}] ∧
      Along step Taken (fresh true f) [
        .tick {}, .act (.timer 1), .act (.pause 2), .tick {}, .restartFirmware {},
        .restartSupervisor true, .tick {}, .act (.timer 3), .act (.pause 4), .tick {}] :=
    ⟨_, rfl, by decide +kernel⟩
  exact ⟨f, ⟨_, _, hb⟩, (reached_iff_taken ⟨_, _, hb⟩ _ _ hs).mpr ht⟩

-- The supervisor restarts, and the firmware passes by the first command of its new session.
theorem reached_fails :
    ¬∀ f connected is s, Booted f → Along step Spaced (fresh connected f) is →
      Run step (fresh connected f) is s → s.Reached := by
  intro hc
  have ⟨f, hb, hs, h⟩ : ∃ f, boot {} none = .ok f ∧
      Along step Spaced (fresh true f) [
        .tick {}, .act (.timer 1), .act (.pause 2), .tick {}, .restartSupervisor true,
        .act (.timer 3), .act (.pause 4), .tick {}] ∧
      Reaches step (fun s => ¬s.Reached) (fresh true f) [
        .tick {}, .act (.timer 1), .act (.pause 2), .tick {}, .restartSupervisor true,
        .act (.timer 3), .act (.pause 4), .tick {}] :=
    ⟨_, rfl, by decide +kernel⟩
  have ⟨s, e, hr⟩ := h.run
  exact hr (hc f true _ s ⟨_, _, hb⟩ hs e)

end Supervisor
