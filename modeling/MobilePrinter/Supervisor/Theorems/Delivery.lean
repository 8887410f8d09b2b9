import MobilePrinter.Firmware.Theorems.Channel
import MobilePrinter.Supervisor.Theorems.Actions

namespace Supervisor

open Firmware Transition

namespace Link

variable {s s' : Link} {f : State} {i : TickInput}

theorem act_cases (a : Action) (s : Link) :
    ((s.node.perform a s.firmware.published).1 = none ∧ ∃ node flight,
      s.act a = { s with node, flight } ∧ node.commandWriter = s.node.commandWriter) ∨
    ∃ frame node flight, (s.node.perform a s.firmware.published).1 = some frame ∧
      s.act a = { s with node, flight }.write frame ∧
      Writes s.node.commandWriter (some frame) node.commandWriter := by
  have h := SupervisorNode.perform_performs a s.firmware.published s.node
  simp only [act]
  generalize s.node.perform a s.firmware.published = r at h
  have ⟨frame, node⟩ := r
  cases h
  case quiet hw      => exact .inl ⟨rfl, _, _, rfl, hw.trans SupervisorNode.seen_commandWriter⟩
  case unmarked hw   =>
    exact .inr ⟨_, _, _, rfl, rfl, SupervisorNode.seen_commandWriter ▸ hw⟩
  case marked hw     =>
    exact .inr ⟨_, _, _, rfl, rfl, SupervisorNode.seen_commandWriter ▸ hw⟩

theorem tick_cases (w : s.firmware.WellFormed) (h : s.tick i = .ok s') :
    ∃ f, s' = s.land f ∧ f.WellFormed ∧
      ((s.firmware.Takes s.slot ∧ f.lastSeenSeq = s.slot.seq ∧ ∃ outcome, f.history.handled =
          (s.slot.seq, .ofRaw s.slot.command, outcome) :: s.firmware.history.handled) ∨
        ¬s.firmware.Takes s.slot ∧ f.history.handled = s.firmware.history.handled ∧
          (s.slot.seq ≤ s.firmware.lastSeenSeq → f.lastSeenSeq = s.firmware.lastSeenSeq)) := by
  have ⟨f, hf, hs⟩ := tick_ok h
  have ⟨hl, hh⟩ := w.tick_channel hf
  refine ⟨f, hs, w.tick hf, ?_⟩
  rw [hl, hh]
  by_cases ht : s.firmware.Takes s.slot
  case pos =>
    have ⟨hl, hh⟩ := State.pollCommand_takes i.io ht
    exact .inl ⟨ht, hl, _, hh⟩
  case neg =>
    have ⟨hh, hl⟩ := State.pollCommand_passes i.io ht
    exact .inr ⟨ht, hh, hl⟩

def waiting (s : Link) : List (UInt32 × CommandType) :=
  if s.unread then [(s.slot.seq, .ofRaw s.slot.command)] else []

-- Every command that was reported as sent has been handled exactly once and in order, but for the
-- one that is waiting.
def Delivered (s : Link) : Prop :=
  s.sent = s.waiting ++ s.firmware.history.handled.map fun c => (c.1, c.2.1)

instance : Decidable (Delivered s) :=
  inferInstanceAs (Decidable (_ = _))

-- No frame is written before the last one has been polled.
def Spaced : Input → Link → Prop
  | .act a, s              =>
    (s.node.perform a s.firmware.published).1.isSome = true → s.unread = false
  | .bridge connected _, s => connected = true → s.unread = false
  | _, _                   => True

instance Spaced.decidable : (i : Input) → Decidable (Spaced i s)
  | .act _               => inferInstanceAs (Decidable (_ → _))
  | .bridge _ _          => inferInstanceAs (Decidable (_ → _))
  | .tick _              => .isTrue trivial
  | .restartSupervisor _ => .isTrue trivial
  | .restartFirmware _   => .isTrue trivial

-- The counter of the writer has not wrapped around when its frame is polled.
def Unwrapped : Input → Link → Prop
  | .tick _, s => s.unread = true → s.slot.seq ≠ 0
  | _, _       => True

instance Unwrapped.decidable : (i : Input) → Decidable (Unwrapped i s)
  | .tick _              => inferInstanceAs (Decidable (_ → _))
  | .act _               => .isTrue trivial
  | .bridge _ _          => .isTrue trivial
  | .restartSupervisor _ => .isTrue trivial
  | .restartFirmware _   => .isTrue trivial

-- The inputs of one session of the supervisor and one of the firmware.
def Session : Input → Link → Prop
  | .act _, _  => True
  | .tick _, _ => True
  | _, _       => False

instance Session.decidable : (i : Input) → Decidable (Session i s)
  | .act _               => .isTrue trivial
  | .tick _              => .isTrue trivial
  | .bridge _ _          => .isFalse id
  | .restartSupervisor _ => .isFalse id
  | .restartFirmware _   => .isFalse id

-- In a session the writer is one number ahead of the firmware while a frame is unread.
structure Counted (s : Link) : Prop where
  wellFormed : s.firmware.WellFormed
  slot       : s.slot.seq = s.node.commandWriter.seq
  valid      : s.unread = true → s.slot.validate = true
  count      : s.slot.seq =
    if s.unread then s.firmware.lastSeenSeq + 1 else s.firmware.lastSeenSeq
  delivered  : s.Delivered

namespace Counted

theorem act (c : Counted s) (hs : Spaced (.act a) s) : Counted (s.act a) := by
  cases act_cases a s
  case inl h =>
    have ⟨_, node, flight, h, hw⟩ := h
    rw [h]
    exact { c with slot := hw ▸ c.slot }
  case inr h =>
    have ⟨frame, node, flight, hf, h, hw⟩ := h
    have hu := hs (by rw [hf]; rfl)
    have ⟨hv, hn, hw⟩ := hw.numbered
    have hc := c.count
    have hd := c.delivered
    simp only [hu, Bool.false_eq_true, ↓reduceIte] at hc
    simp only [Delivered, waiting, hu, Bool.false_eq_true, ↓reduceIte, List.nil_append] at hd
    rw [h]
    exact {
      wellFormed := c.wellFormed
      slot       := hw.symm
      valid _    := hv
      count      := by
        change frame.seq = s.firmware.lastSeenSeq + 1
        rw [hn, ← c.slot, hc]
      delivered  := congrArg (List.cons _) hd }

theorem tick (c : Counted s) (hw : Unwrapped (.tick i) s) (h : s.tick i = .ok s') :
    Counted s' := by
  have ⟨f, h, wf, hf⟩ := tick_cases c.wellFormed h
  have hc := c.count
  have hd := c.delivered
  rw [h]
  cases hu : s.unread
  all_goals simp only [Delivered, waiting, hu, Bool.false_eq_true, ↓reduceIte] at hc hd
  case false =>
    cases hf
    case inl hf => exact absurd hf.left.left (by simp [hc])
    case inr hf =>
      have ⟨_, hh, hl⟩ := hf
      have hl := hl (UInt32.le_of_eq hc)
      exact {
        wellFormed := wf
        slot       := c.slot
        valid      := nofun
        count      := hc.trans hl.symm
        delivered  := by
          change s.sent = f.history.handled.map _
          rw [hh, hd]
          rfl }
  case true =>
    have ht : s.firmware.Takes s.slot := by
      refine ⟨?_, c.valid hu⟩
      have hn := hw hu
      rw [hc] at hn ⊢
      grind
    cases hf
    case inr hf => exact absurd ht hf.left
    case inl hf =>
      have ⟨_, hl, _, hh⟩ := hf
      exact {
        wellFormed := wf
        slot       := c.slot
        valid      := nofun
        count      := hl.symm
        delivered  := by
          change s.sent = f.history.handled.map _
          rw [hh, hd]
          rfl }

end Counted

theorem Counted.back {i : Input} (c : Counted s) (hi : Session i s) (hd : Delivered s')
    (h : step i s = .ok s') : Spaced i s ∧ Unwrapped i s := by
  have hc := c.delivered
  cases i
  case act a =>
    cases h
    refine ⟨fun hf => ?_, trivial⟩
    cases act_cases a s
    case inl h => simp [h.left] at hf
    case inr h =>
      have ⟨frame, node, flight, _, h, _⟩ := h
      rw [h] at hd
      cases hu : s.unread
      case false => rfl
      case true =>
        have hd : s.sent = s.firmware.history.handled.map _ := List.cons_inj_right _ |>.mp hd
        simp [Delivered, waiting, hu, hd] at hc
  case tick i =>
    refine ⟨trivial, fun hu hn => ?_⟩
    have ⟨f, h, _, hf⟩ := tick_cases c.wellFormed h
    have ht : ¬s.firmware.Takes s.slot := fun h => by simp [State.Takes, hn] at h
    have ⟨_, hh, _⟩ := hf.resolve_left fun h => ht h.left
    rw [h] at hd
    have hd : s.sent = f.history.handled.map _ := hd
    simp [Delivered, waiting, hu, hd, hh] at hc
  all_goals cases hi

end Link

open Link

-- In a session of the supervisor and one of the firmware no command that was reported as sent is
-- lost exactly if no frame is written before the last one has been polled and the counter of the
-- writer does not wrap around.
theorem delivered_iff_spaced (b : Booted f) (connected : Bool)
    (hi : Along step Session (fresh connected f) is) :
    Always step Delivered (fresh connected f) is ↔
      Along step (fun i s => Spaced i s ∧ Unwrapped i s) (fresh connected f) is := by
  refine always_iff_along_of (I := Counted) (·.delivered) ?step ?back ?fresh hi
  case step =>
    intro i s s' c hi hp h
    cases i
    case act  => cases h; exact c.act hp.left
    case tick => exact c.tick hp.right h
    all_goals cases hi
  case back => exact fun c hi hd h => c.back hi hd h
  case fresh =>
    have ⟨hl, hh⟩ := b.channel
    have hs : (fresh connected f).slot.seq = 0 := by cases connected <;> rfl
    exact {
      wellFormed := b.wellFormed
      slot       := hs
      valid      := nofun
      count      := hs.trans hl.symm
      delivered  := (congrArg (List.map _) hh).symm }

-- A command that is handled before the next one is sent.
theorem delivered_iff_spaced_pause :
    ∃ f, Booted f ∧ Always step Delivered (fresh true f)
      [.tick {}, .act (.timer 1), .act (.pause 2), .tick {}, .act (.abort 3), .tick {}] := by
  have ⟨f, hb, hi, hp⟩ : ∃ f, boot {} none = .ok f ∧
      Along step Session (fresh true f)
        [.tick {}, .act (.timer 1), .act (.pause 2), .tick {}, .act (.abort 3), .tick {}] ∧
      Along step (fun i s => Spaced i s ∧ Unwrapped i s) (fresh true f)
        [.tick {}, .act (.timer 1), .act (.pause 2), .tick {}, .act (.abort 3), .tick {}] :=
    ⟨_, rfl, by decide +kernel⟩
  exact ⟨f, ⟨_, _, hb⟩, (delivered_iff_spaced ⟨_, _, hb⟩ true hi).mpr hp⟩

-- A PAUSE overwrites the ABORT that was sent within the same poll interval.
theorem delivered_fails :
    ¬∀ f connected is s, Booted f → Along step Session (fresh connected f) is →
      Run step (fresh connected f) is s → s.Delivered := by
  intro hc
  have ⟨f, hb, hi, h⟩ : ∃ f, boot {} none = .ok f ∧
      Along step Session (fresh true f)
        [.tick {}, .act (.timer 1), .act (.abort 2), .act (.pause 3), .tick {}] ∧
      Reaches step (fun s => ¬s.Delivered) (fresh true f)
        [.tick {}, .act (.timer 1), .act (.abort 2), .act (.pause 3), .tick {}] :=
    ⟨_, rfl, by decide +kernel⟩
  have ⟨s, e, hd⟩ := h.run
  exact hd (hc f true _ s ⟨_, _, hb⟩ hi e)

end Supervisor
