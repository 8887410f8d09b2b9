import MobilePrinter.Firmware.Theorems.Boundary

namespace Firmware

namespace State

variable {s s' m : State} {i : TickInput} {io : FileOutcomes}

@[simp]
theorem note_handled : (s.note q c o).history.handled = (q, c, o) :: s.history.handled :=
  rfl

-- How far the channel has been read, and what was heard on it.
def Channel (seen : UInt32) (handled : List HandledCommand) (s : State) : Prop :=
  s.lastSeenSeq = seen ∧ s.history.handled = handled

theorem Accepts.channel (a : Accepts s io c s') : s'.Channel s.lastSeenSeq s.history.handled := by
  cases a <;> exact ⟨rfl, rfl⟩

theorem carried_channel : Carried (Channel seen handled) i where
  job _ h _      := h
  armed _ h _    := h
  fault _ h _    := h
  run _ h _      := h
  executed _ h e :=
    ⟨h.left, e.keeps_history (P := (History.handled · = _)) h.right fun _ _ _ _ => h.right⟩

theorem Orchestrated.channel (o : Orchestrated s io s') (h : s.Channel seen handled) :
    s'.Channel seen handled :=
  ⟨o.channels.lastSeenSeq.trans h.left, o.channels.handled.trans h.right⟩

theorem WellFormed.tick_channel (w : s.WellFormed) (ht : Firmware.tick i s = .ok s') :
    s'.Channel (s.pollCommand i.io i.command).lastSeenSeq
      (s.pollCommand i.io i.command).history.handled :=
  carried_channel.tick w ⟨rfl, rfl⟩ ht fun _ o => o.channel

theorem pollCommand_handled (s : State) (io : FileOutcomes) (shm : Option CommandShm) :
    (s.pollCommand io shm).history.handled = s.history.handled ∨
    ∃ q c, s.Hears shm c ∧
      ((s.pollCommand io shm).history.handled = (q, c, .rejected) :: s.history.handled ∨
        (∃ s', Accepts (s.see q) io c s') ∧
          (s.pollCommand io shm).history.handled = (q, c, .accepted) :: s.history.handled) := by
  cases pollCommand_cases s io shm
  case inl h =>
    cases h.left
    case inl h =>
      rw [h]
      exact .inl rfl
    case inr h =>
      have ⟨_, _, h⟩ := h
      rw [h]
      exact .inl rfl
  case inr h =>
    have ⟨cmd, _, hh, h⟩ := h
    rw [h]
    refine .inr ⟨cmd.seq, _, hh, ?_⟩
    cases handleCommand_cases (s.see cmd.seq) io cmd
    case inl h =>
      rw [h]
      exact .inl rfl
    case inr h =>
      have ⟨s', a, h⟩ := h
      rw [h, note_handled, a.channel.right]
      exact .inr ⟨⟨s', a⟩, rfl⟩

-- The poll takes the frame that the slot holds, and handles it.
def Takes (frame : CommandIpc) (s : State) : Prop :=
  s.lastSeenSeq < frame.seq ∧ frame.validate = true

instance : Decidable (Takes frame s) :=
  inferInstanceAs (Decidable (_ ∧ _))

theorem pollCommand_of_takes (io : FileOutcomes) (h : s.Takes frame) :
    s.pollCommand io (some ⟨frame.seq, frame⟩) = (s.see frame.seq).handleCommand io frame := by
  simp [pollCommand, UInt32.not_le.mpr h.left, h.right]

theorem dispatchCommand_outcome (s : State) (io : FileOutcomes) (frame : CommandIpc) :
    (s.dispatchCommand io frame).1.outcome =
      if s.Permits frame then .accepted else .rejected := by
  have ha := dispatchCommand_accepted s io frame
  cases dispatchCommand_cases s io frame
  case inl h =>
    rw [h] at ha ⊢
    exact (if_neg (ha.not.mp nofun)).symm
  case inr h =>
    have ⟨_, h, _⟩ := h
    rw [h] at ha ⊢
    exact (if_pos (ha.mp rfl)).symm

theorem dispatchCommand_channel (s : State) (io : FileOutcomes) (frame : CommandIpc) :
    (s.dispatchCommand io frame).2.Channel s.lastSeenSeq s.history.handled := by
  cases dispatchCommand_cases s io frame
  case inl h =>
    rw [h]
    exact ⟨rfl, rfl⟩
  case inr h =>
    have ⟨_, h, a⟩ := h
    rw [h]
    exact a.channel

theorem pollCommand_takes (io : FileOutcomes) (h : s.Takes frame) :
    (s.pollCommand io (some ⟨frame.seq, frame⟩)).Channel frame.seq
      ((frame.seq, .ofRaw frame.command, if s.Permits frame then .accepted else .rejected) ::
        s.history.handled) := by
  have ⟨hl, hh⟩ := dispatchCommand_channel (s.see frame.seq) io frame
  have ho := dispatchCommand_outcome (s.see frame.seq) io frame
  have hp : (if (s.see frame.seq).Permits frame then CommandOutcome.accepted else .rejected) =
      if s.Permits frame then .accepted else .rejected :=
    if_congr .rfl rfl rfl
  rw [pollCommand_of_takes io h, handleCommand_eq, ho, hp]
  exact ⟨hl, congrArg (List.cons _) hh⟩

theorem pollCommand_passes (io : FileOutcomes) (h : ¬s.Takes frame) :
    (s.pollCommand io (some ⟨frame.seq, frame⟩)).history.handled = s.history.handled ∧
    (frame.seq ≤ s.lastSeenSeq →
      (s.pollCommand io (some ⟨frame.seq, frame⟩)).lastSeenSeq = s.lastSeenSeq) := by
  simp only [pollCommand]
  split
  case isTrue => exact ⟨rfl, fun _ => rfl⟩
  case isFalse hl =>
    have hv : frame.validate = false :=
      Bool.eq_false_iff.mpr fun hv => h ⟨UInt32.not_le.mp hl, hv⟩
    simp only [bne_self_eq_false, Bool.false_eq_true, ↓reduceIte, hv, Bool.not_false]
    exact ⟨rfl, fun hn => absurd hn hl⟩

theorem WellFormed.accepts_of_tick (w : s.WellFormed) (ht : Firmware.tick i s = .ok s')
    (hs : s'.history = recent ++ s.history) (h : .commandHandled q c .accepted ∈ recent) :
    ∃ s₁, Accepts (s.see q) i.io c s₁ := by
  have hr : (q, c, .accepted) ∈ History.handled recent := List.mem_filterMap.mpr ⟨_, h, rfl⟩
  have hh : History.handled recent ++ s.history.handled =
      (s.pollCommand i.io i.command).history.handled := by
    rw [← (w.tick_channel ht).right, hs, History.handled, History.handled, History.handled,
      List.filterMap_append]
  cases pollCommand_handled s i.io i.command
  case inl hp =>
    rw [hp, List.append_left_eq_self] at hh
    simp [hh] at hr
  case inr hp =>
    have ⟨q', c', _, hp⟩ := hp
    cases hp
    case inl hp =>
      rw [hp, ← List.singleton_append, List.append_left_inj] at hh
      simp [hh] at hr
    case inr hp =>
      have ⟨a, hp⟩ := hp
      rw [hp, ← List.singleton_append, List.append_left_inj] at hh
      simp only [hh, List.mem_singleton, Prod.mk.injEq, and_true] at hr
      rwa [hr.left, hr.right]

end State

theorem Booted.channel (b : Booted s) : s.Channel 0 [] := by
  have ⟨_, b⟩ := b.boots
  cases b <;> exact ⟨rfl, rfl⟩

end Firmware
