import MobilePrinter.Firmware.Theorems.Outward
import MobilePrinter.Supervisor.Theorems.Acknowledgements

namespace Supervisor

open Firmware Transition

-- The action sends a command and marks it with the state that was received last.
def SupervisorNode.Marks (a : Action) (s : SupervisorNode) : Prop :=
  match a with
  | .pause _    => s.CanSend
  | .clearJob _ => s.CanSend
  | .resume _   => (∃ e, s.lastExecState = some e ∧ e ≠ SupervisorNode.execFault) ∧ s.CanSend
  | _           => False

instance : Decidable (SupervisorNode.CanSend s) :=
  decidable_of_iff
    (s.lastState.isSome = true ∧ s.commandPolicy.commandInFlight = false ∧
      s.commandWriter.isConnected = true)
    ⟨fun ⟨h₁, h₂, h₃⟩ => ⟨h₁, h₂, h₃⟩, fun ⟨h₁, h₂, h₃⟩ => ⟨h₁, h₂, h₃⟩⟩

instance SupervisorNode.Marks.decidable : (a : Action) → Decidable (SupervisorNode.Marks a s)
  | .pause _         => inferInstanceAs (Decidable s.CanSend)
  | .clearJob _      => inferInstanceAs (Decidable s.CanSend)
  | .resume _        => inferInstanceAs
    (Decidable ((∃ e ∈ s.lastExecState, e ≠ SupervisorNode.execFault) ∧ s.CanSend))
  | .abort _         => .isFalse id
  | .startJob        => .isFalse id
  | .motionState _ _ => .isFalse id
  | .timer _         => .isFalse id

namespace Link

variable {s s' : Link} {f : Flight} {firmware : State}

def observed (s : Link) : MachineStateMsg :=
  .ofIpc s.firmware.published

-- The verdict that the policy would give now on the command in flight.
def verdict (s : Link) : Verdict :=
  (s.node.commandPolicy.evaluate s.observed).1

-- The verdict is the outcome that the firmware has recorded, and there is none before.
def VerdictAgrees (s : Link) : Prop :=
  ∀ f ∈ s.flight,
    (s.verdict = .accepted → f.outcome = some .accepted) ∧
    (s.verdict = .rejected → f.outcome = some .rejected) ∧
    (s.verdict = .faulted → f.outcome = some .faulted) ∧
    (f.outcome = none → s.verdict = .unresolved)

-- The command in flight is the one in the slot, and the firmware will take and accept it.
def Granted (f : Flight) (s : Link) : Prop :=
  f.outcome = none ∧ s.slot.seq = f.seq ∧ s.firmware.Takes s.slot ∧ s.firmware.Permits s.slot

-- A command is only marked with the state that is published. As long as it is in flight and has not
-- been accepted, a tick accepts it or takes no command and is quiet, and the firmware is not
-- restarted after its first tick.
def Undisturbed : Input → Link → Prop
  | .act a, s             => s.node.Marks a → s.node.lastState = some s.observed
  | .tick i, s            => ∀ f ∈ s.flight, f.outcome = some .accepted ∨ s.Granted f ∨
    (¬s.firmware.Takes s.slot ∧ s.firmware.Quiet (s.reading i))
  | .restartFirmware _, s => ∀ f ∈ s.flight, f.outcome = some .accepted ∨
    s.firmware.firstRead = true
  | _, _                  => True

instance : Decidable (Granted f s) :=
  inferInstanceAs (Decidable (_ ∧ _))

instance Undisturbed.decidable : (i : Input) → Decidable (Undisturbed i s)
  | .act _               => inferInstanceAs (Decidable (_ → _))
  | .tick _              => inferInstanceAs (Decidable (∀ f ∈ s.flight, _))
  | .restartFirmware _   => inferInstanceAs (Decidable (∀ f ∈ s.flight, _))
  | .bridge _ _          => .isTrue trivial
  | .restartSupervisor _ => .isTrue trivial

-- What is in flight has been marked.
def Marked (s : Link) : Prop :=
  s.flight.isSome = true → ∃ cmd pre, s.node.commandPolicy = ⟨some cmd, some pre⟩

theorem agrees_iff (hf : s.flight = some f) (hp : s.node.commandPolicy = ⟨some cmd, some pre⟩) :
    s.VerdictAgrees ↔ f.outcome = some .accepted ∨ s.observed = pre := by
  by_cases h : s.observed = pre
  all_goals simp [VerdictAgrees, verdict, CommandPolicy.evaluate, hf, hp, h]
  exact fun h => by simp [h]

theorem agrees_of_none (h : s.flight = none) : s.VerdictAgrees := by
  simp [VerdictAgrees, h]

theorem observe_commandPolicy (m : MachineStateMsg) (n : SupervisorNode) :
    (n.observe m).commandPolicy = n.commandPolicy ∨ (n.observe m).commandPolicy = {} := by
  have he : (n.commandPolicy.evaluate m).2 = n.commandPolicy ∨
      (n.commandPolicy.evaluate m).2 = {} := by
    simp only [CommandPolicy.evaluate]
    split
    · split
      · exact .inr rfl
      · exact .inl rfl
    · exact .inl rfl
  simp only [SupervisorNode.observe]
  cases n.lastState.isSome
  case false => split <;> exact .inl rfl
  case true  => split <;> exact he

theorem seen_commandPolicy (a : Action) (shm : MachineStateIpc) (n : SupervisorNode) :
    (n.seen a shm).commandPolicy = n.commandPolicy ∨ (n.seen a shm).commandPolicy = {} := by
  cases a
  case timer => exact observe_commandPolicy _ n
  all_goals exact .inl rfl

theorem act_node : (s.act a).node = (s.node.perform a s.firmware.published).2 := by
  simp only [act]
  split <;> rfl

theorem act_firmware : (s.act a).firmware = s.firmware := by
  simp only [act]
  split <;> rfl

theorem act_flight : (s.act a).flight =
    takeOff a (s.node.perform a s.firmware.published).1
      { s with node := (s.node.perform a s.firmware.published).2 } := by
  simp only [act]
  split <;> rfl

theorem takeOff_quiet {a : Action} (h : frame = none ∨ a.marks = false) :
    s.takeOff a frame = if s.node.commandPolicy.commandInFlight then s.flight else none := by
  cases h
  case inl h => cases hp : s.node.commandPolicy.commandInFlight <;> simp [takeOff, hp, h]
  case inr h => cases hp : s.node.commandPolicy.commandInFlight <;> simp [takeOff, hp, h]

-- What an action does to the command in flight: it leaves the policy alone or clears it, or it
-- marks a new command with the state that was seen last.
theorem act_flight_cases (a : Action) (s : Link) :
    ((s.act a).flight = none ∨
      (s.act a).flight = s.flight ∧ (s.act a).node.commandPolicy = s.node.commandPolicy) ∧
      (a.marks = true → (s.node.perform a s.firmware.published).1 = none) ∨
    ∃ frame cmd msg, a.marks = true ∧ (s.node.perform a s.firmware.published).1 = some frame ∧
      (s.node.seen a s.firmware.published).lastState = some msg ∧
      (s.act a).flight = some { seq := frame.seq } ∧
      (s.act a).node.commandPolicy = ⟨some cmd, some msg⟩ := by
  have h := SupervisorNode.perform_performs a s.firmware.published s.node
  rw [act_flight, act_node]
  generalize s.node.perform a s.firmware.published = r at h
  have ⟨frame, node⟩ := r
  have hq (hp : node.commandPolicy = (s.node.seen a s.firmware.published).commandPolicy)
      (hf : frame = none ∨ a.marks = false) :
      takeOff a frame { s with node } = none ∨
        takeOff a frame { s with node } = s.flight ∧
          node.commandPolicy = s.node.commandPolicy := by
    rw [takeOff_quiet hf]
    cases seen_commandPolicy a s.firmware.published s.node
    case inl h =>
      split
      · exact .inr ⟨rfl, hp.trans h⟩
      · exact .inl rfl
    case inr h => exact .inl (by simp [hp, h, CommandPolicy.commandInFlight])
  cases h
  case quiet hp _ _            => exact .inl ⟨hq hp (.inl rfl), fun _ => rfl⟩
  case unmarked hm hp _ _      => exact .inl ⟨hq hp (.inr hm), fun h => by simp [hm] at h⟩
  case marked hm hl hp _ _     =>
    have hp : node.commandPolicy = ⟨some _, some _⟩ := hp
    refine .inr ⟨_, _, _, hm, rfl, hl, ?_, hp⟩
    simp [takeOff, hm, hp, CommandPolicy.commandInFlight]

theorem Marked.act (m : Marked s) : Marked (s.act a) := by
  intro hf
  cases act_flight_cases a s
  case inl h =>
    cases h.left
    case inl h => simp [h] at hf
    case inr h => exact h.right ▸ m (h.left ▸ hf)
  case inr h =>
    have ⟨_, cmd, msg, _, _, _, _, h⟩ := h
    exact ⟨cmd, msg, h⟩

theorem perform_resume {n : SupervisorNode} : (n.perform (.resume now) shm).1 ≠ none ↔
    (∃ e, n.lastExecState = some e ∧ e ≠ SupervisorNode.execFault) ∧
      (n.attempt .resume now).2.1 ≠ none := by
  simp only [SupervisorNode.perform, SupervisorNode.resumeSrv]
  cases n.lastExecState
  case none => simp
  case some e =>
    by_cases he : e = SupervisorNode.execFault
    case pos => simp [he]
    case neg => simp [he, SupervisorNode.sendCommand]

theorem perform_marks (shm : MachineStateIpc) {n : SupervisorNode} (h : n.Marks a) :
    a.marks = true ∧ (n.perform a shm).1 ≠ none ∧ n.seen a shm = n := by
  have hw (cmd : CommandType) (now : UInt64) (hn : cmd ≠ .none) (hc : n.CanSend) :
      (n.attempt cmd now).2.1 ≠ none :=
    (SupervisorNode.attempt_of_canSend hc hn now).right.ne_none
  cases a
  case pause now    => exact ⟨rfl, hw .pause now nofun h, rfl⟩
  case clearJob now => exact ⟨rfl, hw .clearJob now nofun h, rfl⟩
  case resume now   => exact ⟨rfl, perform_resume.mpr ⟨h.left, hw .resume now nofun h.right⟩, rfl⟩
  all_goals exact h.elim

theorem marks_of_perform {n : SupervisorNode} (ha : a.marks = true)
    (h : (n.perform a shm).1 ≠ none) : (∃ now, a = .timer now) ∨ n.Marks a := by
  have hc {cmd : CommandType} {now : UInt64} (h : (n.attempt cmd now).2.1 ≠ none) : n.CanSend := by
    by_contra hn
    exact h (SupervisorNode.attempt_of_not_canSend hn cmd now).right
  cases a
  case pause       => exact .inr (hc h)
  case clearJob    => exact .inr (hc h)
  case resume      => exact .inr ((perform_resume.mp h).imp_right hc)
  case timer now   => exact .inl ⟨now, rfl⟩
  case startJob    => exact absurd rfl h
  case abort       => cases ha
  case motionState => cases ha

-- An action keeps the verdict right exactly if what it marks is marked with the current state. The
-- timer marks with the state that it has just read.
theorem act_agrees_iff (h : s.VerdictAgrees) :
    (s.act a).VerdictAgrees ↔ Undisturbed (.act a) s := by
  have ho : (s.act a).observed = s.observed := by rw [observed, act_firmware, observed]
  cases act_flight_cases a s
  case inl hf =>
    have hu : Undisturbed (.act a) s := fun hm => by
      have ⟨hm, hs, _⟩ := perform_marks s.firmware.published hm
      exact absurd (hf.right hm) hs
    refine iff_of_true ?_ hu
    cases hf.left
    case inl hf => exact agrees_of_none hf
    case inr hf =>
      rw [VerdictAgrees, verdict, hf.left, hf.right, ho]
      exact h
  case inr hf =>
    have ⟨frame, cmd, msg, hm, hs, hl, hf, hp⟩ := hf
    rw [agrees_iff hf hp, ho]
    cases marks_of_perform hm (by rw [hs]; nofun)
    case inl ht =>
      obtain ⟨now, rfl⟩ := ht
      have hl := SupervisorNode.observe_lastState.symm.trans hl
      exact iff_of_true (.inr (Option.some.inj hl)) nofun
    case inr hm =>
      have ⟨_, _, hn⟩ := perform_marks s.firmware.published hm
      rw [hn] at hl
      simp [Undisturbed, hm, hl, eq_comm]

theorem land_accepted (h : f.outcome = some .accepted) :
    (f.land handled).outcome = some .accepted := by
  simp [Flight.land, h]

theorem agrees_of_firmware (s' : Link) (m : Marked s) (h : s.VerdictAgrees) (hn : s'.node = s.node)
    (hf : s'.flight = s.flight.map (Flight.land handled)) :
    s'.VerdictAgrees ↔ ∀ f ∈ s.flight, f.outcome = some .accepted ∨
      (f.land handled).outcome = some .accepted ∨ s'.observed = s.observed := by
  cases hs : s.flight
  case none =>
    rw [hs] at hf
    exact iff_of_true (agrees_of_none hf) nofun
  case some f =>
    have ⟨cmd, pre, hp⟩ := m (by rw [hs]; rfl)
    rw [hs] at hf
    have h := (agrees_iff hs hp).mp h
    rw [agrees_iff hf (hn ▸ hp)]
    simp only [Option.mem_some_iff, forall_eq']
    cases h
    case inl h => exact iff_of_true (.inl (land_accepted h)) (.inl h)
    case inr h =>
      rw [h]
      exact ⟨.inr, fun h => h.elim (fun h => .inl (land_accepted h)) id⟩

theorem ofIpc_eq_iff {shm shm' : MachineStateIpc} :
    MachineStateMsg.ofIpc shm = .ofIpc shm' ↔ shm.unnumbered = shm'.unnumbered := by
  simp [MachineStateMsg.ofIpc, MachineStateIpc.unnumbered]

theorem hears_reading : (∀ c, ¬s.firmware.Hears (s.reading i).command c) ↔
    ¬s.firmware.Takes s.slot := by
  simp [State.Hears, State.Takes, reading]

theorem land_none : Flight.land none f = f := by
  cases h : f.outcome <;> simp [Flight.land, h]

theorem land_granted (w : s.firmware.WellFormed)
    (h : Firmware.tick (s.reading i) s.firmware = .ok firmware) :
    (f.land (handledBetween s.firmware firmware)).outcome = some .accepted ↔
      f.outcome = some .accepted ∨ s.Granted f := by
  have ⟨_, hh⟩ := w.tick_channel h
  by_cases ht : s.firmware.Takes s.slot
  case pos =>
    have hn : handledBetween s.firmware firmware = some (s.slot.seq, .ofRaw s.slot.command,
        if s.firmware.Permits s.slot then .accepted else .rejected) := by
      have hp := (State.pollCommand_takes i.io ht).right
      simp [handledBetween, hh.trans hp]
    rw [hn]
    cases hf : f.outcome
    case none   => simp [Flight.land, Granted, hf, ht]; grind
    case some o => simp [Flight.land, Granted, hf]
  case neg =>
    have hn : handledBetween s.firmware firmware = none := by
      have hp := (State.pollCommand_passes i.io ht).left
      simp [handledBetween, hh.trans hp]
    simp [hn, land_none, Granted, ht]

theorem tick_agrees_iff (r : Reachable s.firmware) (m : Marked s) (h : s.VerdictAgrees)
    (ht : Firmware.tick (s.reading i) s.firmware = .ok firmware) :
    (s.land firmware).VerdictAgrees ↔ Undisturbed (.tick i) s := by
  rw [agrees_of_firmware (s.land firmware) m h rfl rfl, Undisturbed]
  refine forall₂_congr fun f _ => ?_
  rw [land_granted r.wellFormed ht]
  have ho : (s.land firmware).observed = s.observed ↔
      ¬s.firmware.Takes s.slot ∧ s.firmware.Quiet (s.reading i) := by
    rw [← hears_reading, ← r.tick_outward_iff ht]
    exact ofIpc_eq_iff
  rw [ho]
  grind

theorem observed_fresh (r : Reachable s.firmware) :
    MachineStateMsg.ofIpc {} = s.observed ↔ s.firmware.firstRead = true := by
  cases r.published
  case inl hp => exact iff_of_true (by rw [observed, hp.right]) hp.left
  case inr hp =>
    refine iff_of_false (fun h => ?_) (by simp [hp.left])
    have h := (ofIpc_eq_iff.mp h).trans hp.right
    exact r.coherent.booted (congrArg MachineStateIpc.systemState h).symm

theorem restart_agrees_iff (r : Reachable s.firmware) (m : Marked s) (h : s.VerdictAgrees)
    (hb : Booted s'.firmware) (hn : s'.node = s.node) (hf : s'.flight = s.flight) :
    s'.VerdictAgrees ↔ Undisturbed (.restartFirmware io) s := by
  have hl : s'.flight = s.flight.map (Flight.land none) := by
    rw [hf]
    cases s.flight
    case none   => rfl
    case some f => rw [Option.map_some, land_none]
  rw [agrees_of_firmware s' m h hn hl, Undisturbed]
  refine forall₂_congr fun f _ => ?_
  rw [land_none, observed, hb.silent.left, observed_fresh r]
  grind

theorem step_agrees_iff (r : Reachable s.firmware) (m : Marked s) (h : s.VerdictAgrees)
    (hs : step i s = .ok s') :
    Reachable s'.firmware ∧ Marked s' ∧ (s'.VerdictAgrees ↔ Undisturbed i s) := by
  cases i
  case act =>
    cases hs
    exact ⟨act_firmware.symm ▸ r, m.act, act_agrees_iff h⟩
  case bridge connected command =>
    cases hs
    cases connected <;> exact ⟨r, m, iff_of_true h trivial⟩
  case restartSupervisor =>
    cases hs
    exact ⟨r, nofun, iff_of_true (agrees_of_none rfl) trivial⟩
  case tick i =>
    have ⟨firmware, hf, hs⟩ := tick_ok hs
    rw [hs]
    exact ⟨r.tick hf, fun hf => m (by simpa [land] using hf), tick_agrees_iff r m h hf⟩
  case restartFirmware io =>
    have ⟨firmware, hb, hs⟩ := restartFirmware_ok hs
    rw [hs]
    have b : Booted firmware := ⟨_, _, hb⟩
    exact ⟨⟨b, .refl⟩, m, restart_agrees_iff r m h b rfl rfl⟩

end Link

open Link

-- In all states of a run the verdict of the supervisor is the outcome that the firmware has
-- recorded exactly if every step of the run is undisturbed.
theorem verdict_agrees_iff_undisturbed (connected : Bool) (hb : Booted f) (is : List Input) :
    Always step VerdictAgrees (fresh connected f) is ↔
      Along step Undisturbed (fresh connected f) is := by
  refine always_iff_along
    (I := fun s => Reachable s.firmware ∧ s.Marked ∧ s.VerdictAgrees) (·.right.right) ?step ?back
    ⟨⟨hb, .refl⟩, nofun, agrees_of_none rfl⟩
  case step =>
    intro i s s' h hu hs
    have ⟨r, m, hi⟩ := step_agrees_iff h.left h.right.left h.right.right hs
    exact ⟨r, m, hi.mpr hu⟩
  case back =>
    intro i s s' h hv hs
    exact (step_agrees_iff h.left h.right.left h.right.right hs).right.right.mp hv

-- A START that is accepted by the next tick.
theorem verdict_agrees_iff_undisturbed_start :
    ∃ f is s, Booted f ∧ Run step (fresh true f) is s ∧ s.verdict = .accepted ∧
      s.flight = some { seq := 1, outcome := some .accepted } ∧
      Always step VerdictAgrees (fresh true f) is := by
  have ⟨f, hb, h, hu⟩ : ∃ f, boot {} none = .ok f ∧
      Reaches step (fun s => s.verdict = .accepted ∧
          s.flight = some { seq := 1, outcome := some .accepted }) (fresh true f)
        [.tick {}, .tick (.submit 1 1), .act .startJob, .act (.timer 1), .tick {}] ∧
      Along step Undisturbed (fresh true f)
        [.tick {}, .tick (.submit 1 1), .act .startJob, .act (.timer 1), .tick {}] :=
    ⟨_, rfl, by decide +kernel, by decide +kernel⟩
  have ⟨s, e, hv, hf⟩ := h.run
  have b : Booted f := ⟨_, _, hb⟩
  exact ⟨f, _, s, b, e, hv, hf, (verdict_agrees_iff_undisturbed true b _).mpr hu⟩

-- A PAUSE that the firmware has rejected, and that the supervisor takes for accepted.
theorem verdict_agrees_fails :
    ¬∀ f connected is s, Booted f → Run step (fresh connected f) is s → s.VerdictAgrees := by
  intro hc
  have ⟨f, hb, h⟩ : ∃ f, boot {} none = .ok f ∧
      Reaches step (fun s => s.verdict = .accepted ∧
          s.flight = some { seq := 1, outcome := some .rejected }) (fresh true f)
        [.tick {}, .act (.timer 1), .act (.pause 2), .tick {}] :=
    ⟨_, rfl, by decide +kernel⟩
  have ⟨s, e, hv, hf⟩ := h.run
  have ha := (hc f true _ s ⟨_, _, hb⟩ e _ hf).left hv
  cases ha

end Supervisor
