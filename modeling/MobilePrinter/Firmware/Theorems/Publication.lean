import MobilePrinter.Firmware.Theorems.Counters
import MobilePrinter.Firmware.Theorems.Orchestration

namespace Firmware

open Numbering

-- The message that a command is published as.
def MotionCommand.target (seq : UInt32) (cmd : MotionCommand) : MotionTarget where
  sequenceId := seq
  x          := cmd.x
  y          := cmd.y
  z          := cmd.z
  feedrate   := cmd.feedrate
  extrusion  := cmd.extrusion

def History.targets : History → List MotionTarget
  | []                                 => []
  | .motionSubmitted cmd .accepted :: h =>
    cmd.target (.ofNat ((History.targets h).length + 1)) :: History.targets h
  | _ :: h                             => History.targets h

theorem History.targets_cons {h : History} (hn : ∀ cmd, e ≠ .motionSubmitted cmd .accepted) :
    History.targets (e :: h) = h.targets := by
  cases e
  case motionSubmitted cmd res =>
    cases res
    case accepted => exact absurd rfl (hn cmd)
    all_goals rfl
  all_goals rfl

theorem History.targets_numbered (h : History) :
    h.targets.map (·.sequenceId) = (between .ofNat 0 h.targets.length).reverse := by
  induction h using History.targets.induct
  case case1 => rfl
  case case2 cmd h ih =>
    rw [targets, List.map_cons, ih, List.length_cons, ← between_push (Nat.zero_le _),
      List.reverse_append]
    rfl
  case case3 e h hn ih =>
    rwa [targets_cons hn]

namespace Feed

variable {M : Type} [MotionController M] {job : Job} {heap : Heap Segment} {f f' : Feed M}
  {r : ExecutionResult}

-- A property of the controller and of what it has been given, which the calls of the executor keep.
structure Records (J : List (MotionCommand × MotionResult) → M → Prop) : Prop where
  submit  : ∀ {l m c}, J l m → J ((c, (MotionController.submit c m).1) :: l)
    (MotionController.submit c m).2
  poll    : ∀ {l m b}, J l m → J l (MotionController.poll b m).2.2
  isReady : ∀ {l m}, J l m → J l (MotionController.isReady m).2

namespace Records

variable {J : List (MotionCommand × MotionResult) → M → Prop}

theorem settleMotion (k : Records J) (h : J f.submitted f.motion) :
    J f.settleMotion.2.submitted f.settleMotion.2.motion := by
  simp only [Feed.settleMotion]
  split
  · exact k.isReady h
  · split <;> exact k.poll (k.isReady h)

theorem feedSegment (k : Records J) (h : J f.submitted f.motion)
    (he : f.feedSegment job heap = .ok (r, f')) : J f'.submitted f'.motion := by
  simp only [Feed.feedSegment] at he
  split at he
  case isTrue =>
    cases he
    exact k.isReady h
  case isFalse =>
    split at he
    case h_1 => cases he
    case h_2 => split at he <;> cases he <;> exact k.submit (k.isReady h)

theorem advance (k : Records J) (h : J f.submitted f.motion)
    (he : f.advance job heap = .ok (r, f')) : J f'.submitted f'.motion := by
  simp only [Feed.advance] at he
  split at he
  case isTrue =>
    cases he
    exact k.isReady h
  case isFalse =>
    have hn := settleExtruder_held (f := f)
    have hs : J f.settleExtruder.2.submitted f.settleExtruder.2.motion := by
      rwa [settleExtruder_motion, hn.left.submitted]
    have hm := k.settleMotion hs
    simp only [hn.right] at he
    split at he
    · cases he; exact hm
    · exact k.feedSegment hm he

theorem executionStep (k : Records J) (h : J f.submitted f.motion)
    (he : executionStep job heap f = .ok (r, f')) : J f'.submitted f'.motion := by
  by_cases hr : f.Runs
  case neg =>
    cases (executionStep_of_not_runs hr).symm.trans he
    exact h
  case pos =>
    by_cases hb : f.Behind
    case pos => cases (executionStep_behind hr hb).symm.trans he
    case neg =>
      have ha := (executionStep_eq_advance hr hb).symm.trans he
      exact k.advance (by exact h) ha

end Records
end Feed

namespace RosMotion

variable {m : RosMotion} {capacity : UInt32} {n d k : Nat} {h : History}

-- What the spin thread keeps, and the writes of the firmware thread to what `poll` alone reads.
structure Invariant (I : RosMotion → Prop) : Prop where
  spin     : ∀ {m}, I m → I m.spin
  reported : ∀ {m seq}, I m → I { m with controller := { m.controller with lastReported := seq } }
  active   : ∀ {m b}, I m → I { m with controller := { m.controller with abortActive := b } }
  aborted  : ∀ {m}, I m →
    I { m with controller := { m.controller with abortPub := m.controller.abortPub + 1 } }

namespace Invariant

variable {I : RosMotion → Prop}

theorem inflight (c : Invariant I) (h : I m) : I m.inflight.2 :=
  inflight_keeps c.spin h

theorem abortFallback (c : Invariant I) (h : I m) : I m.abortFallback.2 := by
  simp only [RosMotion.abortFallback]
  split
  · exact c.spin h
  split
  · exact c.spin (c.spin (c.spin h))
  · exact c.spin (c.spin (c.spin (c.spin (c.spin (c.spin h)))))

theorem checkWatchdog (c : Invariant I) (h : I m) : I m.checkWatchdog.2 := by
  simp only [RosMotion.checkWatchdog]
  split
  · exact c.spin h
  split
  · exact c.spin (c.spin (c.spin (c.spin h)))
  · exact c.inflight (c.spin (c.spin (c.spin (c.spin h))))

theorem clearDrainedAbort (c : Invariant I) (h : I m) : I m.clearDrainedAbort := by
  simp only [RosMotion.clearDrainedAbort]
  split
  · exact c.spin h
  split
  · exact c.inflight (c.spin h)
  · exact c.active (c.spin (c.inflight (c.spin h)))

theorem poll (c : Invariant I) (h : I m) : I (m.poll b).2.2 := by
  have hw : I m.inflight.2.abortFallback.2.checkWatchdog.2 :=
    c.checkWatchdog (c.abortFallback (c.inflight h))
  simp only [RosMotion.poll]
  split
  · exact hw
  split
  · exact c.reported (c.spin hw)
  · exact c.clearDrainedAbort (c.spin hw)

theorem setAbortActive (c : Invariant I) (h : I m) : I (m.setAbortActive b) :=
  c.active (c.spin h)

theorem abort (c : Invariant I) (h : I m) : I m.abort :=
  c.aborted (c.setAbortActive h)

theorem isReady (c : Invariant I) (h : I m) : I m.isReady.2 :=
  isReady_keeps c.spin h

end Invariant

-- The accepted commands of the history have been published and counted. The spin thread, which
-- started out from `d` completions, runs through those up to `k`.
structure Publishes (capacity : UInt32) (d k : Nat) (h : History) (m : RosMotion) : Prop where
  published : m.controller.targetPub = h.targets
  due       : k ≤ h.targets.length
  tracks    : ∃ d', d ≤ d' ∧ h.targets.length ≤ d' + max 5 capacity.toNat ∧
    m.Tracks capacity h.targets.length d' k

open RosSimMotionController in
theorem invariant_publishes : Invariant (Publishes capacity d k h) where
  spin p := by
    have ⟨d₁, h₁, hw, t⟩ := p.tracks
    have ⟨d₂, h₂, t⟩ := t.spin
    exact {
      published := (spin_controller deliver_targetPub).trans p.published
      due       := p.due
      tracks    := ⟨d₂, Nat.le_trans h₁ h₂, by omega, t⟩ }
  reported p := by
    obtain ⟨d', hd, hw, t⟩ := p.tracks
    exact { p with tracks := ⟨d', hd, hw, { t with }⟩ }
  active p   := by
    obtain ⟨d', hd, hw, t⟩ := p.tracks
    exact { p with tracks := ⟨d', hd, hw, { t with }⟩ }
  aborted p  := by
    obtain ⟨d', hd, hw, t⟩ := p.tracks
    exact { p with tracks := ⟨d', hd, hw, { t with }⟩ }

namespace Publishes

open RosSimMotionController

theorem event (p : Publishes capacity d k h m)
    (hn : ∀ cmd res, e ≠ .motionSubmitted cmd res := by rintro _ _ ⟨⟩) :
    Publishes capacity d k (e :: h) m := by
  have ht := History.targets_cons (h := h) fun cmd => hn cmd .accepted
  exact ⟨ht ▸ p.published, ht ▸ p.due, ht ▸ p.tracks⟩

theorem submit (p : Publishes capacity d k h m) :
    Publishes capacity d k (.motionSubmitted cmd (m.submit cmd).1 :: h) (m.submit cmd).2 := by
  obtain ⟨d', hd, hw, t⟩ := p.tracks
  cases hr : m.isReady.1
  case false =>
    rw [submit_of_busy hr]
    exact { invariant_publishes.isReady p with }
  case true =>
    have ⟨d₁, h₁, hw, t⟩ := t.window p.due hw hr
    have ⟨d₂, h₂, t⟩ := t.spin
    have hs : m.isReady.2.spin.nextSeq = .ofNat (h.targets.length + 1) := by
      rw [nextSeq, t.submitted, UInt32.ofNat_add]
      rfl
    have hp : m.isReady.2.spin.controller.targetPub = h.targets :=
      (invariant_publishes.spin (invariant_publishes.isReady p)).published
    rw [submit_of_ready hr]
    exact {
      published := by
        change _ :: m.isReady.2.spin.controller.targetPub = _
        rw [hp, hs]
        rfl
      due       := Nat.le_succ_of_le p.due
      tracks    := ⟨d₂, by omega, by simp only [History.targets, List.length_cons]; omega,
        { t with submitted := hs }⟩ }

end Publishes
end RosMotion

namespace State

variable {s s' m m' : State} {i : TickInput} {r : ExecutionResult} {capacity : UInt32} {d k : Nat}

-- The motion controller has published what it has accepted, as the history says.
def Publishes (capacity : UInt32) (d k : Nat) (s : State) : Prop :=
  s.motion.Publishes capacity d k s.history

def Scheduled (capacity : UInt32) (d k : Nat) (i : TickInput) (s : State) : Prop :=
  RosMotion.Publishes capacity d k s.history { s.motion with schedule := i.spin }

namespace Scheduled

theorem pollCommand (h : s.Scheduled capacity d k i) :
    (s.pollCommand io shm).Scheduled capacity d k i := by
  have p : Polled s io (s.pollCommand io shm) := pollCommand_polled shm
  generalize s.pollCommand io shm = s' at p
  cases p
  case none       => exact h
  case invalid    => exact h
  case rejected   => exact RosMotion.Publishes.event h
  case accepted a => cases a <;> exact RosMotion.Publishes.event h

theorem pollJobIngress (h : s.Scheduled capacity d k i) :
    (s.pollJobIngress ipc).Scheduled capacity d k i := by
  have p := pollJobIngress_ingested (s := s) ipc
  generalize s.pollJobIngress ipc = s' at p
  cases p
  case accepted => exact RosMotion.Publishes.event h
  all_goals exact h

theorem activateJobExecution (h : s.Scheduled capacity d k i) :
    s.activateJobExecution.Scheduled capacity d k i := by
  by_cases a : s.Armable
  case pos => rw [activateJobExecution_of_armable a]; exact h
  case neg => rw [activateJobExecution_of_not_armable a]; exact h

theorem prepare (h : s.Scheduled capacity d k i) : (s.prepare i).Publishes capacity d k :=
  h.pollCommand.pollJobIngress.activateJobExecution

end Scheduled

namespace Publishes

theorem checkSafety (h : s.Publishes capacity d k) :
    (s.checkSafety safety).Publishes capacity d k := by
  simp only [State.checkSafety]
  split
  case isTrue  => exact RosMotion.Publishes.event h
  case isFalse => exact h

theorem armExecution (h : s.Publishes capacity d k) : s.armExecution.Publishes capacity d k := by
  by_cases a : s.Runnable
  case pos => rw [armExecution_of_runnable a]; exact h
  case neg => rw [armExecution_of_not_runnable a]; exact h

theorem records {h : History} : Feed.Records fun l (m : RosMotion) =>
    m.Publishes capacity d k (l.map (fun c => .motionSubmitted c.1 c.2) ++ h) where
  submit p  := p.submit
  poll p    := RosMotion.invariant_publishes.poll p
  isReady p := RosMotion.invariant_publishes.isReady p

theorem executeStep (h : s.Publishes capacity d k) (he : s.executeStep safety = .ok (r, s')) :
    s'.Publishes capacity d k := by
  simp only [State.executeStep] at he
  split at he
  case isTrue =>
    obtain ⟨o, ho, he⟩ := Transition.map_eq_ok.mp he
    cases he
    exact records.executionStep (f := s.feed) h ho
  case isFalse => cases he; exact h

theorem pollMotion (h : s.Publishes capacity d k) : s.pollMotion.Publishes capacity d k :=
  RosMotion.invariant_publishes.poll h

theorem sampleMotionIdle (h : s.Publishes capacity d k) :
    s.sampleMotionIdle.Publishes capacity d k :=
  RosMotion.invariant_publishes.isReady h

theorem orchestrated (h : m.Publishes capacity d k) (o : Orchestrated m io m') :
    m'.Publishes capacity d k := by
  have ha {b} (a : Aborting m io b) : b.Publishes capacity d k := by
    cases a
    case begun =>
      exact RosMotion.Publishes.event
        (RosMotion.invariant_publishes.setAbortActive (RosMotion.invariant_publishes.abort h))
    case stale => exact h
  have hp {b} (a : Pausing m io b) : b.Publishes capacity d k := by
    cases a
    case captured => exact RosMotion.Publishes.event h
    case kept     => exact h
  cases o
  case draining a _ => exact ha a
  case aborted a _  =>
    exact RosMotion.Publishes.event (RosMotion.invariant_publishes.setAbortActive (ha a))
  case paused a _ _ => exact hp a
  case released a   =>
    have h := hp a
    exact h
  case lost         => exact RosMotion.Publishes.event h
  case restored     => exact RosMotion.Publishes.event h
  case completed    => exact RosMotion.Publishes.event h
  all_goals exact h

theorem tick (w : s.WellFormed) (h : s.Scheduled capacity d k i) (ht : Firmware.tick i s = .ok s') :
    s'.Publishes capacity d k := by
  have ⟨m, ⟨r, he⟩, _, m', pending, o, hs⟩ := w.orchestrates ht
  obtain ⟨e, hx, hm⟩ := Transition.map_eq_ok.mp he
  have ha : (s.arm i).Publishes capacity d k := h.prepare.checkSafety.armExecution
  have hm : m.Publishes capacity d k := by
    cases hm
    exact (ha.executeStep hx).pollMotion.sampleMotionIdle
  rw [hs]
  exact (hm.orchestrated o).sampleMotionIdle

end Publishes
end State
end Firmware
