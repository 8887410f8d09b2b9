import MobilePrinter.Firmware.Theorems.Executions

open Transition

namespace Firmware
namespace State

variable {s s' m m' : State} {i : TickInput} {io : FileOutcomes} {r : ExecutionResult}

theorem Tracked.of_eq (t : s.Tracked) (he : executions s'.history = executions s.history)
    (hj : acceptedSegments s'.history = acceptedSegments s.history)
    (hc : s'.exec.cursor = s.exec.cursor)
    (ha : s'.machine.system.active = s.machine.system.active)
    (hp : s'.machine.jobPresent = s.machine.jobPresent) : s'.Tracked := by
  have hs : s'.Executing ↔ s.Executing := by simp only [Executing, ha, hp]
  refine ⟨fun h => ?_, fun h => ?_⟩
  · rw [he, hj, hc]
    exact t.live (hs.mp h)
  · rw [he]
    exact t.rest (mt hs.mpr h)

theorem Tracked.of_finish (t : s.Tracked)
    (he : executions s'.history = (executions s.history).modifyHead (·.finish e))
    (hs : s'.machine.system.active = false)
    (h : s.Executing → e = .finalized .normal →
      (acceptedSegments s.history).length ≤ s.exec.cursor) : s'.Tracked := by
  refine ⟨fun hx => ?_, fun _ => ?_⟩
  · cases hs.symm.trans hx.left
  · rw [he]
    exact t.finish h

theorem Tracked.accepts (t : s.Tracked) (a : Accepts s io c s')
    (h : s.machine.system = .ready → s'.machine.system = .executingPrint → s.exec.cursor = 0) :
    (s'.note q c .accepted).Tracked := by
  have hi (hs : s.machine.system.active = false) : ∀ x ∈ executions s.history, x.Done :=
    t.rest fun hx => by cases hs.symm.trans hx.left
  cases a
  case start hr _ hp _ _ _ =>
    have h₀ : Execution.upTo (acceptedSegments s.history) s.exec.cursor =
        { job := acceptedSegments s.history } := by
      rw [h hr rfl]
      rfl
    exact ⟨fun _ => ⟨executions s.history, congrArg (· :: _) h₀.symm, hi (by rw [hr]; rfl)⟩,
      fun hn => absurd ⟨rfl, hp⟩ hn⟩
  case pause hs            => exact t.of_eq rfl rfl rfl (by rw [hs]; rfl) rfl
  case resume hs _ _ _ _ _ => exact t.of_eq rfl rfl rfl (by rw [hs]; rfl) rfl
  case abort hs            =>
    exact t.of_eq rfl rfl rfl (by obtain hs | hs := hs <;> rw [hs] <;> rfl) rfl
  case clearJob hs _       =>
    exact ⟨nofun, fun _ => hi (by obtain hs | hs | hs := hs <;> rw [hs] <;> rfl)⟩
  case setLocalizationMode => exact t.of_eq rfl rfl rfl rfl rfl
  case recover hs _        => exact ⟨nofun, fun _ => hi (by rw [hs]; rfl)⟩

theorem Tracked.pollCommand (t : s.Tracked) (h : s.StartsFresh i) :
    (s.pollCommand i.io i.command).Tracked := by
  simp only [StartsFresh] at h
  have p : Polled s i.io (s.pollCommand i.io i.command) := pollCommand_polled i.command
  generalize s.pollCommand i.io i.command = s' at p h
  cases p
  case none       => exact t
  case invalid    => exact t.of_eq rfl rfl rfl rfl rfl
  case rejected   => exact t.of_eq (executions_of_ne_start (by simp)) rfl rfl rfl rfl
  case accepted q _ _ _ a =>
    have ts : (s.see q).Tracked := t.of_eq rfl rfl rfl rfl rfl
    exact ts.accepts a h

theorem Tracked.fed {f : Feed RosMotion} (t : s.Tracked) (w : s.WellFormed)
    (hs : s.Steps safety) (h : Feed.Fed s.activeJob s.heap s.feed f seg .accepted) :
    (s.withFeed f).Tracked := by
  have hx : s.Executing := ⟨by rw [hs.right.left]; rfl, w.running hs.right.right.left⟩
  have ⟨segs, b⟩ := w.bound hx.right
  have ⟨past, he, hp⟩ := t.live hx
  have hseg : (acceptedSegments s.history)[s.exec.cursor]? = some seg := by
    rw [b.acceptedSegments, ← b.segment?]
    exact h.segment
  have hh := Executed.history_of_fed h
  have hc : (s.withFeed f).exec.cursor = s.exec.cursor + 1 := congrArg (·.cursor) h.ctx
  refine ⟨fun _ => ⟨past, ?_, hp⟩, fun hn => absurd hx hn⟩
  rw [hh, hc]
  simp only [executions, he, List.modifyHead_cons, Execution.upTo_submit hseg]
  rfl

theorem carried_tracked : Carried (fun s => (∀ e ∈ s.history, e.Accepted) → s.Tracked) i where
  job {s _ _} _ h a ha := by
    have t := h fun e he => ha e (List.mem_cons_of_mem _ he)
    have hs : s.machine.system.active = false := by
      rw [a.ready]
      rfl
    refine ⟨fun hx => ?_, fun _ => t.rest fun hx => ?_⟩
    · cases hs.symm.trans hx.left
    · cases hs.symm.trans hx.left
  armed _ h _ ha := (h ha).of_eq rfl rfl rfl rfl rfl
  fault _ h _ ha := by
    have t := h fun e he => ha e (List.mem_cons_of_mem _ he)
    exact t.of_finish rfl rfl nofun
  run _ h _ ha := (h ha).of_eq rfl rfl rfl rfl rfl
  executed w h e ha := by
    cases e.moves
    case inl hm =>
      have hh := Executed.history_of_held hm
      rw [hh] at ha
      exact (h ha).of_eq (by rw [hh]) (by rw [hh]) (congrArg (·.cursor) hm.ctx) rfl rfl
    case inr hf =>
      have ⟨hs, _, _, res, hm⟩ := hf
      rw [Executed.history_of_fed hm] at ha
      have hr : res = .accepted := ha _ List.mem_cons_self
      subst hr
      exact (h fun e he => ha e (List.mem_cons_of_mem _ he)).fed w hs hm
  scheduled h ha := (h ha).of_eq rfl rfl rfl rfl rfl
  first h ha     := (h ha).of_eq rfl rfl rfl rfl rfl
  refused h ha   := (h ha).of_eq rfl rfl rfl rfl rfl
  polled h ha    := (h ha).of_eq rfl rfl rfl rfl rfl
  sampled h ha   := (h ha).of_eq rfl rfl rfl rfl rfl

theorem Aborting.tracked (a : Aborting s io s') (t : s.Tracked) : s'.Tracked := by
  cases a <;> exact t.of_eq rfl rfl rfl rfl rfl

theorem Pausing.tracked (a : Pausing s io s') (t : s.Tracked) : s'.Tracked := by
  cases a <;> exact t.of_eq rfl rfl rfl rfl rfl

theorem completed_active {p : Heap.Ptr} (h : s.machine.system.finishing = true) :
    (s.completed p).machine.system.active = false := by
  rw [completed_system]
  split
  case isTrue => rfl
  case isFalse hn =>
    by_contra ha
    exact hn (SystemState.executing_of_finishing h (by simpa using ha))

theorem Orchestrated.tracked (o : Orchestrated s io s') (w : s.WellFormed) (t : s.Tracked)
    (h : s.machine.system = .resuming → s.machine.jobPresent = true → ∀ snap,
      loadExecutionSnapshot io.load s.snapshotFile = some snap → snap.cursor = s.exec.cursor) :
    s'.Tracked := by
  cases o
  case stopped | held        => exact t
  case draining a _          => exact a.tracked t
  case aborted a _           => exact (a.tracked t).of_finish rfl rfl nofun
  case paused a _ _          => exact a.tracked t
  case released a            => exact (a.tracked t).of_eq rfl rfl rfl rfl rfl
  case lost                  => exact t.of_finish rfl rfl nofun
  case started | continued   => exact t.of_eq rfl rfl rfl rfl rfl
  case restored snap hs _ hl =>
    cases hp : s.machine.jobPresent
    case true  => exact t.of_eq rfl rfl (h hs hp snap hl) (by rw [hs]; rfl) rfl
    case false =>
      refine ⟨fun hx => ?_, fun _ => t.rest fun hx => ?_⟩
      · cases hp.symm.trans hx.right
      · cases hp.symm.trans hx.right
  case completed hs hc _     =>
    apply t.of_finish rfl (completed_active hs)
    intro hx _
    have ⟨_, b⟩ := w.bound hx.right
    rw [b.acceptedSegments, b.length]
    exact hc.right.left

theorem tick_tracked (b : s.Boundary) (t : s.Tracked) (h : s.KeepsPlace i)
    (ht : tick i s = .ok s') (ha : ∀ e ∈ s'.history, e.Accepted) : s'.Tracked := by
  have ⟨m, ⟨_, he⟩, w, m', _, o, hs⟩ := b.wellFormed.orchestrates ht
  subst hs
  have hm := carried_tracked.execute b.wellFormed
    (fun _ => t.pollCommand h.left) he (fun e he => ha e (o.history.subset he))
  refine (o.tracked w hm fun hs hp snap hl => ?_).of_eq rfl rfl rfl rfl rfl
  have u := execute_untouched he (by simp [hs, SystemState.suspended])
  rw [u.exec]
  exact h.right (u.jobPresent ▸ hp) snap ((execute_resuming he hs).trans hl)

end State

open State

theorem Booted.tracked (b : Booted s) : s.Tracked := by
  have ⟨_, b⟩ := b.boots
  cases b <;> exact ⟨fun hx => absurd hx.right nofun, nofun⟩

-- Every execution feeds the segments of its job in order, and all of them before it ends NORMAL, as
-- long as every START finds the cursor at zero and every RESUME finds it where the PAUSE left it.
theorem fed_in_order_if_keeps_place (b : Booted s₀) (e : Run tick s₀ is s)
    (ha : ∀ e ∈ s.history, e.Accepted) (h : Along tick State.KeepsPlace s₀ is) :
    ∀ x ∈ executions s.history, x.InOrder := by
  have hs {i s s'} (hi : s.Boundary ∧ ((∀ e ∈ s.history, e.Accepted) → s.Tracked))
      (hp : s.KeepsPlace i) (ht : tick i s = .ok s') :
      s'.Boundary ∧ ((∀ e ∈ s'.history, e.Accepted) → s'.Tracked) := by
    refine ⟨hi.left.tick ht, fun ha => ?_⟩
    have hh := hi.left.wellFormed.tick_history ht
    exact tick_tracked hi.left (hi.right fun e he => ha e (hh.subset he)) hp ht ha
  exact (e.invariant_along hs ⟨b.boundary, fun _ => b.tracked⟩ h).right ha |>.inOrder

theorem fed_in_order_if_keeps_place_resume :
    ∃ s₀ s, Booted s₀ ∧
      Run tick s₀ [{}, .submit 1 3, .issue 1 1, .issue 2 2, .issue 3 3, {}, {}] s ∧
      ∀ x ∈ executions s.history, x.InOrder := by
  have ⟨s₀, hb, h⟩ : ∃ s₀, boot {} none = .ok s₀ ∧
      Along tick State.KeepsPlace s₀ [{}, .submit 1 3, .issue 1 1, .issue 2 2, .issue 3 3, {}, {}] ∧
      Reaches tick (fun s => ∀ e ∈ s.history, e.Accepted) s₀
        [{}, .submit 1 3, .issue 1 1, .issue 2 2, .issue 3 3, {}, {}] :=
    ⟨_, rfl, by decide +kernel⟩
  have ⟨s, e, ha⟩ := h.right.run
  exact ⟨s₀, s, ⟨_, _, hb⟩, e, fed_in_order_if_keeps_place ⟨_, _, hb⟩ e ha h.left⟩

-- A START behind a fault and a CLEAR begins where the last job was interrupted.
theorem fed_in_order_fails :
    ¬∀ s₀ is s, Booted s₀ → Run tick s₀ is s → (∀ e ∈ s.history, e.Accepted) →
      ∀ x ∈ executions s.history, x.InOrder := by
  intro hc
  have ⟨s₀, hb, h⟩ : ∃ s₀, boot {} none = .ok s₀ ∧
      Reaches tick
        (fun s => (∀ e ∈ s.history, e.Accepted) ∧ ¬∀ x ∈ executions s.history, x.InOrder) s₀
        [{}, .submit 1 3, .issue 1 1, { safety := { emergencyStop := true } }, .issue 2 6,
          .submit 2 3, .issue 3 1, {}] :=
    ⟨_, rfl, by decide +kernel⟩
  have ⟨s, e, ha, hn⟩ := h.run
  exact hn (hc s₀ _ s ⟨_, _, hb⟩ e ha)

end Firmware
