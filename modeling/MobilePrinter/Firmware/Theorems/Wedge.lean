import MobilePrinter.Firmware.Theorems.Service

open Transition

namespace Firmware
namespace State

instance : Decidable (Feedable s cursor) :=
  inferInstanceAs (Decidable (_ ∧ _ ∧ _))

instance : Decidable (Finishable s) :=
  inferInstanceAs (Decidable (_ ∨ (_ ∧ _ ∧ (_ → _))))

instance : Decidable (ResumesWithin s n) :=
  match h : s.snapshotFile with
  | none      =>
    decidable_of_iff (s.machine.resumeConsumed = false ∧ s.exec.cursor < maxSegments ∧ 3 ≤ n)
      (by simp [ResumesWithin, h])
  | some snap =>
    decidable_of_iff (s.machine.resumeConsumed = false ∧ s.Feedable snap.cursor ∧ 2 ≤ n)
      (by simp [ResumesWithin, h])

instance : Decidable (EscapesWithin s n) :=
  match h : s.machine.system with
  | .ready                                => decidable_of_iff' _ (escapesWithin_ready h)
  | .fault                                => decidable_of_iff' _ (escapesWithin_stopped (.inl h))
  | .recovering                           => decidable_of_iff' _ (escapesWithin_stopped (.inr h))
  | .executingPrint                       => decidable_of_iff' _ (escapesWithin_executing h)
  | .paused                               => decidable_of_iff' _ (escapesWithin_paused h)
  | .boot | .idle | .resuming | .aborting => .isFalse (by simp [EscapesWithin, h])

instance : Decidable (Escapable s) :=
  inferInstanceAs (Decidable (EscapesWithin _ _))

variable {M : State → List SpinSlice → Prop} {s s' : State} {n : Nat}

theorem escapes_of_ready (hM : ∀ s, M s s.prompt) (b : s.Boundary) (t : s.Settled)
    (hs : s.machine.system = .ready) (e : s.Escapable) : s.Escapes M := by
  have ⟨hc, h⟩ := (escapesWithin_ready hs).mp e
  cases hj : s.machine.jobPresent
  case false => exact .here (restartable hM b t hs hj hc e.pos)
  case true  =>
    have ⟨s', ht, hs', hj', hc', hl⟩ := tick_clear b t e.pos (.inl hs)
    have h2 := h.resolve_left fun h => by cases hj.symm.trans h.left
    refine .step (benign_send hM (by decide)) ht (.here ?_)
    exact restartable hM (b.tick ht) (tick_settled b.wellFormed ht) hs' hj' (hc' ▸ hc) (by omega)

theorem escapes_of_stopped (hM : ∀ s, M s s.prompt) (b : s.Boundary) (t : s.Settled)
    (hs : s.machine.system = .fault ∨ s.machine.system = .recovering) (e : s.Escapable) :
    s.Escapes M := by
  have ⟨hc, h⟩ := (escapesWithin_stopped hs).mp e
  have ⟨s', ht, hs', hj', hc', hl⟩ := tick_clear b t e.pos (.inr hs)
  refine .step (benign_send hM (by decide)) ht (.here ?_)
  exact restartable hM (b.tick ht) (tick_settled b.wellFormed ht) hs' hj' (hc' ▸ hc) (by omega)

-- The induction is on the segments that are left to feed.
theorem escapes_of_finishable (hM : ∀ s, M s s.prompt) (b : s.Boundary)
    (hs : s.machine.system = .executingPrint) (hf : s.Finishable) (hl : 1 ≤ s.framesLeft) :
    s.Escapes M := by
  induction hn : s.activeJob.totalSegments - s.exec.cursor using Nat.strongRecOn
    generalizing s
  case ind ih =>
    have ⟨s', ht, hl', h⟩ := tick_served b hs hf
    have b' := b.tick ht
    apply CanReach.step (benign_wait hM) ht
    cases h
    case inl h =>
      have hc : s'.exec.cursor < maxSegments := by rw [h.right.right]; decide
      have t := tick_settled b.wellFormed ht
      exact .here (restartable hM b' t h.left h.right.left hc (hl' ▸ hl))
    case inr h => exact ih _ (hn ▸ h.right.right) b' h.left h.right.left (hl' ▸ hl) rfl

theorem escapes_of_paused (hM : ∀ s, M s s.prompt) (b : s.Boundary) (t : s.Settled)
    (hs : s.machine.system = .paused) (hr : s.ResumesWithin s.framesLeft) : s.Escapes M := by
  have hp := hr.pos
  have ⟨s', ht, hl, h⟩ := tick_resume b t (by omega) hs hr.left
  have b' := b.tick ht
  have hf := hr.right
  apply CanReach.step (benign_send hM (by decide)) ht
  split at hf
  case h_1 hn =>
    rw [hn] at h
    apply escapes_of_stopped hM b' (tick_settled b.wellFormed ht) (.inl h.left)
    exact (escapesWithin_stopped (.inl h.left)).mpr ⟨h.right ▸ hf.left, by omega⟩
  case h_2 hn =>
    rw [hn] at h
    exact escapes_of_finishable hM b' h.left (.inl (h.right hf.left)) (by omega)

theorem escapes_of_executing (hM : ∀ s, M s s.prompt) (b : s.Boundary)
    (hs : s.machine.system = .executingPrint) (e : s.Escapable) : s.Escapes M := by
  have hp := e.pos
  cases (escapesWithin_executing hs).mp e
  case inl h => exact escapes_of_finishable hM b hs h.left hp
  case inr h =>
    have ⟨s', ht, hs', hr, hl⟩ := tick_pause b hp hs h.left
    apply CanReach.step (benign_send hM (by decide)) ht
    apply escapes_of_paused hM (b.tick ht) (tick_settled b.wellFormed ht) hs'
    apply hr
    have h := h.right
    rwa [← hl] at h

theorem escapes_of_settled (hM : ∀ s, M s s.prompt) (b : s.Boundary) (t : s.Settled)
    (e : s.Escapable) : s.Escapes M := by
  cases hs : s.machine.system
  case ready                  => exact escapes_of_ready hM b t hs e
  case fault                  => exact escapes_of_stopped hM b t (.inl hs) e
  case recovering             => exact escapes_of_stopped hM b t (.inr hs) e
  case executingPrint         => exact escapes_of_executing hM b hs e
  case paused                 => exact escapes_of_paused hM b t hs ((escapesWithin_paused hs).mp e)
  case resuming               => exact absurd hs b.notResuming
  case boot | idle | aborting => exact absurd e (not_escapesWithin_aborting (by simp [hs]))

theorem escapes_of_booted (hM : ∀ s, M s s.prompt) (h : Booted s) (e : s.Escapable) :
    s.Escapes M := by
  have b := h.boundary
  have ⟨_, h⟩ := h.boots
  have hs : s.machine.system = .ready ∨ s.machine.system = .paused := by
    cases h
    case ready  => exact .inl rfl
    case paused => exact .inr rfl
  cases hs
  case inl hs =>
    have ⟨s', ht, hs', hj, hc, hl⟩ := tick_wait b hs
    apply CanReach.step (benign_wait hM) ht
    apply escapes_of_ready hM (b.tick ht) (tick_settled b.wellFormed ht) hs'
    apply (escapesWithin_ready hs').mpr
    rw [hj, hc, hl]
    exact (escapesWithin_ready hs).mp e
  case inr hs =>
    have ⟨s', ht, hs', hr, hl⟩ := tick_wait_paused b hs
    apply CanReach.step (benign_wait hM) ht
    apply escapes_of_paused hM (b.tick ht) (tick_settled b.wellFormed ht) hs'
    exact hl ▸ hr _ ((escapesWithin_paused hs).mp e)

theorem Starts.bounds (h : s.Starts i) (w : s.WellFormed) :
    s.exec.cursor < maxSegments ∧ 1 ≤ s.framesLeft := by
  have ⟨hs, hx⟩ := h
  have p : Polled s i.io (s.pollCommand i.io i.command) := pollCommand_polled i.command
  generalize s.pollCommand i.io i.command = s₁ at p hx
  cases p
  case none | invalid | rejected => cases hs.symm.trans hx
  case accepted hq a =>
    have hl := see_framesLeft hq
    cases a
    case start _ _ hj hc _ _ =>
      have ⟨_, bj⟩ := w.bound hj
      exact ⟨Nat.lt_of_lt_of_le hc bj.limit, by omega⟩
    case setLocalizationMode => cases hs.symm.trans hx
    all_goals cases hx

theorem Restartable.escapable (b : s.Boundary) (h : s.Restartable M) : s.Escapable := by
  have ⟨hs, i, s', j, hi, hsub, ht, hj, hst⟩ := h
  have ⟨hc, hl⟩ := hst.bounds (b.wellFormed.tick ht)
  have ⟨m, ⟨_, he⟩, w, _, _, o, hs'⟩ := b.wellFormed.orchestrates ht
  have p := execute_handed b.wellFormed hi.safe he
  rw [hsub.silent] at p
  have p : Handed s m := p
  have hm := p.system.trans hs
  obtain ⟨_, rfl⟩ := o.of_ready hm (w.ready hm).left
  subst hs'
  have t := p.standing (by simp [hs])
  refine (escapesWithin_ready hs).mpr ⟨t.cursor ▸ hc, .inl ⟨?_, Nat.le_trans hl p.framesLeft⟩⟩
  exact b.wellFormed.stored.symm.trans hsub.vacant

end State

open State

theorem Reachable.settled (r : Reachable s) : Booted s ∨ s.Settled := by
  cases r
  case intro b e =>
    exact WellFormed.invariant (I := fun s => Booted s ∨ s.Settled)
      (fun w _ ht => .inr (tick_settled w ht)) b.wellFormed (.inl b) e

-- The operator can bring a state back to a fresh START exactly if there are enough frames left for
-- one of the ways out. A motion layer that completes what was submitted is enough for that, and no
-- other motion layer helps more.
theorem escapes_iff_escapable (r : Reachable s) (hM : ∀ s, M s s.prompt) :
    s.Escapes M ↔ s.Escapable where
  mp h  := h.backward Boundary.tick tick_escapable Restartable.escapable r.boundary
  mpr e := r.settled.elim (escapes_of_booted hM · e) (escapes_of_settled hM r.boundary · e)

theorem escapes_iff_escapable_fault :
    ∃ s, Reachable s ∧ s.machine.system = .fault ∧ s.Escapes fun s spin => s.prompt = spin := by
  have ⟨s₀, hb, h⟩ : ∃ s₀, boot {} none = .ok s₀ ∧
      Reaches tick (fun s => s.machine.system = .fault ∧ s.Escapable) s₀
        [{}, .submit 1 3, .issue 1 1, { safety := { guardOpen := true } }] :=
    ⟨_, rfl, by decide +kernel⟩
  have ⟨s, e, hs, he⟩ := h.run
  have r : Reachable s := .intro ⟨_, _, hb⟩ e
  exact ⟨s, r, hs, escapes_iff_escapable r (fun _ => rfl) |>.mpr he⟩

-- The end of an ABORT leaves the machine in IDLE, in which the channel lets no command through.
theorem escapes_fails : ¬∀ s, Reachable s → s.Escapes fun _ _ => True := by
  intro hc
  have ⟨s₀, hb, h⟩ : ∃ s₀, boot {} none = .ok s₀ ∧ Reaches tick (¬·.Escapable) s₀
      [{}, .submit 1 3, .issue 1 1, .issue 2 4, {}] :=
    ⟨_, rfl, by decide +kernel⟩
  have ⟨s, e, hn⟩ := h.run
  have r : Reachable s := .intro ⟨_, _, hb⟩ e
  exact hn ((hc s r).backward Boundary.tick tick_escapable Restartable.escapable r.boundary)

end Firmware
