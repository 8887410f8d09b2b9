import MobilePrinter.Firmware.Theorems.Resume

open Trace Transition

namespace Firmware

def Event.completes : Event → Bool
  | .finalized .normal => true
  | _                  => false

-- Every START is rejected, unless a job was accepted behind which there was no accepted START, no
-- completion and no CLEAR_JOB. Every job is completed at most once.
structure PrintsOnce (e : Event) (older : History) : Prop where
  started   : ∀ q o, e = .commandHandled q .start o → o = .rejected ∨
    (o = .accepted ∧ (∃ e' ∈ older, e'.acceptsJob = true) ∧
      ∀ e' ∈ since Event.acceptsJob older,
        e'.accepts .start = false ∧ e'.completes = false ∧ e'.accepts .clearJob = false)
  completed : e.completes = true → ∀ e' ∈ since Event.acceptsJob older, e'.completes = false

-- What the history has to satisfy so that the job that is present, if there is one, is not printed
-- again.
structure Printable (sys : SystemState) (present : Bool) (h : History) : Prop where
  once      : Obeys PrintsOnce h
  submitted : present = true → ∃ e ∈ h, e.acceptsJob = true
  fresh     : present = true → ∀ e ∈ since Event.acceptsJob h,
    e.completes = false ∧ e.accepts .clearJob = false
  unstarted : present = true → sys = .ready → ∀ e ∈ since Event.acceptsJob h,
    e.accepts .start = false

theorem Event.not_accepts_start {e : Event}
    (h : ∀ q o, e = .commandHandled q .start o → o = .rejected) : e.accepts .start = false := by
  apply Bool.eq_false_iff.mpr
  intro hc
  have ⟨q, he⟩ := accepts_iff.mp hc
  cases h q _ he

namespace Printable

variable {sys sys' : SystemState} {present present' : Bool} {h : History} {e : Event} {q : UInt32}

-- An event that neither starts nor completes nor clears a job, and behind which the machine is not
-- READY unless it was before.
theorem plain (r : Printable sys present h)
    (hs : ∀ q o, e = .commandHandled q .start o → o = .rejected) (hc : e.completes = false)
    (hj : e.accepts .clearJob = false) (hr : sys' = .ready → sys = .ready) :
    Printable sys' present (e :: h) where
  once            := ⟨⟨fun q o he => .inl (hs q o he), fun hc' => by simp [hc] at hc'⟩, r.once⟩
  submitted hp    := have ⟨e', hm, he⟩ := r.submitted hp; ⟨e', .tail _ hm, he⟩
  fresh hp        := forall_since_cons ⟨hc, hj⟩ (r.fresh hp)
  unstarted hp h₁ := forall_since_cons (Event.not_accepts_start hs) (r.unstarted hp (hr h₁))

theorem start (r : Printable .ready true h) (hn : sys ≠ .ready) :
    Printable sys true (.commandHandled q .start .accepted :: h) where
  once           := by
    refine ⟨⟨fun _ _ he => ?_, nofun⟩, r.once⟩
    cases he
    exact .inr ⟨rfl, r.submitted rfl, fun e he => ⟨r.unstarted rfl rfl e he, r.fresh rfl e he⟩⟩
  submitted _    := have ⟨e', hm, he⟩ := r.submitted rfl; ⟨e', .tail _ hm, he⟩
  fresh _        := forall_since_cons ⟨rfl, rfl⟩ (r.fresh rfl)
  unstarted _ hr := absurd hr hn

theorem clear (r : Printable sys present h) :
    Printable sys' false (.commandHandled q .clearJob .accepted :: h) where
  once      := ⟨⟨nofun, nofun⟩, r.once⟩
  submitted := nofun
  fresh     := nofun
  unstarted := nofun

theorem accept (r : Printable sys present h) :
    Printable sys true (.jobAccepted jobId segs :: h) where
  once          := ⟨⟨nofun, nofun⟩, r.once⟩
  submitted _   := ⟨_, .head _, rfl⟩
  fresh _       := forall_since_of_pos rfl
  unstarted _ _ := forall_since_of_pos rfl

theorem complete (r : Printable sys true h) : Printable sys' false (.finalized .normal :: h) where
  once      := ⟨⟨nofun, fun _ e he => (r.fresh rfl e he).left⟩, r.once⟩
  submitted := nofun
  fresh     := nofun
  unstarted := nofun

end Printable

namespace State

def Printable (s : State) : Prop :=
  Firmware.Printable s.machine.system s.machine.jobPresent s.history

variable {s s' m m' : State} {i : TickInput} {io : FileOutcomes} {r : ExecutionResult}

theorem Printable.note (h : s.Printable) : (s.note q c .rejected).Printable :=
  h.plain (fun _ _ he => by cases he; rfl) rfl rfl id

theorem Accepts.printable (a : Accepts s io c s') (h : s.Printable) :
    (s'.note q c .accepted).Printable := by
  cases a
  case start hr _ hp _ _ _    =>
    rw [Printable, hr, hp] at h
    have h : Firmware.Printable .executingPrint true (.commandHandled q .start .accepted :: _) :=
      h.start nofun
    rwa [← hp] at h
  case pause                  => exact h.plain nofun rfl rfl nofun
  case resume                 => exact h.plain nofun rfl rfl nofun
  case abort                  => exact h.plain nofun rfl rfl nofun
  case clearJob               => exact h.clear
  case setLocalizationMode    => exact h.plain nofun rfl rfl id
  case recover                => exact h.plain nofun rfl rfl nofun

theorem kept_printable : Kept Printable i where
  accepted _ h a := a.printable h
  job _ h _      := h.accept
  armed _ h _    := h
  fault _ h _    := h.plain nofun rfl rfl nofun
  run _ h _      := h
  executed _ h e :=
    e.keeps_history (P := Firmware.Printable _ _) h fun _ _ _ _ => h.plain nofun rfl rfl id
  rejected h     := h.note

theorem Aborting.printable (a : Aborting s io b) (h : s.Printable) : b.Printable := by
  cases a
  case begun => exact h.plain nofun rfl rfl id
  case stale => exact h

theorem Pausing.printable (a : Pausing s io b) (h : s.Printable) : b.Printable := by
  cases a
  case captured => exact h.plain nofun rfl rfl id
  case kept     => exact h

theorem Orchestrated.printable (o : Orchestrated s io s') (w : s.WellFormed) (h : s.Printable) :
    s'.Printable := by
  cases o
  case draining a _       => exact a.printable h
  case aborted a _        => exact (a.printable h).plain nofun rfl rfl nofun
  case paused a _ _       => exact a.printable h
  case released a         => exact a.printable h
  case lost               => exact h.plain nofun rfl rfl nofun
  case restored           => exact h.plain nofun rfl rfl nofun
  case completed hc _     =>
    rw [Printable, w.running hc.left] at h
    exact h.complete
  all_goals exact h

theorem tick_printable (w : s.WellFormed) (h : s.Printable) (ht : tick i s = .ok s') :
    s'.Printable :=
  kept_printable.tick w h ht fun w o => o.printable w

def LastJob (latch : UInt32) (jobs : Nat) (s : State) : Prop :=
  s.lastJobSeq = latch ∧ s.history.jobs = jobs

theorem acceptJob_jobs : (s.acceptJob blob q).history.jobs = s.history.jobs + 1 :=
  List.countP_cons_of_pos rfl

theorem relayed_lastJob : Relayed (LastJob q n) i where
  armed _ h _    := h
  fault _ h _    := h
  run _ h _      := h
  executed _ h e :=
    ⟨h.left, e.keeps_history (P := (History.jobs · = _)) h.right fun _ _ _ _ => h.right⟩

theorem Accepts.lastJob (a : Accepts s io c s') (h : s.LastJob q n) :
    (s'.note p c .accepted).LastJob q n := by
  cases a <;> exact h

theorem pollCommand_lastJob (h : s.LastJob q n) : (s.pollCommand io shm).LastJob q n :=
  (pollCommand_polled shm).preserves (P := LastJob q n) (fun h => h) (fun h => h)
    (fun h a => a.lastJob (p := 0) h) h

theorem Orchestrated.lastJob (o : Orchestrated s io s') (h : s.LastJob q n) : s'.LastJob q n :=
  ⟨o.channels.lastJobSeq.trans h.left, o.channels.jobs.trans h.right⟩

theorem WellFormed.tick_lastJob (w : s.WellFormed) (ht : Firmware.tick i s = .ok s') :
    s'.LastJob s.lastJobSeq s.history.jobs ∨
    ∃ job, i.job = some job ∧ job.sequence ≠ s.lastJobSeq ∧
      s'.LastJob job.latched (s.history.jobs + 1) := by
  have hp : (s.pollCommand i.io i.command).LastJob s.lastJobSeq s.history.jobs :=
    pollCommand_lastJob ⟨rfl, rfl⟩
  cases pollJobIngress_cases (s.pollCommand i.io i.command) i.job
  case inl hi =>
    have ⟨_, hq, hh⟩ := hi
    exact .inl (relayed_lastJob.tick w ⟨hq.trans hp.left, hh ▸ hp.right⟩ ht fun _ o => o.lastJob)
  case inr hi =>
    have ⟨job, hj, hq, hi⟩ := hi
    refine .inr ⟨job, hj, hp.left ▸ hq.fresh,
      relayed_lastJob.tick w ?_ ht fun _ o => o.lastJob⟩
    rw [hi]
    exact ⟨rfl, by rw [acceptJob_jobs, hp.right]⟩

theorem WellFormed.run_lastJob (w : s.WellFormed) (e : Run Firmware.tick s is s') :
    s.history.jobs ≤ s'.history.jobs ∧
      (s'.history.jobs = s.history.jobs → s'.lastJobSeq = s.lastJobSeq) := by
  induction e
  case refl => exact ⟨Nat.le_refl _, fun _ => rfl⟩
  case cons ht _ ih =>
    have ih := ih (w.tick ht)
    cases w.tick_lastJob ht
    case inl h =>
      exact ⟨h.right ▸ ih.left, fun hn => (ih.right (hn.trans h.right.symm)).trans h.left⟩
    case inr h =>
      have ⟨_, _, _, h⟩ := h
      have hl := h.right ▸ ih.left
      exact ⟨Nat.le_of_succ_le hl, fun hn => absurd hl (by omega)⟩

end State

open State

theorem Reachable.printable (r : Reachable s) : s.Printable := by
  cases r
  case intro b e =>
    refine WellFormed.invariant tick_printable b.wellFormed ?_ e
    have ⟨_, b⟩ := b.boots
    cases b <;> exact ⟨trivial, nofun, nofun, nofun⟩

-- Every START and every completion belongs to a submission that was accepted before it, and no
-- submission has more than one of each. Between two accepted submissions the sequence number in
-- shared memory has changed.
theorem job_printed_once (h : Reachable s) :
    (∀ e older, e :: older <:+ s.history → PrintsOnce e older) ∧
    ∀ i₁ s₁ is s₂ i₂ s₃,
      tick i₁ s = .ok s₁ → s.history.jobs < s₁.history.jobs →
      Run tick s₁ is s₂ → s₂.history.jobs = s₁.history.jobs →
      tick i₂ s₂ = .ok s₃ → s₂.history.jobs < s₃.history.jobs →
      ∃ job₁ job₂, i₁.job = some job₁ ∧ i₂.job = some job₂ ∧ job₂.sequence ≠ job₁.latched where
  left := obeys_iff.mp h.printable.once
  right := by
    intro i₁ s₁ is s₂ i₂ s₃ ht₁ hl₁ e hn ht₂ hl₂
    have w := h.wellFormed
    have w₁ := w.tick ht₁
    have w₂ : s₂.WellFormed := e.invariant WellFormed.tick w₁
    have hl := (w₁.run_lastJob e).right hn
    cases w.tick_lastJob ht₁
    case inl h₁ => exact absurd hl₁ (by simp [h₁.right])
    case inr h₁ =>
      have ⟨job₁, hj₁, _, h₁⟩ := h₁
      cases w₂.tick_lastJob ht₂
      case inl h₂ => exact absurd hl₂ (by simp [h₂.right])
      case inr h₂ =>
        have ⟨job₂, hj₂, hq, _⟩ := h₂
        exact ⟨job₁, job₂, hj₁, hj₂, by rwa [hl, h₁.left] at hq⟩

-- Two jobs that are printed one after the other.
theorem job_printed_once_twice :
    ∃ s, Reachable s ∧ s.history.jobs = 2 ∧ (∃ e ∈ s.history, e.completes = true) ∧
      ∀ e older, e :: older <:+ s.history → PrintsOnce e older := by
  have ⟨s₀, hb, h⟩ : ∃ s₀, boot {} none = .ok s₀ ∧
      Reaches tick (fun s => s.history.jobs = 2 ∧ ∃ e ∈ s.history, e.completes = true) s₀
        [{}, .submit 1 1, .issue 1 1, {}, .submit 2 1, .issue 2 1, {}] :=
    ⟨_, rfl, by decide +kernel⟩
  have ⟨s, e, hn, hm⟩ := h.run
  have hr : Reachable s := .intro ⟨_, _, hb⟩ e
  exact ⟨s, hr, hn, hm, (job_printed_once hr).left⟩

end Firmware
