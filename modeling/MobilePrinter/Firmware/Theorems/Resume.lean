import MobilePrinter.Library.Trace
import MobilePrinter.Firmware.Theorems.Channel

open Trace

namespace Firmware

def Event.accepts (c : CommandType) : Event → Bool
  | .commandHandled _ c' .accepted => c' == c
  | _                              => false

def Event.faults : Event → Bool
  | .faulted _ => true
  | _          => false

-- The events that put an end to a pause without resuming it.
def Event.endsPause : Event → Bool
  | .commandHandled _ c .accepted             => c == .abort || c == .clearJob
  | .abortStarted | .finalized _ | .faulted _ => true
  | _                                         => false

-- A RESUME is accepted at most once since the boot or the last START, never after a fault, and only
-- if nothing has put an end to the pause that it resumes.
structure ResumesOnce (e : Event) (older : History) : Prop where
  single   : e.accepts .resume = true → ∀ e' ∈ since (·.accepts .start) older,
    e'.accepts .resume = false
  alive    : e.accepts .resume = true → ∀ e' ∈ since (·.accepts .start) older, e'.faults = false
  standing : e.accepts .resume = true → ∀ e' ∈ since (·.accepts .pause) older,
    e'.endsPause = false

-- What the history of a machine in the state `sys` has to satisfy so that no RESUME is accepted
-- that must not be. The flag is `resume_consumed`.
structure Resumable (sys : SystemState) (consumed : Bool) (h : History) : Prop where
  once    : Obeys ResumesOnce h
  used    : sys.active = true → consumed = false → ∀ e ∈ since (·.accepts .start) h,
    e.accepts .resume = false
  alive   : sys.active = true → ∀ e ∈ since (·.accepts .start) h, e.faults = false
  pausing : sys = .paused → ∀ e ∈ since (·.accepts .pause) h, e.endsPause = false

namespace Resumable

variable {sys sys' : SystemState} {consumed consumed' : Bool} {h : History} {e : Event}
  {q : UInt32}

theorem nil : Resumable sys consumed [] where
  once       := trivial
  used _ _   := by simp
  alive _    := by simp
  pausing _  := by simp

theorem once_cons (r : Resumable sys consumed h) (hn : e.accepts .resume = false) :
    Obeys ResumesOnce (e :: h) :=
  ⟨⟨fun hc => by simp [hn] at hc, fun hc => by simp [hn] at hc, fun hc => by simp [hn] at hc⟩,
    r.once⟩

theorem rest (r : Resumable sys consumed h) (hn : e.accepts .resume = false)
    (ha : sys'.active = false) : Resumable sys' consumed' (e :: h) where
  once       := r.once_cons hn
  used hc    := by simp [ha] at hc
  alive hc   := by simp [ha] at hc
  pausing hc := by simp [hc, SystemState.active] at ha

theorem active (r : Resumable sys consumed h) (hn : e.accepts .resume = false)
    (hf : e.faults = false) (ha : sys'.active = true → sys.active = true)
    (hc : consumed' = false → consumed = false)
    (hp : sys' = .paused → e.accepts .pause = true ∨ (sys = .paused ∧ e.endsPause = false)) :
    Resumable sys' consumed' (e :: h) where
  once       := r.once_cons hn
  used h₁ h₂ := forall_since_cons hn (r.used (ha h₁) (hc h₂))
  alive h₁   := forall_since_cons hf (r.alive (ha h₁))
  pausing h₁ := by
    cases hp h₁
    case inl hp => exact forall_since_of_pos hp
    case inr hp => exact forall_since_cons hp.right (r.pausing hp.left)

theorem start (r : Resumable sys consumed h) :
    Resumable .executingPrint false (.commandHandled q .start .accepted :: h) where
  once     := r.once_cons rfl
  used _ _ := forall_since_of_pos rfl
  alive _  := forall_since_of_pos rfl
  pausing  := nofun

theorem resume (r : Resumable .paused false h) :
    Resumable .resuming true (.commandHandled q .resume .accepted :: h) where
  once     := ⟨⟨fun _ => r.used rfl rfl, fun _ => r.alive rfl, fun _ => r.pausing rfl⟩, r.once⟩
  used     := nofun
  alive _  := forall_since_cons rfl (r.alive rfl)
  pausing  := nofun

theorem plain (r : Resumable sys consumed h) (hn : e.accepts .resume = false)
    (hf : e.faults = false) (he : e.endsPause = false) : Resumable sys consumed (e :: h) :=
  r.active hn hf id id fun hs => .inr ⟨hs, he⟩

end Resumable

namespace State

def Resumable (s : State) : Prop :=
  Firmware.Resumable s.machine.system s.machine.resumeConsumed s.history

variable {s s' m m' : State} {i : TickInput} {io : FileOutcomes} {r : ExecutionResult}

theorem Resumable.note (h : s.Resumable) : (s.note q c .rejected).Resumable :=
  h.plain rfl rfl rfl

theorem Accepts.resumable (a : Accepts s io c s') (h : s.Resumable) :
    (s'.note q c .accepted).Resumable := by
  cases a
  case start                  => exact h.start
  case pause hs               =>
    exact h.active rfl rfl (fun _ => congrArg SystemState.active hs) id fun _ => .inl rfl
  case resume hs _ _ hc _ _   =>
    rw [Resumable, hs, hc] at h
    exact h.resume
  case abort hs               =>
    refine h.active rfl rfl (fun _ => ?_) id nofun
    cases hs
    case inl hs => exact congrArg SystemState.active hs
    case inr hs => exact congrArg SystemState.active hs
  case clearJob               => exact h.rest rfl rfl
  case setLocalizationMode    => exact h.plain rfl rfl rfl
  case recover                => exact h.rest rfl rfl

theorem kept_resumable : Kept Resumable i where
  accepted _ h a := a.resumable h
  job _ h _      := h.plain rfl rfl rfl
  armed _ h _    := h
  fault _ h _    := h.rest rfl rfl
  run _ h _      := h
  executed _ h e :=
    e.keeps_history (P := Firmware.Resumable _ _) h fun _ _ _ _ => h.plain rfl rfl rfl
  rejected h     := h.note

theorem Aborting.resumable (a : Aborting s io b) (hs : s.machine.system = .aborting)
    (h : s.Resumable) : b.Resumable := by
  cases a
  case begun => exact h.active rfl rfl id id fun hc => by cases hs.symm.trans hc
  case stale => exact h

theorem Pausing.resumable (a : Pausing s io b) (h : s.Resumable) : b.Resumable := by
  cases a
  case captured => exact h.plain rfl rfl rfl
  case kept     => exact h

theorem Orchestrated.resumable (o : Orchestrated s io s') (h : s.Resumable) : s'.Resumable := by
  cases o
  case draining hs _ a _  => exact a.resumable hs h
  case aborted hs a _     => exact (a.resumable hs h).rest rfl rfl
  case paused a _ _       => exact a.resumable h
  case released a         => exact a.resumable h
  case lost               => exact h.rest rfl rfl
  case restored hs _ _    =>
    exact h.active rfl rfl (fun _ => by simp [hs, SystemState.active]) nofun nofun
  case completed hs _ _   =>
    refine h.rest rfl (Bool.eq_false_iff.mpr fun ha => ?_)
    rw [completed_system, tracked_system] at ha
    split at ha
    case isTrue     => cases ha
    case isFalse hn => exact hn (SystemState.executing_of_finishing hs ha)
  all_goals exact h

theorem tick_resumable (w : s.WellFormed) (h : s.Resumable) (ht : tick i s = .ok s') :
    s'.Resumable :=
  kept_resumable.tick w h ht fun _ o => o.resumable

end State

open State

theorem Event.accepts_iff {e : Event} :
    e.accepts c = true ↔ ∃ q, e = .commandHandled q c .accepted := by
  cases e
  case commandHandled q c' o => cases o <;> simp [accepts]
  all_goals simp [accepts]

theorem Reachable.resumable (r : Reachable s) : s.Resumable := by
  cases r
  case intro b e =>
    refine WellFormed.invariant tick_resumable b.wellFormed ?_ e
    have ⟨_, b⟩ := b.boots
    cases b <;> exact .nil

-- A RESUME is accepted in PAUSED only, at most once between two openings of a session, not behind
-- an event that has put an end to the pause, and not behind a fault until another START is
-- accepted.
theorem resume_accepted_once (h : Reachable s) :
    (∀ e older, e :: older <:+ s.history → ResumesOnce e older) ∧
    ∀ i s' recent, tick i s = .ok s' → s'.history = recent ++ s.history →
      (∃ e ∈ recent, e.accepts .resume = true) → s.machine.system = .paused where
  left := obeys_iff.mp h.resumable.once
  right := by
    intro i s' recent ht hs hr
    have ⟨_, hm, ha⟩ := hr
    have ⟨_, he⟩ := Event.accepts_iff.mp ha
    have ⟨_, a⟩ := h.wellFormed.accepts_of_tick ht hs (he ▸ hm)
    cases a
    case resume hp _ _ _ _ _ => exact hp

-- A session in which a job is paused and resumed.
theorem resume_accepted_once_resume :
    ∃ s, Reachable s ∧ (∃ e ∈ s.history, e.accepts .resume = true) ∧
      ∀ e older, e :: older <:+ s.history → ResumesOnce e older := by
  have ⟨s₀, hb, h⟩ : ∃ s₀, boot {} none = .ok s₀ ∧
      Transition.Reaches tick (fun s => ∃ e ∈ s.history, e.accepts .resume = true) s₀
        [{}, .submit 1 3, .issue 1 1, .issue 2 2, .issue 3 3] :=
    ⟨_, rfl, by decide +kernel⟩
  have ⟨s, e, hm⟩ := h.run
  have hr : Reachable s := .intro ⟨_, _, hb⟩ e
  exact ⟨s, hr, hm, (resume_accepted_once hr).left⟩

end Firmware
