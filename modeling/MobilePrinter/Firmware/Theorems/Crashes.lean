import MobilePrinter.Firmware.Theorems.Stages

namespace Firmware

-- A step that reads the array of segments at all reads the one under the cursor. It does so exactly
-- if it fails on a heap without arrays.
def Feed.reads {M : Type} [MotionController M] (job : Job) (f : Feed M) : Bool :=
  match executionStep job .empty f with
  | .error .badAccess => true
  | _                 => false

namespace State

def Reads (s : State) (i : TickInput) : Prop :=
  (s.arm i).Steps (evaluateSafety i.safety) ∧
    (s.arm i).feed.reads (s.arm i).activeJob = true

instance : Decidable (Reads s i) :=
  inferInstanceAs (Decidable (_ ∧ _))

variable {s s' m : State} {i : TickInput} {io : FileOutcomes} {r : ExecutionResult} {c : Crash}

theorem WellFormed.completionStep_total (w : s.WellFormed) (hr : r ≠ .starved) :
    ∃ s', s.completionStep r = .ok s' := by
  by_cases hc : s.Completes
  case pos =>
    have ⟨p, _, he⟩ := w.completeJob hc.left
    exact ⟨_, (completionStep_of_completes hc).trans he⟩
  case neg => exact ⟨_, completionStep_of_not_completes hr hc⟩

theorem WellFormed.orchestratorStep_total (w : s.WellFormed) (io : FileOutcomes)
    (hr : r ≠ .starved) :
    ∃ s', s.orchestratorStep io r = .ok s' := by
  simp only [State.orchestratorStep]
  split
  case isTrue h =>
    simp only [Bool.and_eq_true] at h
    exact absurd (w.owned.mp h.right) (by simp [w.armed h.left])
  case isFalse =>
    split
    case h_6 hs =>
      split
      · exact ⟨_, rfl⟩
      · exact (w.startExecution hs).trackProgress.completionStep_total hr
    case h_7 => exact w.trackProgress.completionStep_total hr
    all_goals exact ⟨_, rfl⟩

theorem WellFormed.asserted (w : s.WellFormed) : s.Asserted where
  completed _ h := absurd h w.jobState
  ownership     := w.owned.symm

theorem WellFormed.tick_of_execute (w : s.WellFormed) (he : s.execute i = .ok (r, m)) :
    ∃ s', Firmware.tick i s = .ok s' := by
  have hr := (execute_ok he).left
  have ⟨m', hm⟩ := (w.execute he).orchestratorStep_total i.io hr
  have ha := ((w.execute he).orchestratorStep hr hm).sampleMotionIdle.asserted
  have t : Ticked s i r m m' m'.sampleMotionIdle.settle := ⟨he, hm, ha, rfl⟩
  exact ⟨_, t.tick⟩

theorem WellFormed.tick_error (w : s.WellFormed) (h : Firmware.tick i s = .error c) :
    c = .assertion .cursorBehind ∧ (s.arm i).Steps (evaluateSafety i.safety) ∧
      (s.arm i).Behind := by
  cases he : s.execute i
  case error =>
    cases (tick_of_execute_error he).symm.trans h
    have ⟨hs, hc'⟩ := executeStep_error (execute_error he)
    cases hc'
    case inl hc' => exact ⟨hc'.left, hs, hc'.right⟩
    case inr hc' =>
      -- The segment under the cursor of a job that runs exists.
      have ⟨segs, b⟩ := w.arm.bound (w.arm.running hs.right.right.left)
      have hl := b.length ▸ hc'.right.left
      exact absurd hc'.right.right (by simp [b.segment?, hl])
  case ok o =>
    have ⟨_, ht⟩ := w.tick_of_execute (r := o.1) (m := o.2) he
    cases ht.symm.trans h

theorem WellFormed.tick_total (w : s.WellFormed)
    (h : (s.arm i).Steps (evaluateSafety i.safety) → ¬(s.arm i).Behind) :
    ∃ s', Firmware.tick i s = .ok s' := by
  cases ht : Firmware.tick i s
  case ok s' => exact ⟨s', rfl⟩
  case error =>
    have ⟨_, hs, hb⟩ := w.tick_error ht
    exact absurd hb (h hs)

theorem reads_running (h : s.Reads i) :
    (s.arm i).exec.phase = .running ∧
      (s.arm i).exec.cursor < (s.arm i).activeJob.totalSegments := by
  refine ⟨h.left.right.right.left, ?_⟩
  have hr := h.right
  simp only [Feed.reads] at hr
  split at hr
  case h_2 => cases hr
  case h_1 he =>
    cases executionStep_error he
    case inl hb => cases hb.left
    case inr hb => exact hb.right.left

end State

open State

-- The executor reads a segment only while the array of the job that was accepted last is alive, and
-- only inside of that array.
theorem segments_read_while_alive (hs : Reachable s) :
    tick i s ≠ .error .badAccess ∧
    (s.Reads i →
      (s.arm i).machine.jobPresent = true ∧ (s.arm i).store.hasJob = true ∧
      (s.arm i).exec.cursor < (s.arm i).activeJob.totalSegments ∧
      ∃ p segs, (s.arm i).activeJob.segments = some p ∧ (s.arm i).heap.deref p = some segs ∧
        segs.length = (s.arm i).activeJob.totalSegments ∧
        lastAccepted (s.arm i).history = some ((s.arm i).machine.jobId, segs)) where
  left ht := by cases (hs.wellFormed.tick_error ht).left
  right h := by
    have w := hs.wellFormed.arm (i := i)
    have ⟨hr, hl⟩ := reads_running h
    have hp := w.running hr
    have ⟨segs, b⟩ := w.bound hp
    have ⟨p, hp', hd⟩ := b.pointer
    exact ⟨hp, w.stored.trans hp, hl, p, segs, hp', hd, b.length, b.accepted⟩

-- The tick that starts a job of one segment reads that segment.
theorem segments_read_while_alive_start :
    ∃ s i, Reachable s ∧ s.Reads i ∧ tick i s ≠ .error .badAccess ∧
      (s.arm i).exec.cursor < (s.arm i).activeJob.totalSegments := by
  have ⟨s₀, hb⟩ : ∃ s₀, boot {} none = .ok s₀ ∧
      Transition.Reaches tick (·.Reads (.issue 1 1)) s₀
        [{}, .submit 1 1] :=
    ⟨_, rfl, by decide +kernel⟩
  have ⟨s, e, hr⟩ := hb.right.run
  have h := segments_read_while_alive (i := .issue 1 1) (.intro ⟨_, _, hb.left⟩ e)
  exact ⟨s, _, .intro ⟨_, _, hb.left⟩ e, hr, h.left, (h.right hr).right.right.left⟩

end Firmware
