import MobilePrinter.Firmware.State

-- `execution_loop.cpp`: one step of the executor, over an arbitrary motion controller.

namespace Firmware

-- Everything that `execution_step` reads and writes, and the commands it has passed to the motion
-- controller so far.
structure Feed (M : Type) where
  ctx        : ExecutionContext
  lastCursor : Nat
  motion     : M
  motionIdle : Bool
  extruder   : ExtruderControllerStub
  submitted  : List (MotionCommand × MotionResult) := []

-- `job.segments[index]`, which is `none` if the array is null or deleted, or too short.
def Job.segment? (job : Job) (heap : Heap Segment) (index : Nat) : Option Segment :=
  (job.segments.bind heap.deref).bind (·[index]?)

namespace Feed

variable {M : Type} [MotionController M]

-- The result with which the step returns because the extruder is busy, if it does.
def settleExtruder (f : Feed M) : Option ExecutionResult × Feed M :=
  if f.extruder.isReady then
    (none, f)
  else
    let r := f.extruder.poll
    let f := { f with extruder := r.2 }
    match r.1 with
    | .inProgress | .accepted | .rejected => (some .blocked, f)
    | .completed                          => (none, f)
    | .faulted                            => (some .faulted, f)

-- The result with which the step returns because the motion controller is busy, if it does.
def settleMotion (f : Feed M) : Option ExecutionResult × Feed M :=
  let ready := MotionController.isReady f.motion
  let f     := { f with motion := ready.2 }
  if ready.1 then
    (none, f)
  else
    let r := MotionController.poll f.motionIdle f.motion
    let f := { f with motionIdle := r.2.1, motion := r.2.2 }
    match r.1 with
    | .inProgress | .accepted => (some .progressed, f)
    | .completed              => (none, f)
    | .rejected               => (some .blocked, f)
    | .faulted                => (some .faulted, f)

def feedSegment (job : Job) (heap : Heap Segment) (f : Feed M) :
    Except Crash (ExecutionResult × Feed M) :=
  let ready := MotionController.isReady f.motion
  let f     := { f with motion := ready.2 }
  if !ready.1 || f.ctx.cursor ≥ job.totalSegments then
    .ok (.progressed, f)
  else
    match job.segment? heap f.ctx.cursor with
    | none     => .error .badAccess
    | some seg =>
      let r := MotionController.submit seg.command f.motion
      let f := { f with motion := r.2, submitted := (seg.command, r.1) :: f.submitted }
      if r.1 == .faulted then
        .ok (.faulted, f)
      else
        .ok (.progressed, { f with ctx := { f.ctx with cursor := f.ctx.cursor + 1 } })

-- The rest of the step once the cursor has been checked against its last value.
def advance (job : Job) (heap : Heap Segment) (f : Feed M) :
    Except Crash (ExecutionResult × Feed M) :=
  if f.ctx.cursor ≥ job.totalSegments then
    let ready := MotionController.isReady f.motion
    .ok (if ready.1 then .completed else .blocked, { f with motion := ready.2 })
  else
    let e := f.settleExtruder
    match e.1 with
    | some r => .ok (r, e.2)
    | none   =>
      let m := e.2.settleMotion
      match m.1 with
      | some r => .ok (r, m.2)
      | none   => m.2.feedSegment job heap

end Feed

def executionStep {M : Type} [MotionController M] (job : Job) (heap : Heap Segment) (f : Feed M) :
    Except Crash (ExecutionResult × Feed M) :=
  if !f.ctx.ownedByExecutor then
    .ok (.blocked, f)
  else if f.ctx.abortInProgress then
    .ok (.blocked, f)
  else if f.ctx.phase != .running then
    .ok (.blocked, f)
  else if !f.ctx.ownedByExecutor then
    .error (.assertion .mutatedOutsideExecutor)
  else
    -- A cursor of zero starts a new epoch of the static `last_cursor`.
    let lastCursor := if f.ctx.cursor == 0 && f.ctx.phase == .running then 0 else f.lastCursor
    if f.ctx.cursor < lastCursor then
      .error (.assertion .cursorBehind)
    else
      let f := { f with lastCursor := f.ctx.cursor }
      if f.ctx.phase == .paused then
        .ok (.blocked, f)
      else
        f.advance job heap

namespace Feed

section

variable {M : Type} {job : Job} {heap : Heap Segment} {f : Feed M}

-- The step passes no command on and leaves the execution context alone.
structure Held (f f' : Feed M) : Prop where
  ctx       : f'.ctx = f.ctx
  submitted : f'.submitted = f.submitted

structure Fed (job : Job) (heap : Heap Segment) (f f' : Feed M) (seg : Segment)
    (res : MotionResult) : Prop where
  bound     : f.ctx.cursor < job.totalSegments
  segment   : job.segment? heap f.ctx.cursor = some seg
  submitted : f'.submitted = (seg.command, res) :: f.submitted
  ctx       : f'.ctx = if res = .faulted then f.ctx else { f.ctx with cursor := f.ctx.cursor + 1 }

theorem Held.trans {f₁ f₂ f₃ : Feed M} (h₁ : Held f₁ f₂) (h₂ : Held f₂ f₃) : Held f₁ f₃ where
  ctx       := h₂.ctx.trans h₁.ctx
  submitted := h₂.submitted.trans h₁.submitted

theorem Held.fed {f₁ f₂ f₃ : Feed M} (h₁ : Held f₁ f₂) (h₂ : Fed job heap f₂ f₃ seg res) :
    Fed job heap f₁ f₃ seg res where
  bound     := h₁.ctx ▸ h₂.bound
  segment   := h₁.ctx ▸ h₂.segment
  submitted := by rw [h₂.submitted, h₁.submitted]
  ctx       := by rw [h₂.ctx, h₁.ctx]

theorem settleExtruder_held : Held f f.settleExtruder.2 ∧ f.settleExtruder.1 = none := by
  simp only [settleExtruder, ExtruderControllerStub.poll]
  split <;> exact ⟨⟨rfl, rfl⟩, rfl⟩

theorem settleExtruder_motion : f.settleExtruder.2.motion = f.motion := by
  simp only [settleExtruder, ExtruderControllerStub.poll]
  split <;> rfl

theorem settleExtruder_lastCursor : f.settleExtruder.2.lastCursor = f.lastCursor := by
  simp only [settleExtruder, ExtruderControllerStub.poll]
  split <;> rfl

end

variable {M : Type} [MotionController M] {job : Job} {heap : Heap Segment} {f f' : Feed M}
  {r : ExecutionResult}

theorem settleMotion_held : Held f f.settleMotion.2 := by
  simp only [settleMotion]
  split
  · exact ⟨rfl, rfl⟩
  · split <;> exact ⟨rfl, rfl⟩

theorem settleMotion_lastCursor : f.settleMotion.2.lastCursor = f.lastCursor := by
  simp only [settleMotion]
  split
  · rfl
  · split <;> rfl

theorem settleMotion_ne_starved : f.settleMotion.1 ≠ some .starved := by
  simp only [settleMotion]
  split
  · nofun
  · split <;> nofun

theorem feedSegment_ok (h : f.feedSegment job heap = .ok (r, f')) :
    r ≠ .starved ∧ f'.lastCursor = f.lastCursor ∧
      (Held f f' ∨ ∃ seg res, Fed job heap f f' seg res) := by
  simp only [feedSegment] at h
  split at h
  case isTrue =>
    cases h
    exact ⟨nofun, rfl, .inl ⟨rfl, rfl⟩⟩
  case isFalse hc =>
    simp only [Bool.or_eq_true, decide_eq_true_eq, not_or, ge_iff_le, Nat.not_le] at hc
    cases hs : job.segment? heap f.ctx.cursor <;> simp only [hs, reduceCtorEq] at h
    case some seg =>
      split at h
      case isTrue hf =>
        cases h
        exact ⟨nofun, rfl, .inr ⟨seg, _, hc.right, hs, rfl, by simp_all⟩⟩
      case isFalse hf =>
        cases h
        exact ⟨nofun, rfl, .inr ⟨seg, _, hc.right, hs, rfl, by simp_all⟩⟩

theorem feedSegment_error {c : Crash} (h : f.feedSegment job heap = .error c) :
    c = .badAccess ∧ f.ctx.cursor < job.totalSegments ∧
      job.segment? heap f.ctx.cursor = none := by
  simp only [feedSegment] at h
  split at h
  case isTrue => cases h
  case isFalse hc =>
    simp only [Bool.or_eq_true, decide_eq_true_eq, not_or, ge_iff_le, Nat.not_le] at hc
    cases hs : job.segment? heap f.ctx.cursor <;> simp only [hs] at h
    case none => exact ⟨by cases h; rfl, hc.right, rfl⟩
    case some => split at h <;> cases h

theorem advance_ok (h : f.advance job heap = .ok (r, f')) :
    r ≠ .starved ∧ f'.lastCursor = f.lastCursor ∧
      (Held f f' ∨ ∃ seg res, Fed job heap f f' seg res) := by
  simp only [advance] at h
  split at h
  case isTrue =>
    cases h
    exact ⟨by split <;> nofun, rfl, .inl ⟨rfl, rfl⟩⟩
  case isFalse =>
    have he := settleExtruder_held (f := f)
    have hm := settleMotion_held (f := f.settleExtruder.2)
    have hl := settleMotion_lastCursor (f := f.settleExtruder.2)
    simp only [settleExtruder_lastCursor] at hl
    simp only [he.right] at h
    cases hr : f.settleExtruder.2.settleMotion.1 <;> simp only [hr] at h
    case some =>
      cases h
      exact ⟨fun hc => settleMotion_ne_starved (hc ▸ hr), hl, .inl (he.left.trans hm)⟩
    case none =>
      have ⟨hs, hl', hc⟩ := feedSegment_ok h
      refine ⟨hs, hl'.trans hl, ?_⟩
      cases hc
      case inl hc => exact .inl (he.left.trans hm |>.trans hc)
      case inr hc =>
        have ⟨seg, res, hf⟩ := hc
        exact .inr ⟨seg, res, (he.left.trans hm).fed hf⟩

theorem settleMotion_keeps {I : M → Prop} (k : MotionController.Keeps I) (h : I f.motion) :
    I f.settleMotion.2.motion := by
  simp only [settleMotion]
  split
  · exact k.isReady h
  · split <;> exact k.poll (k.isReady h)

theorem feedSegment_keeps {I : M → Prop} (k : MotionController.Keeps I) (h : I f.motion)
    (he : f.feedSegment job heap = .ok (r, f')) : I f'.motion := by
  simp only [feedSegment] at he
  split at he
  case isTrue =>
    cases he
    exact k.isReady h
  case isFalse =>
    split at he
    case h_1 => cases he
    case h_2 => split at he <;> cases he <;> exact k.submit (k.isReady h)

theorem advance_keeps {I : M → Prop} (k : MotionController.Keeps I) (h : I f.motion)
    (he : f.advance job heap = .ok (r, f')) : I f'.motion := by
  simp only [advance] at he
  split at he
  case isTrue =>
    cases he
    exact k.isReady h
  case isFalse =>
    have he' : I f.settleExtruder.2.motion := by rwa [settleExtruder_motion]
    have hm := settleMotion_keeps k he'
    have hn := settleExtruder_held (f := f)
    simp only [hn.right] at he
    split at he
    · cases he; exact hm
    · exact feedSegment_keeps k hm he

theorem advance_of_end (h : job.totalSegments ≤ f.ctx.cursor) :
    ∃ r, f.advance job heap =
      .ok (r, { f with motion := (MotionController.isReady f.motion).2 }) := by
  simp [advance, h]

theorem advance_of_ready {m₁ m₂ : M} (h : f.ctx.cursor < job.totalSegments)
    (hs : job.segment? heap f.ctx.cursor = some seg)
    (h₁ : MotionController.isReady f.motion = (true, m₁))
    (h₂ : MotionController.isReady m₁ = (true, m₂))
    (h₃ : (MotionController.submit seg.command m₂).1 = .accepted) :
    ∃ f', f.advance job heap = .ok (.progressed, f') ∧
      f'.ctx = { f.ctx with cursor := f.ctx.cursor + 1 } ∧ f'.lastCursor = f.lastCursor ∧
      f'.motion = (MotionController.submit seg.command m₂).2 := by
  have he := settleExtruder_held (f := f)
  have hl := settleExtruder_lastCursor (f := f)
  simp only [advance, Nat.not_le.mpr h, ↓reduceIte, he.right]
  rw [← settleExtruder_motion (f := f)] at h₁
  generalize f.settleExtruder.2 = e at he hl h₁
  rw [← he.left.ctx] at h hs ⊢
  simp only [settleMotion, h₁, ↓reduceIte, feedSegment, h₂, Nat.not_le.mpr h, hs, h₃]
  exact ⟨_, rfl, rfl, hl, rfl⟩

theorem advance_error {c : Crash} (h : f.advance job heap = .error c) :
    c = .badAccess ∧ f.ctx.cursor < job.totalSegments ∧
      job.segment? heap f.ctx.cursor = none := by
  simp only [advance] at h
  split at h
  case isTrue => cases h
  case isFalse =>
    have he := settleExtruder_held (f := f)
    have hm := settleMotion_held (f := f.settleExtruder.2)
    simp only [he.right] at h
    split at h
    · cases h
    · simpa only [hm.ctx, he.left.ctx] using feedSegment_error h

end Feed

variable {M : Type} [MotionController M] {job : Job} {heap : Heap Segment} {f f' : Feed M}
  {r : ExecutionResult}

structure Feed.Runs {M : Type} (f : Feed M) : Prop where
  owned   : f.ctx.ownedByExecutor = true
  abort   : f.ctx.abortInProgress = false
  running : f.ctx.phase = .running

-- The cursor is behind its last value, and this is not the start of an epoch.
def Feed.Behind {M : Type} (f : Feed M) : Prop :=
  f.ctx.cursor ≠ 0 ∧ f.ctx.cursor < f.lastCursor

theorem executionStep_behind (h : f.Runs) (hb : f.Behind) :
    executionStep job heap f = .error (.assertion .cursorBehind) := by
  simp [executionStep, h.owned, h.abort, h.running, hb.left, hb.right]

theorem executionStep_eq_advance (h : f.Runs) (hb : ¬f.Behind) :
    executionStep job heap f = Feed.advance job heap { f with lastCursor := f.ctx.cursor } := by
  simp only [executionStep, h.owned, h.abort, h.running]
  by_cases hz : f.ctx.cursor = 0
  case pos => simp [hz]
  case neg =>
    have hl : f.lastCursor ≤ f.ctx.cursor := by
      by_contra hc
      exact hb ⟨hz, by omega⟩
    simp [hz, Nat.not_lt.mpr hl]

theorem executionStep_of_not_runs (h : ¬f.Runs) : executionStep job heap f = .ok (.blocked, f) := by
  simp only [executionStep]
  split
  · rfl
  split
  · rfl
  split
  · rfl
  · exact absurd ⟨by simp_all, by simp_all, by simp_all⟩ h

theorem executionStep_ok (h : executionStep job heap f = .ok (r, f')) :
    r ≠ .starved ∧ (f'.lastCursor = f.lastCursor ∨ f'.lastCursor = f.ctx.cursor) ∧
      (f.Held f' ∨ (f'.lastCursor = f.ctx.cursor ∧ ∃ seg res, Feed.Fed job heap f f' seg res)) := by
  by_cases hr : f.Runs
  case neg =>
    cases (executionStep_of_not_runs hr).symm.trans h
    exact ⟨nofun, .inl rfl, .inl ⟨rfl, rfl⟩⟩
  case pos =>
    by_cases hb : f.Behind
    case pos => cases (executionStep_behind hr hb).symm.trans h
    case neg =>
      have ⟨hs, hl, hc⟩ := Feed.advance_ok ((executionStep_eq_advance hr hb).symm.trans h)
      refine ⟨hs, .inr hl, ?_⟩
      cases hc
      case inl hc => exact .inl ⟨hc.ctx, hc.submitted⟩
      case inr hc =>
        have ⟨seg, res, hf⟩ := hc
        exact .inr ⟨hl, seg, res, hf.bound, hf.segment, hf.submitted, hf.ctx⟩

theorem executionStep_keeps {I : M → Prop} (k : MotionController.Keeps I) (h : I f.motion)
    (he : executionStep job heap f = .ok (r, f')) : I f'.motion := by
  by_cases hr : f.Runs
  case neg =>
    cases (executionStep_of_not_runs hr).symm.trans he
    exact h
  case pos =>
    by_cases hb : f.Behind
    case pos => cases (executionStep_behind hr hb).symm.trans he
    case neg =>
      have ha := (executionStep_eq_advance hr hb).symm.trans he
      exact Feed.advance_keeps k (by exact h) ha

theorem executionStep_error {c : Crash} (h : executionStep job heap f = .error c) :
    (c = .assertion .cursorBehind ∧ f.Behind) ∨
    (c = .badAccess ∧ f.ctx.cursor < job.totalSegments ∧
      job.segment? heap f.ctx.cursor = none) := by
  by_cases hr : f.Runs
  case neg => cases (executionStep_of_not_runs hr).symm.trans h
  case pos =>
    by_cases hb : f.Behind
    case pos => cases (executionStep_behind hr hb).symm.trans h; exact .inl ⟨rfl, hb⟩
    case neg =>
      have ha := Feed.advance_error ((executionStep_eq_advance hr hb).symm.trans h)
      exact .inr ha

end Firmware
