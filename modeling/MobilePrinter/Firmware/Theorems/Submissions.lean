import MobilePrinter.Firmware.Main

open Transition

namespace Firmware

-- What the rest of the system leaves to a call of the executor: a controller that may answer in any
-- way, and the flag that the controller stores.
structure Call (M : Type) where
  motion     : M
  motionIdle : Bool := false

namespace Feed

section

variable {M : Type}

def fresh (f : Feed M) : Feed M :=
  { f with submitted := [] }

def receive (f : Feed M) (i : Call M) : Feed M :=
  { f with motion := i.motion, motionIdle := i.motionIdle }

def acceptedCommands (f : Feed M) : List MotionCommand :=
  ((f.submitted.filter (·.2 == .accepted)).map (·.1)).reverse

-- The accepted commands are those of the segments from `start` up to the cursor, in order.
structure AcceptedFrom (job : Job) (heap : Heap Segment) (start : Nat) (f : Feed M) : Prop where
  start_le : start ≤ f.ctx.cursor
  commands : f.acceptedCommands.map some =
    (List.range' start (f.ctx.cursor - start)).map fun index =>
      (job.segment? heap index).map Segment.command

variable {job : Job} {heap : Heap Segment} {f f' : Feed M} {start : Nat}

theorem acceptedCommands_cons {c : MotionCommand} {res : MotionResult}
    (h : f'.submitted = (c, res) :: f.submitted) : f'.acceptedCommands =
      if res = .accepted then f.acceptedCommands ++ [c] else f.acceptedCommands := by
  cases res <;> simp [acceptedCommands, h]

theorem AcceptedFrom.length (a : AcceptedFrom job heap start f) :
    start + f.acceptedCommands.length = f.ctx.cursor := by
  have h := congrArg List.length a.commands
  rw [List.length_map, List.length_map, List.length_range'] at h
  have hs := a.start_le
  omega

theorem AcceptedFrom.held (a : AcceptedFrom job heap start f) (hs : f'.submitted = f.submitted)
    (hc : f'.ctx.cursor = f.ctx.cursor) : AcceptedFrom job heap start f' := by
  have ha : f'.acceptedCommands = f.acceptedCommands := by
    rw [acceptedCommands, hs, acceptedCommands]
  exact ⟨hc ▸ a.start_le, by rw [ha, hc, a.commands]⟩

-- A segment that is passed on keeps the accepted commands in step with the cursor if it is
-- accepted, or if the controller faults.
theorem AcceptedFrom.fed (a : AcceptedFrom job heap start f) (h : Fed job heap f f' seg res) :
    AcceptedFrom job heap start f' ↔ res = .accepted ∨ res = .faulted := by
  have hs := acceptedCommands_cons h.submitted
  by_cases hf : res = .faulted
  case pos =>
    subst hf
    have hc : f'.ctx.cursor = f.ctx.cursor := by rw [h.ctx, if_pos rfl]
    rw [if_neg nofun] at hs
    exact iff_of_true ⟨hc ▸ a.start_le, by rw [hs, hc, a.commands]⟩ (.inr rfl)
  case neg =>
    have hc : f'.ctx.cursor = f.ctx.cursor + 1 := by rw [h.ctx, if_neg hf]
    by_cases ha : res = .accepted
    case pos =>
      rw [if_pos ha] at hs
      refine iff_of_true ⟨hc ▸ Nat.le_succ_of_le a.start_le, ?_⟩ (.inl ha)
      have hl := a.start_le
      rw [hs, hc, Nat.sub_add_comm hl, List.range'_1_concat, List.map_append, List.map_append,
        a.commands, Nat.add_sub_cancel' hl]
      simp [h.segment]
    case neg =>
      rw [if_neg ha] at hs
      refine iff_of_false (fun a' => ?_) (not_or.mpr ⟨ha, hf⟩)
      have hl := a'.length
      rw [hs, hc, a.length] at hl
      omega

end

variable {M : Type} [MotionController M]

def call (job : Job) (heap : Heap Segment) (i : Call M) (f : Feed M) : Except Crash (Feed M) :=
  (executionStep job heap (f.receive i)).map (·.2)

-- The answer of the controller to the segment under the cursor, if it is asked.
def answer? (job : Job) (heap : Heap Segment) (f : Feed M) : Option MotionResult :=
  let r     := f.settleMotion
  let ready := MotionController.isReady r.2.motion
  if r.1.isNone && ready.1 then
    (job.segment? heap f.ctx.cursor).map fun seg => (MotionController.submit seg.command ready.2).1
  else
    none

-- If the controller is asked in the call, it accepts the segment or faults.
def Answered (job : Job) (heap : Heap Segment) (i : Call M) (f : Feed M) : Prop :=
  f.ctx.cursor < job.totalSegments → (f.receive i).Runs →
    ∀ res ∈ (f.receive i).answer? job heap, res = .accepted ∨ res = .faulted

-- A call in which the controller rejects a segment or faults leaves the cursor where it is.
def Stays (job : Job) (heap : Heap Segment) (i : Call M) (f : Feed M) : Prop :=
  ∀ f', f.call job heap i = .ok f' → ∀ command res,
    f'.submitted = (command, res) :: f.submitted → res = .rejected ∨ res = .faulted →
      f'.ctx.cursor = f.ctx.cursor

variable {job : Job} {heap : Heap Segment} {f f' : Feed M} {i : Call M} {r : ExecutionResult}

theorem feedSegment_answer (h : f.feedSegment job heap = .ok (r, f'))
    (hc : f.ctx.cursor < job.totalSegments) :
    (Held f f' ∧ (MotionController.isReady f.motion).1 = false) ∨
    ∃ seg res, Fed job heap f f' seg res ∧ (MotionController.isReady f.motion).1 = true ∧
      (MotionController.submit seg.command (MotionController.isReady f.motion).2).1 = res := by
  simp only [feedSegment] at h
  split at h
  case isTrue hr =>
    cases h
    refine .inl ⟨⟨rfl, rfl⟩, ?_⟩
    simpa [Nat.not_le.mpr hc] using hr
  case isFalse hr =>
    have hr : (MotionController.isReady f.motion).1 = true := by
      simpa [Nat.not_le.mpr hc] using hr
    cases hs : job.segment? heap f.ctx.cursor <;> simp only [hs, reduceCtorEq] at h
    case some seg =>
      refine .inr ⟨seg, _, ?_, hr, rfl⟩
      split at h
      case isTrue hf  => cases h; exact ⟨hc, hs, rfl, by simp_all⟩
      case isFalse hf => cases h; exact ⟨hc, hs, rfl, by simp_all⟩

theorem answer?_congr {g : Feed M} (hm : f.motion = g.motion) (hi : f.motionIdle = g.motionIdle)
    (hc : f.ctx = g.ctx) : f.answer? job heap = g.answer? job heap := by
  simp only [answer?, settleMotion, hm, hi, hc]
  split
  case isTrue => rfl
  case isFalse => split <;> rfl

theorem settleExtruder_answer? : f.settleExtruder.2.answer? job heap = f.answer? job heap := by
  apply answer?_congr settleExtruder_motion
  case hi => simp only [settleExtruder, ExtruderControllerStub.poll]; split <;> rfl
  case hc => exact settleExtruder_held.left.ctx

theorem advance_answer (h : f.advance job heap = .ok (r, f'))
    (hc : f.ctx.cursor < job.totalSegments) :
    (Held f f' ∧ f.answer? job heap = none) ∨
    ∃ seg res, Fed job heap f f' seg res ∧ f.answer? job heap = some res := by
  have he := settleExtruder_held (f := f)
  have hm := settleMotion_held (f := f.settleExtruder.2)
  simp only [advance, Nat.not_le.mpr hc, if_false, he.right] at h
  rw [← settleExtruder_answer?]
  cases hr : f.settleExtruder.2.settleMotion.1 <;> simp only [hr] at h
  case some =>
    cases h
    exact .inl ⟨he.left.trans hm, by simp [answer?, hr]⟩
  case none =>
    have hx := (he.left.trans hm).ctx
    cases feedSegment_answer h (hx ▸ hc)
    case inl hf => exact .inl ⟨(he.left.trans hm).trans hf.left, by simp [answer?, hf.right]⟩
    case inr hf =>
      obtain ⟨seg, res, hf, hy, hs⟩ := hf
      refine .inr ⟨seg, res, (he.left.trans hm).fed hf, ?_⟩
      have hseg := hf.segment
      rw [hm.ctx] at hseg
      simp [answer?, hr, hy, hseg, hs]

theorem executionStep_answer (h : executionStep job heap f = .ok (r, f')) (hr : f.Runs)
    (hc : f.ctx.cursor < job.totalSegments) :
    (Held f f' ∧ f.answer? job heap = none) ∨
    ∃ seg res, Fed job heap f f' seg res ∧ f.answer? job heap = some res := by
  by_cases hb : f.Behind
  case pos => cases (executionStep_behind hr hb).symm.trans h
  case neg =>
    have hq : f.answer? job heap = answer? job heap { f with lastCursor := f.ctx.cursor } :=
      answer?_congr rfl rfl rfl
    cases advance_answer ((executionStep_eq_advance hr hb).symm.trans h) hc
    case inl hn => exact .inl ⟨⟨hn.left.ctx, hn.left.submitted⟩, hq.trans hn.right⟩
    case inr hs =>
      have ⟨seg, res, hf, hres⟩ := hs
      exact .inr ⟨seg, res, ⟨hf.bound, hf.segment, hf.submitted, hf.ctx⟩, hq.trans hres⟩

theorem call_ok (h : f.call job heap i = .ok f') :
    (Held f f' ∧ f.Answered job heap i) ∨
    ∃ seg res, Fed job heap f f' seg res ∧
      (f.Answered job heap i ↔ res = .accepted ∨ res = .faulted) := by
  have ⟨_, he, hf⟩ := map_eq_ok.mp h
  subst hf
  by_cases hr : (f.receive i).Runs
  case neg =>
    cases (executionStep_of_not_runs hr).symm.trans he
    exact .inl ⟨⟨rfl, rfl⟩, fun _ h => absurd h hr⟩
  case pos =>
    by_cases hc : f.ctx.cursor < job.totalSegments
    case neg =>
      cases (executionStep_ok he).right.right
      case inl hh => exact .inl ⟨⟨hh.ctx, hh.submitted⟩, fun h => absurd h hc⟩
      case inr hh =>
        have ⟨_, _, _, hf⟩ := hh
        exact absurd hf.bound hc
    case pos =>
      cases executionStep_answer he hr hc
      case inl hh =>
        refine .inl ⟨⟨hh.left.ctx, hh.left.submitted⟩, fun _ _ res hres => ?_⟩
        cases hh.right.symm.trans hres
      case inr hh =>
        have ⟨seg, res, hf, hres⟩ := hh
        refine .inr ⟨seg, res, ⟨hf.bound, hf.segment, hf.submitted, hf.ctx⟩, ?_⟩
        constructor
        case mp => exact fun h => h hc hr res hres
        case mpr =>
          intro h _ _ res' hres'
          cases hres.symm.trans hres'
          exact h

theorem call_stays (h : f.Answered job heap i) : f.Stays job heap i := by
  intro f' hf command res hs hr
  cases call_ok hf
  case inl hh =>
    have hl := congrArg List.length (hh.left.submitted.symm.trans hs)
    simp at hl
  case inr hh =>
    have ⟨seg, res', hf, ha⟩ := hh
    cases hf.submitted.symm.trans hs
    have hf' : res = .faulted := by
      cases ha.mp h
      case inl hacc => cases hacc; simp at hr
      case inr hflt => exact hflt
    rw [hf.ctx, if_pos hf']

end Feed

open Feed

-- Over any sequence of calls, the commands that the controller has accepted are those of the
-- segments that the cursor has passed, and it passes none that is rejected, exactly if the
-- controller accepts every segment that it is asked to take, or faults.
theorem accepts_passed_iff {M : Type} [MotionController M] (job : Job) (heap : Heap Segment)
    (f : Feed M) (calls : List (Call M)) :
    (Always (call job heap) (AcceptedFrom job heap f.ctx.cursor) f.fresh calls ∧
      Along (call job heap) (Stays job heap) f.fresh calls) ↔
    Along (call job heap) (Answered job heap) f.fresh calls := by
  have h₀ : AcceptedFrom job heap f.ctx.cursor f.fresh :=
    ⟨Nat.le_refl _, by simp [acceptedCommands, fresh]⟩
  have ha : Always (call job heap) (AcceptedFrom job heap f.ctx.cursor) f.fresh calls ↔
      Along (call job heap) (Answered job heap) f.fresh calls := by
    refine always_iff_along (I := AcceptedFrom job heap f.ctx.cursor) (fun a => a) ?step ?back h₀
    case step =>
      intro i g g' a hp hg
      cases call_ok hg
      case inl hh => exact a.held hh.left.submitted (by rw [hh.left.ctx])
      case inr hh =>
        have ⟨_, _, hf, hres⟩ := hh
        exact (a.fed hf).mpr (hres.mp hp)
    case back =>
      intro i g g' a a' hg
      cases call_ok hg
      case inl hh => exact hh.right
      case inr hh =>
        have ⟨_, _, hf, hres⟩ := hh
        exact hres.mpr ((a.fed hf).mp a')
  rw [ha]
  exact and_iff_left_of_imp fun hp => hp.mono call_stays

-- The executor reports that it is busy behind the second check of `is_ready`, and before the one in
-- `submit`.
theorem accepts_passed_fails : ¬∀ job heap (f : Feed RosMotion) (calls : List (Call RosMotion)),
    Always (call job heap) (AcceptedFrom job heap f.ctx.cursor) f.fresh calls ∧
      Along (call job heap) (Stays job heap) f.fresh calls := by
  intro hc
  have h := hc { totalSegments := 1, segments := some 0 }
    (Heap.empty.alloc (decodeSegments 1 (List.replicate segmentSize 0)))
    { ctx        := { ownedByExecutor := true, phase := .running }
      lastCursor := 0
      motion     := {}
      motionIdle := false
      extruder   := {} }
    [{ motion := { schedule :=
        List.replicate 10 {} ++ [{ callbacks := [.motionStatus false 0 0 1], now := 1 }] } }]
  have hs := (h.right _ rfl).left _ rfl _ _ rfl (.inl rfl)
  cases hs

end Firmware
