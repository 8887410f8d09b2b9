import Mathlib.Algebra.Order.Archimedean.Real.Basic
import MobilePrinter.Executor.Theorems.Authority
import MobilePrinter.Executor.Theorems.Velocity

namespace Executor

open Transition Approach

variable {R : Type*}

def Event.completed? : Event R → Option UInt32
  | .completed segmentId => some segmentId
  | _                    => none

-- Every target is within the soft limits of its axis.
def QueuedSegment.InLimit (seg : QueuedSegment ℝ) : Prop :=
  ∀ (i : Nat) name t, seg.jointNames[i]? = some name → seg.qTarget[i]? = some t → Within name t

namespace MotionExecutor

def completions (s : MotionExecutor R) : List UInt32 :=
  s.published.reverse.filterMap Event.completed?

theorem completions_of {s s' : MotionExecutor R} (h : s'.published = e :: s.published) :
    s'.completions = s.completions ++ e.completed?.toList := by
  cases e <;> simp [completions, h, Event.completed?]

def ticks [Arithmetic R] (strays : Nat → Stray R) : Nat → MotionExecutor R → MotionExecutor R
  | 0,     s => s
  | n + 1, s => ticks (fun k => strays (k + 1)) n (s.controlLoop (strays 0))

-- A structural axis is at the position `q` and has the target `t`.
def Gap (s : MotionExecutor ℝ) (t q : ℝ) : Prop :=
  ∃ (i : Nat) (name : String), s.jointNames[i]? = some name ∧ isStructuralAxis ℝ name ∧
    s.qTarget[i]? = some t ∧ s.qCurrent[i]? = some q

noncomputable def structuralErrors (s : MotionExecutor ℝ) : List ℝ :=
  ((s.jointNames.zip (s.qTarget.zip s.qCurrent)).filter (isStructuralAxis ℝ ·.1)).map
    fun (_, t, q) => |t - q|

noncomputable def ticksNeeded (s : MotionExecutor ℝ) : Nat :=
  max 1 ⌈s.structuralErrors.foldr max 0 / (s.maxVelocity * controlPeriod)⌉₊

-- The segment that is executed names a joint, and it has a positive velocity, unless it has none to
-- go.
def Completable (seg : QueuedSegment ℝ) (s : MotionExecutor ℝ) : Prop :=
  seg.jointNames ≠ [] ∧ (0 < seg.vMax ∨ ∀ t q, Gap s t q → seg.vMax = 0 ∧ t = q)

-- The same for a segment that starts where the previous one has ended.
def Startable (previous seg : QueuedSegment ℝ) : Prop :=
  seg.jointNames ≠ [] ∧ (0 < seg.vMax ∨ ∀ (i : Nat) name, seg.jointNames[i]? = some name →
    isStructuralAxis ℝ name → seg.vMax = 0 ∧ previous.qTarget[i]? = seg.qTarget[i]?)

def AllStartable : QueuedSegment ℝ → List (QueuedSegment ℝ) → Prop
  | _, []                => True
  | previous, seg :: segs => Startable previous seg ∧ AllStartable seg segs

-- However the reads past the end of a vector fall out, the segment is completed within `n` ticks.
def FinishesWithin (n : Nat) (seg : QueuedSegment ℝ) (s : MotionExecutor ℝ) : Prop :=
  ∀ strays, ∃ k, 0 < k ∧ k ≤ n ∧
    (ticks strays k s).completions = s.completions ++ [seg.segmentId]

-- All that was waiting in `s` behind the segment has been executed and completed.
structure Drained (seg : QueuedSegment ℝ) (s s' : MotionExecutor ℝ) : Prop where
  idle        : s'.execState = .idle
  queue       : s'.segmentQueue = []
  executed    : s'.executed = s.executed ++ s.segmentQueue
  completions : s'.completions = s.completions ++ (seg :: s.segmentQueue).map (·.segmentId)

def Drains (seg : QueuedSegment ℝ) (s : MotionExecutor ℝ) : Prop :=
  ∀ strays, ∃ n, Drained seg s (ticks strays n s)

variable {s s' : MotionExecutor ℝ} {seg : QueuedSegment ℝ} {i : Nat}

theorem gap_of (hx : Executes seg s) (hm : seg.Matched) (hn : s.jointNames[i]? = some name)
    (hs : isStructuralAxis ℝ name) :
    ∃ t q, s.qTarget[i]? = some t ∧ s.qCurrent[i]? = some q ∧ Gap s t q := by
  have hi := (List.getElem?_eq_some_iff.mp hn).choose
  have hc : i < s.qCurrent.length := hx.current ▸ hi
  have ht : i < s.qTarget.length := by
    rw [hx.target, ← hm, ← hx.names]
    exact hi
  have hc := List.getElem?_eq_getElem hc
  have ht := List.getElem?_eq_getElem ht
  exact ⟨_, _, ht, hc, i, name, hn, hs, ht, hc⟩

theorem abs_mem_structuralErrors (h : Gap s t q) : |t - q| ∈ s.structuralErrors := by
  obtain ⟨i, name, hn, hs, ht, hq⟩ := h
  refine List.mem_map.mpr ⟨(name, t, q), List.mem_filter.mpr ⟨?_, hs⟩, rfl⟩
  apply List.mem_of_getElem? (i := i)
  exact List.getElem?_zip_eq_some.mpr ⟨hn, List.getElem?_zip_eq_some.mpr ⟨ht, hq⟩⟩

theorem le_foldr_max {xs : List ℝ} (h : x ∈ xs) : x ≤ xs.foldr max 0 := by
  induction xs
  case nil => cases h
  case cons y ys ih =>
    cases h
    case head   => exact le_max_left _ _
    case tail h => exact (ih h).trans (le_max_right _ _)

theorem abs_le_ticksNeeded (hv : 0 < s.maxVelocity) (h : Gap s t q) :
    |t - q| ≤ s.ticksNeeded * (s.maxVelocity * controlPeriod) := by
  have hp : 0 < s.maxVelocity * controlPeriod := mul_pos hv controlPeriod_pos
  apply (le_foldr_max (abs_mem_structuralErrors h)).trans
  rw [← div_le_iff₀ hp]
  exact (Nat.le_ceil _).trans (Nat.cast_le.mpr (le_max_right _ _))

theorem command_done (hs : isStructuralAxis ℝ name) :
    (s.command stray i name).2 = true ↔
      |read s.qTarget stray.target i - s.qCurrent.getD i 0.0| ≤ s.maxVelocity * controlPeriod := by
  simp only [command, hs, if_true, magnitude_eq]
  split
  case isTrue h  => simpa using h
  case isFalse h => simpa using h

theorem all_commands_iff (hx : Executes seg s) (hm : seg.Matched) :
    (s.commands stray).all (·.2) = true ↔
      ∀ t q, Gap s t q → |t - q| ≤ s.maxVelocity * controlPeriod := by
  constructor
  case mp =>
    rintro h t q ⟨i, name, hn, hs, ht, hq⟩
    have hc : (s.commands stray)[i]? = some (s.command stray i name) := by
      simp [commands, List.getElem?_mapIdx, hn]
    have h := (command_done hs).mp (List.all_eq_true.mp h _ (List.mem_of_getElem? hc))
    rwa [read_of_some ht, List.getD_eq_getElem?_getD, hq] at h
  case mpr =>
    intro h
    refine List.all_eq_true.mpr fun c hc => ?_
    obtain ⟨i, hi, rfl⟩ := List.mem_mapIdx.mp hc
    cases hs : isStructuralAxis ℝ s.jointNames[i]
    case false => simp [command, hs]
    case true =>
      obtain ⟨t, q, ht, hq, hg⟩ := gap_of hx hm (List.getElem?_eq_getElem hi) hs
      rw [command_done hs, read_of_some ht, List.getD_eq_getElem?_getD, hq]
      exact h t q hg

theorem gap_move_iff (hx : Executes seg s) (hm : seg.Matched) :
    Gap (s.move ((s.commands stray).map (·.1))) t q' ↔
      ∃ q, Gap s t q ∧ q' = approach (s.maxVelocity * controlPeriod) t q := by
  constructor
  case mp =>
    rintro ⟨i, name, hn, hs, ht, hq⟩
    have ⟨t', q, ht', hq', hg⟩ := gap_of hx hm hn hs
    cases ht'.symm.trans ht
    cases (getElem?_commands (s := s) hn).symm.trans hq
    refine ⟨q, hg, ?_⟩
    rw [command_eq hs, read_of_some ht', List.getD_eq_getElem?_getD, hq', Option.getD_some]
  case mpr =>
    rintro ⟨q, ⟨i, name, hn, hs, ht, hq⟩, rfl⟩
    refine ⟨i, name, hn, hs, ht, (getElem?_commands hn).trans ?_⟩
    rw [command_eq hs, read_of_some ht, List.getD_eq_getElem?_getD, hq, Option.getD_some]

structure Moved (s s' : MotionExecutor ℝ) : Prop where
  running     : s'.execState = .running
  names       : s'.jointNames = s.jointNames
  queue       : s'.segmentQueue = s.segmentQueue
  axes        : s'.axisRuntime = s.axisRuntime
  executed    : s'.executed = s.executed
  completions : s'.completions = s.completions

namespace Moved

theorem refl (hr : s.execState = .running) : Moved s s :=
  ⟨hr, rfl, rfl, rfl, rfl, rfl⟩

theorem trans (h₁ : Moved s₁ s₂) (h₂ : Moved s₂ s₃) : Moved s₁ s₃ where
  running     := h₂.running
  names       := h₂.names.trans h₁.names
  queue       := h₂.queue.trans h₁.queue
  axes        := h₂.axes.trans h₁.axes
  executed    := h₂.executed.trans h₁.executed
  completions := h₂.completions.trans h₁.completions

theorem move (hr : s.execState = .running) : Moved s (s.move commanded) where
  running     := hr
  names       := rfl
  queue       := rfl
  axes        := rfl
  executed    := by rw [executed_of (s := s) rfl]; exact List.append_nil _
  completions := by rw [completions_of (s := s) rfl]; exact List.append_nil _

end Moved

theorem controlLoop_of_not_done (hr : s.execState = .running) (hj : s.jointNames ≠ [])
    (h : ¬(s.commands stray).all (·.2) = true) :
    s.controlLoop stray = s.move ((s.commands stray).map (·.1)) := by
  simp only [controlLoop, hr, hj, h, ne_eq, not_true, if_false, Bool.false_eq_true]

theorem controlLoop_of_done (hr : s.execState = .running) (hj : s.jointNames ≠ [])
    (h : (s.commands stray).all (·.2) = true) :
    s.controlLoop stray =
      ((s.move ((s.commands stray).map (·.1))).publish
        (.completed s.activeSegmentId)).startNextSegment stray := by
  simp only [controlLoop, hr, hj, h, ne_eq, not_true, if_false, if_true]
  split
  case isTrue => rfl
  case isFalse hq =>
    have hq : s.segmentQueue = [] := by simpa [publish, move] using hq
    simp only [startNextSegment, publish, move, hq]

-- Each axis is one step from its target at most.
def Close (s : MotionExecutor ℝ) : Prop :=
  ∀ t q, Gap s t q → |t - q| ≤ s.maxVelocity * controlPeriod

-- A segment that is at most `n + 1` steps from its targets is close to them after `n` ticks.
theorem arrives {n : Nat} (hx : Executes seg s) (hr : s.execState = .running) (hm : seg.Matched)
    (hj : seg.jointNames ≠ []) (hv : 0 ≤ s.maxVelocity)
    (hg : ∀ t q, Gap s t q → |t - q| ≤ (n + 1) * (s.maxVelocity * controlPeriod))
    (strays : Nat → Stray ℝ) :
    ∃ k ≤ n, Moved s (ticks strays k s) ∧ Executes seg (ticks strays k s) ∧
      Close (ticks strays k s) := by
  induction n generalizing s strays
  case zero =>
    refine ⟨0, le_rfl, .refl hr, hx, fun t q h => ?_⟩
    have hg := hg t q h
    rwa [Nat.cast_zero, zero_add, one_mul] at hg
  case succ n ih =>
    by_cases hd : (s.commands (strays 0)).all (·.2) = true
    case pos => exact ⟨0, Nat.zero_le _, .refl hr, hx, (all_commands_iff hx hm).mp hd⟩
    case neg =>
      have hc := controlLoop_of_not_done hr (hx.names ▸ hj) hd
      have hp := mul_nonneg hv controlPeriod_pos.le
      have hg' (t q) (h : Gap (s.controlLoop (strays 0)) t q) :
          |t - q| ≤ (n + 1) * (s.maxVelocity * controlPeriod) := by
        rw [hc, gap_move_iff hx hm] at h
        obtain ⟨q, h, rfl⟩ := h
        have hg := hg t q h
        rw [Nat.cast_add_one, add_one_mul] at hg
        exact abs_sub_approach_le hg (by positivity)
      rw [hc] at hg'
      have ⟨k, hk, hm, hx, hg⟩ := ih hx.move hr hv hg' (fun k => strays (k + 1))
      rw [← hc] at hm hx hg
      exact ⟨k + 1, Nat.succ_le_succ hk, (hc ▸ Moved.move hr).trans hm, hx, hg⟩

theorem ticks_succ (strays : Nat → Stray ℝ) (n : Nat) (s : MotionExecutor ℝ) :
    ticks strays (n + 1) s = (ticks strays n s).controlLoop (strays n) := by
  induction n generalizing s strays
  case zero       => rfl
  case succ n ih => exact ih (fun k => strays (k + 1)) (s.controlLoop (strays 0))

theorem Starts.completions_eq (h : Starts stray s s') : s'.completions = s.completions := by
  cases h
  case drained => rfl
  case refused => rw [completions_of (s := s) rfl]; exact List.append_nil _
  case latched => rw [completions_of (s := s) rfl]; exact List.append_nil _
  case executes => rw [completions_of (s := s) rfl]; exact List.append_nil _

theorem completions_controlLoop (hx : Executes seg s) (hr : s.execState = .running)
    (hm : seg.Matched) (hj : seg.jointNames ≠ []) (hc : Close s) (stray : Stray ℝ) :
    (s.controlLoop stray).completions = s.completions ++ [seg.segmentId] := by
  rw [controlLoop_of_done hr (hx.names ▸ hj) ((all_commands_iff hx hm).mpr hc),
    (startNextSegment_starts stray _).completions_eq, completions_of rfl,
    (Moved.move hr).completions, hx.active]
  rfl

theorem one_le_ticksNeeded : 1 ≤ s.ticksNeeded :=
  le_max_left _ _

theorem arrives_of_completable (hx : Executes seg s) (hr : s.execState = .running)
    (hm : seg.Matched) (h : Completable seg s) (strays : Nat → Stray ℝ) :
    ∃ k < s.ticksNeeded, Moved s (ticks strays k s) ∧ Executes seg (ticks strays k s) ∧
      Close (ticks strays k s) := by
  obtain ⟨hj, hv | h⟩ := h
  case inl =>
    rw [← hx.velocity] at hv
    obtain ⟨n, hn⟩ := Nat.exists_eq_add_of_le' (one_le_ticksNeeded (s := s))
    have hg (t q) (h : Gap s t q) : |t - q| ≤ (n + 1) * (s.maxVelocity * controlPeriod) := by
      have h := abs_le_ticksNeeded hv h
      rwa [hn, Nat.cast_add_one] at h
    have ⟨k, hk, h⟩ := arrives hx hr hm hj hv.le hg strays
    exact ⟨k, hn ▸ Nat.lt_succ_of_le hk, h⟩
  case inr =>
    refine ⟨0, one_le_ticksNeeded, .refl hr, hx, fun t q hg => ?_⟩
    have ⟨hv, ht⟩ := h t q hg
    rw [ticks, hx.velocity, hv, ht, sub_self, abs_zero, zero_mul]

theorem finishes_of_completable (hx : Executes seg s) (hr : s.execState = .running)
    (hm : seg.Matched) (h : Completable seg s) : FinishesWithin s.ticksNeeded seg s := by
  intro strays
  have ⟨k, hk, hmv, hx, hc⟩ := arrives_of_completable hx hr hm h strays
  refine ⟨k + 1, k.succ_pos, hk, ?_⟩
  rw [ticks_succ, completions_controlLoop hx hmv.running hm h.left hc _, hmv.completions]

theorem controlLoop_of_no_joints (hj : s.jointNames = []) : s.controlLoop stray = s := by
  simp only [controlLoop, hj, if_true, ite_self]

-- A segment that cannot be completed is executed forever.
theorem stuck (hx : Executes seg s) (hr : s.execState = .running) (hm : seg.Matched)
    (h : ¬Completable seg s) (strays : Nat → Stray ℝ) (n : Nat) :
    Moved s (ticks strays n s) := by
  induction n generalizing s strays
  case zero => exact .refl hr
  case succ n ih =>
    by_cases hj : seg.jointNames = []
    case pos =>
      rw [ticks, controlLoop_of_no_joints (hx.names.trans hj)]
      exact ih hx hr h _
    case neg =>
      have ⟨hv, hg⟩ := not_or.mp fun hv => h ⟨hj, hv⟩
      rw [not_lt] at hv
      obtain ⟨t, q, hg, ht⟩ : ∃ t q, Gap s t q ∧ (seg.vMax = 0 → t ≠ q) := by
        simpa only [not_forall, not_and, exists_prop] using hg
      have hn : ¬|t - q| ≤ s.maxVelocity * controlPeriod := by
        rw [hx.velocity, not_le]
        cases hv.lt_or_eq
        case inl hv =>
          exact (mul_neg_of_neg_of_pos hv controlPeriod_pos).trans_le (abs_nonneg _)
        case inr hv =>
          rw [hv, zero_mul]
          exact abs_pos.mpr (sub_ne_zero.mpr (ht hv))
      have hd : ¬(s.commands (strays 0)).all (·.2) = true :=
        fun hd => hn ((all_commands_iff hx hm).mp hd t q hg)
      rw [ticks, controlLoop_of_not_done hr (hx.names ▸ hj) hd]
      refine (Moved.move hr).trans (ih hx.move hr ?_ _)
      rintro ⟨_, hp | hp⟩
      case inl => exact absurd hp (not_lt.mpr hv)
      case inr =>
        have ⟨hv, ht'⟩ := hp _ _ ((gap_move_iff hx hm).mpr ⟨q, hg, rfl⟩)
        rw [hx.velocity, hv, zero_mul, approach_zero] at ht'
        exact ht hv ht'

theorem finishesWithin_iff (hx : Executes seg s) (hr : s.execState = .running)
    (hm : seg.Matched) : (∃ n, FinishesWithin n seg s) ↔ Completable seg s := by
  constructor
  case mp =>
    rintro ⟨n, hf⟩
    by_contra h
    have ⟨k, _, _, hc⟩ := hf fun _ => still
    rw [(stuck hx hr hm h _ k).completions] at hc
    simp at hc
  case mpr => exact fun h => ⟨_, finishes_of_completable hx hr hm h⟩

theorem no_violation (hm : seg.Matched) (hl : seg.InLimit) :
    seg.softLimitViolation? stray = none := by
  rw [QueuedSegment.softLimitViolation?, Option.map_eq_none_iff, List.find?_eq_none]
  rintro ⟨name, i⟩ hn
  have hn := List.mem_zipIdx_iff_getElem?.mp hn
  have ht := List.getElem?_eq_getElem (hm ▸ (List.getElem?_eq_some_iff.mp hn).choose)
  cases hc : (axisConfig name : Option (AxisConfig ℝ))
  case none => simp [hc]
  case some cfg =>
    have h := hl i name _ hn ht cfg hc
    simpa [hc, read_of_some ht] using h

-- The segment `seg` has been started at the targets of the previous one, `segs` is waiting, and the
-- segments of `done` have been completed.
structure Started (seg : QueuedSegment ℝ) (segs : List (QueuedSegment ℝ)) (previous : List ℝ)
    (done : List UInt32) (stray : Stray ℝ) (s s' : MotionExecutor ℝ) : Prop where
  executes    : Executes seg s'
  running     : s'.execState = .running
  queue       : s'.segmentQueue = segs
  authorized  : ∀ r : QueuedSegment ℝ, r.Authorized s.axisRuntime → r.Authorized s'.axisRuntime
  executed    : s'.executed = s.executed ++ [seg]
  completions : s'.completions = s.completions ++ done
  start       : s'.qCurrent = seg.jointNames.mapIdx fun i _ => read previous stray.previous i

theorem Starts.started (h : Starts stray s s') (hq : s.segmentQueue = seg :: segs)
    (ha : seg.Authorized s.axisRuntime) (hv : seg.softLimitViolation? stray = none)
    (hf : s.firstSegment = false) : Started seg segs s.qTargetPrevious [] stray s s' := by
  obtain ⟨axes, ha⟩ := AxisRuntimes.authorize_of_not_refused ha
  have hc := h.completions_eq
  cases h
  case drained hd => cases hq.symm.trans hd
  case refused hd hr =>
    cases hq.symm.trans hd
    cases ha.symm.trans hr
  case latched hd _ hl =>
    cases hq.symm.trans hd
    cases hv.symm.trans hl
  case executes hd hr _ =>
    cases hq.symm.trans hd
    cases ha.symm.trans hr
    refine ⟨.execute rfl rfl rfl, rfl, rfl, fun _ ha' name hn => ?_, ?_, ?_, ?_⟩
    case refine_1 =>
      have hr : ¬(axes.entry name).Refused := by
        rw [AxisRuntimes.entry_authorize ha]
        exact ha' name hn
      exact AxisRuntimes.not_refused_arm hr
    case refine_2 => exact executed_of (s := s) (e := .executing seg) rfl
    case refine_3 => rw [hc, List.append_nil]
    case refine_4 => simp [execute, position, publish, startPositions, load, hf]

theorem executed_completed :
    ((s.move commanded).publish (.completed segmentId)).executed = s.executed := by
  rw [executed_of rfl, executed_of (s := s) rfl]
  simp [Event.executing?]

theorem started_controlLoop (hx : Executes seg s) (hr : s.execState = .running) (hm : seg.Matched)
    (hj : seg.jointNames ≠ []) (hc : Close s) (hq : s.segmentQueue = seg' :: segs)
    (hm' : seg'.Matched) (ha : seg'.Authorized s.axisRuntime) (hl : seg'.InLimit)
    (stray : Stray ℝ) :
    Started seg' segs seg.qTarget [seg.segmentId] stray s (s.controlLoop stray) := by
  have hd := completions_controlLoop hx hr hm hj hc stray
  rw [controlLoop_of_done hr (hx.names ▸ hj) ((all_commands_iff hx hm).mpr hc)] at hd ⊢
  have h := (startNextSegment_starts stray _).started (s := (s.move ((s.commands stray).map
    (·.1))).publish (.completed s.activeSegmentId)) hq ha (no_violation hm' hl) hx.first
  refine ⟨h.executes, h.running, h.queue, h.authorized, ?_, hd, ?_⟩
  case refine_1 => rw [h.executed, executed_completed]
  case refine_2 => rw [h.start, ← hx.previous]; rfl

namespace Started

theorem of_moved (h : Started seg segs previous done stray s' s₁) (hm : Moved s s') :
    Started seg segs previous done stray s s₁ where
  executes    := h.executes
  running     := h.running
  queue       := h.queue
  authorized  := hm.axes ▸ h.authorized
  executed    := by rw [h.executed, hm.executed]
  completions := by rw [h.completions, hm.completions]
  start       := h.start

theorem gap_iff (h : Started seg segs previous done stray s s') :
    Gap s' t q ↔ ∃ (i : Nat) (name : String), seg.jointNames[i]? = some name ∧
      isStructuralAxis ℝ name ∧ seg.qTarget[i]? = some t ∧ q = read previous stray.previous i := by
  rw [Gap, h.executes.names, h.executes.target, h.start]
  refine exists₂_congr fun i name => ?_
  refine and_congr_right fun hn => and_congr_right fun _ => and_congr_right fun _ => ?_
  rw [List.getElem?_mapIdx, hn, Option.map_some, Option.some.injEq, eq_comm]

theorem completable {previous : QueuedSegment ℝ}
    (h : Started seg segs previous.qTarget done stray s s') (hs : Startable previous seg) :
    Completable seg s' := by
  refine ⟨hs.left, hs.right.imp_right fun hs t q hg => ?_⟩
  obtain ⟨i, name, hn, hst, ht, rfl⟩ := h.gap_iff.mp hg
  have ⟨hv, he⟩ := hs i name hn hst
  rw [read_of_some (he.trans ht)]
  exact ⟨hv, rfl⟩

end Started

-- The reads past the end of the previous targets that miss the targets of the segment.
def missing (seg : QueuedSegment ℝ) : Stray ℝ :=
  { still with previous := fun i => seg.qTarget.getD i 0 + 1 }

theorem Started.startable {previous : QueuedSegment ℝ}
    (h : Started seg segs previous.qTarget done (missing seg) s s') (hm : seg.Matched)
    (hc : Completable seg s') : Startable previous seg := by
  refine ⟨hc.left, hc.right.imp_right fun hc i name hn hs => ?_⟩
  have ht := List.getElem?_eq_getElem (hm ▸ (List.getElem?_eq_some_iff.mp hn).choose)
  have ⟨hv, he⟩ := hc _ _ (h.gap_iff.mpr ⟨i, name, hn, hs, ht, rfl⟩)
  refine ⟨hv, ?_⟩
  cases hr : previous.qTarget[i]?
  case some => rw [ht, he, read_of_some hr]
  case none => simp [read, hr, missing, ht] at he

-- What is waiting can be executed.
def Ready (s : MotionExecutor ℝ) : Prop :=
  ∀ seg ∈ s.segmentQueue, seg.Matched ∧ seg.Authorized s.axisRuntime ∧ seg.InLimit

theorem ticks_add (strays : Nat → Stray ℝ) (m n : Nat) (s : MotionExecutor ℝ) :
    ticks strays (m + n) s = ticks (fun k => strays (m + k)) n (ticks strays m s) := by
  induction n
  case zero => rfl
  case succ n ih => rw [← Nat.add_assoc, ticks_succ, ticks_succ, ih]

theorem ticks_congr {strays strays' : Nat → Stray ℝ} (h : ∀ k < n, strays k = strays' k) :
    ticks strays n s = ticks strays' n s := by
  induction n
  case zero => rfl
  case succ n ih =>
    rw [ticks_succ, ticks_succ, ih fun k hk => h k (hk.trans n.lt_succ_self), h n n.lt_succ_self]

theorem ticks_of_not_running (h : s.execState ≠ .running) : ticks strays n s = s := by
  induction n
  case zero       => rfl
  case succ n ih => rw [ticks_succ, ih, controlLoop, if_pos h]

theorem hands_over (hx : Executes seg s) (hr : s.execState = .running) (hm : seg.Matched)
    (h : Completable seg s) (hw : Ready s) (hq : s.segmentQueue = seg' :: segs)
    (strays : Nat → Stray ℝ) :
    ∃ k, (ticks strays k s).execState = .running ∧
      Started seg' segs seg.qTarget [seg.segmentId] (strays k) s (ticks strays (k + 1) s) := by
  have ⟨k, _, hmv, hx, hc⟩ := arrives_of_completable hx hr hm h strays
  have ⟨hm', ha, hl⟩ := hw seg' (hq ▸ List.mem_cons_self)
  refine ⟨k, hmv.running, ?_⟩
  rw [ticks_succ]
  refine (started_controlLoop hx hmv.running hm h.left hc (hmv.queue.trans hq) hm' ?_ hl
    (strays k)).of_moved hmv
  rw [hmv.axes]
  exact ha

theorem drained_controlLoop (hx : Executes seg s) (hr : s.execState = .running) (hm : seg.Matched)
    (hj : seg.jointNames ≠ []) (hc : Close s) (hq : s.segmentQueue = []) (stray : Stray ℝ) :
    Drained seg s (s.controlLoop stray) := by
  have hd := completions_controlLoop hx hr hm hj hc stray
  rw [controlLoop_of_done hr (hx.names ▸ hj) ((all_commands_iff hx hm).mpr hc)] at hd ⊢
  have hs := startNextSegment_starts stray
    ((s.move ((s.commands stray).map (·.1))).publish (.completed s.activeSegmentId))
  generalize startNextSegment stray _ = s' at hd hs ⊢
  cases hs
  case drained =>
    refine ⟨rfl, hq, ?_, ?_⟩
    case refine_1 => rw [hq, List.append_nil]; exact executed_completed
    case refine_2 => rw [hq]; exact hd
  case refused h _    => cases h.symm.trans hq
  case latched h _ _  => cases h.symm.trans hq
  case executes h _ _ => cases h.symm.trans hq

theorem Drained.of_moved (h : Drained seg s' s₁) (hm : Moved s s') : Drained seg s s₁ where
  idle        := h.idle
  queue       := h.queue
  executed    := by rw [h.executed, hm.executed, hm.queue]
  completions := by rw [h.completions, hm.completions, hm.queue]

namespace Started

theorem ready (h : Started seg' segs previous done stray s s') (hw : Ready s)
    (hq : s.segmentQueue = seg' :: segs) : Ready s' := by
  intro seg hs
  rw [h.queue] at hs
  have ⟨hm, ha, hl⟩ := hw seg (hq ▸ List.mem_cons_of_mem _ hs)
  exact ⟨hm, h.authorized seg ha, hl⟩

theorem drained_iff (h : Started seg' segs previous [seg.segmentId] stray s s')
    (hq : s.segmentQueue = seg' :: segs) : Drained seg s s'' ↔ Drained seg' s' s'' := by
  constructor
  case mp =>
    intro hd
    refine ⟨hd.idle, hd.queue, ?_, ?_⟩
    case refine_1 => rw [hd.executed, h.executed, hq, h.queue, List.append_assoc]; rfl
    case refine_2 => rw [hd.completions, h.completions, hq, h.queue, List.append_assoc]; rfl
  case mpr =>
    intro hd
    refine ⟨hd.idle, hd.queue, ?_, ?_⟩
    case refine_1 => rw [hd.executed, h.executed, hq, h.queue, List.append_assoc]; rfl
    case refine_2 => rw [hd.completions, h.completions, hq, h.queue, List.append_assoc]; rfl

end Started

theorem Drains.completable (h : Drains seg s) (hx : Executes seg s) (hr : s.execState = .running)
    (hm : seg.Matched) : Completable seg s := by
  by_contra hc
  have ⟨n, hd⟩ := h fun _ => still
  cases hd.idle.symm.trans (stuck hx hr hm hc _ n).running

-- What is waiting drains also behind the next segment.
theorem Drains.next (h : Drains seg s) (hr : (ticks strays k s).execState = .running)
    (hs : Started seg' segs previous [seg.segmentId] stray s (ticks strays (k + 1) s))
    (hq : s.segmentQueue = seg' :: segs) : Drains seg' (ticks strays (k + 1) s) := by
  intro strays'
  let joined (j : Nat) : Stray ℝ := if j < k + 1 then strays j else strays' (j - (k + 1))
  have hj (n) (hn : n ≤ k + 1) : ticks joined n s = ticks strays n s :=
    ticks_congr fun j hj => if_pos (hj.trans_le hn)
  have ⟨n, hd⟩ := h joined
  have hn : k + 1 ≤ n := by
    by_contra hn
    have ⟨d, hd'⟩ := Nat.exists_eq_add_of_le (Nat.le_of_lt_succ (Nat.lt_of_not_le hn))
    rw [← hj k k.le_succ, hd', ticks_add, ticks_of_not_running (by simp [hd.idle]), hd.idle] at hr
    cases hr
  obtain ⟨n, rfl⟩ := Nat.exists_eq_add_of_le hn
  have hs' : (fun j => joined (k + 1 + j)) = strays' := by
    funext j
    have hk : ¬k + 1 + j < k + 1 := Nat.not_lt.mpr (Nat.le_add_right _ _)
    simp only [joined, if_neg hk, Nat.add_sub_cancel_left]
  rw [ticks_add, hj _ le_rfl, hs'] at hd
  exact ⟨n, (hs.drained_iff hq).mp hd⟩

-- The queue drains exactly if each segment can be completed from where it starts.
theorem drains_iff (hx : Executes seg s) (hr : s.execState = .running) (hm : seg.Matched)
    (hw : Ready s) : Drains seg s ↔ Completable seg s ∧ AllStartable seg s.segmentQueue := by
  induction hq : s.segmentQueue generalizing seg s
  case nil =>
    constructor
    case mp => exact fun h => ⟨h.completable hx hr hm, trivial⟩
    case mpr =>
      intro ⟨h, _⟩ strays
      have ⟨k, _, hmv, hx, hc⟩ := arrives_of_completable hx hr hm h strays
      have hd := drained_controlLoop hx hmv.running hm h.left hc (hmv.queue.trans hq) (strays k)
      rw [← ticks_succ] at hd
      exact ⟨k + 1, hd.of_moved hmv⟩
  case cons seg' segs ih =>
    have hm' := (hw seg' (hq ▸ List.mem_cons_self)).left
    constructor
    case mp =>
      intro hd
      have h := hd.completable hx hr hm
      have ⟨k, hk, hs⟩ := hands_over hx hr hm h hw hq fun _ => missing seg'
      have ⟨hc, ha⟩ := (ih hs.executes hs.running hm' (hs.ready hw hq) hs.queue).mp
        (hd.next hk hs hq)
      exact ⟨h, hs.startable hm' hc, ha⟩
    case mpr =>
      intro ⟨h, hst, ha⟩ strays
      have ⟨k, _, hs⟩ := hands_over hx hr hm h hw hq strays
      have hd := (ih hs.executes hs.running hm' (hs.ready hw hq) hs.queue).mpr
        ⟨hs.completable hst, ha⟩
      have ⟨n, hd⟩ := hd fun j => strays (k + 1 + j)
      rw [← ticks_add] at hd
      exact ⟨k + 1 + n, (hs.drained_iff hq).mpr hd⟩

end MotionExecutor

open MotionExecutor

theorem segments_finish_iff {s : MotionExecutor ℝ} {seg : QueuedSegment ℝ}
    (e : Run step (boot segmentId velocity) is s) (hr : s.execState = .running)
    (hl : s.lastExecuted? = some seg) (hm : seg.Matched) :
    (FinishesWithin s.ticksNeeded seg s ↔ Completable seg s) ∧
    ((∃ n, FinishesWithin n seg s) ↔ Completable seg s) ∧
    (Ready s → (Drains seg s ↔ Completable seg s ∧ AllStartable seg s.segmentQueue)) := by
  have ⟨_, hx⟩ := Current.run e hr
  cases hx.last.symm.trans hl
  refine ⟨⟨?_, finishes_of_completable hx hr hm⟩, finishesWithin_iff hx hr hm, drains_iff hx hr hm⟩
  exact fun h => (finishesWithin_iff hx hr hm).mp ⟨_, h⟩

theorem Underway.executes {s : MotionExecutor ℝ} (u : Underway target vMax s)
    (e : Run step (boot segmentId v) is s) :
    ∃ seg, s.lastExecuted? = some seg ∧ Executes seg s ∧ seg.Matched ∧ seg.jointNames ≠ [] ∧
      seg.vMax = vMax ∧ Gap s target 0 := by
  have ⟨seg, hx⟩ := Current.run e u.running
  have hn := hx.names.symm.trans u.names
  have ht := hx.target.symm.trans u.targets
  refine ⟨seg, hx.last, hx, ?_, by simp [hn], hx.velocity.symm.trans u.velocity, ?_⟩
  case refine_1 => rw [QueuedSegment.Matched, hn, ht]; rfl
  case refine_2 =>
    refine ⟨0, "mast_to_carriage_joint", ?_, mast_structural, ?_, ?_⟩
    case refine_1 => rw [u.names]; rfl
    case refine_2 => rw [u.targets]; rfl
    case refine_3 => rw [u.current]; rfl

-- A mast that is sent one metre up with one metre per second arrives.
theorem segments_finish_iff_mast :
    ∃ (s : MotionExecutor ℝ) (seg : QueuedSegment ℝ), Run step (boot 0 0) (departure 1 1) s ∧
      s.lastExecuted? = some seg ∧ Ready s ∧ FinishesWithin s.ticksNeeded seg s ∧
      Drains seg s := by
  have u := departure_underway 1 1 (by norm_num)
  have ⟨seg, hl, _, hm, hj, hv, _⟩ := u.executes run_foldl
  have h := segments_finish_iff run_foldl u.running hl hm
  have hc : Completable seg ((departure 1 1).foldl MotionExecutor.next (boot 0 0)) :=
    ⟨hj, .inl (hv ▸ one_pos)⟩
  have hw : Ready ((departure 1 1).foldl MotionExecutor.next (boot 0 0)) := by
    rw [Ready, u.queue]
    exact List.forall_mem_nil _
  refine ⟨_, seg, run_foldl, hl, hw, h.left.mpr hc, (h.right.right hw).mpr ⟨hc, ?_⟩⟩
  rw [u.queue]
  trivial

-- A segment without a maximal velocity is executed forever.
theorem segment_never_finishes :
    ∃ (s : MotionExecutor ℝ) (seg : QueuedSegment ℝ), Run step (boot 0 0) (departure 1 0) s ∧
      s.execState = .running ∧ s.lastExecuted? = some seg ∧ seg.Matched ∧
      ∀ n, ¬FinishesWithin n seg s := by
  have u := departure_underway 1 0 (by norm_num)
  have ⟨seg, hl, hx, hm, _, hv, hg⟩ := u.executes run_foldl
  refine ⟨_, seg, run_foldl, u.running, hl, hm, fun n hn => ?_⟩
  cases ((finishesWithin_iff hx u.running hm).mp ⟨n, hn⟩).right
  case inl h => exact absurd (hv ▸ h) (lt_irrefl _)
  case inr h => exact one_ne_zero (h 1 0 hg).right

end Executor
