import Mathlib.Data.List.Basic
import MobilePrinter.Executor.Indexing
import MobilePrinter.Executor.Theorems.Authority
import MobilePrinter.Executor.Theorems.Current

namespace Executor

open Transition

variable {R : Type*} [Arithmetic R]

-- The joint state is ignored, in whatever state it arrives.
def JointState.Ignored (msg : JointState R) (stray : Stray R) : Prop :=
  ∀ s : MotionExecutor R, s.jointStateCallback msg stray = s

namespace MotionExecutor

variable {s s' : MotionExecutor R} {i : Input R}

def RefusesMismatch : Input R → MotionExecutor R → Prop
  | .segment msg stray, s =>
    msg.jointNames.length ≠ msg.targetPositions.length → Refuses (.segment msg stray) s
  | .jointState msg stray, _ => msg.name.length ≠ msg.position.length → msg.Ignored stray
  | _, _ => True

-- Every access is within the size of its vector, and a message that does not match is refused.
def Indexes (i : Input R) (s : MotionExecutor R) : Prop :=
  (∀ a ∈ accesses i s, a.InRange) ∧ RefusesMismatch i s

-- If the segment is executed behind another one, it names no more joints than that one has targets.
def StartFits (seg : QueuedSegment R) (s : MotionExecutor R) : Prop :=
  s.firstSegment = false → seg.Authorized s.axisRuntime →
    seg.jointNames.length ≤ s.qTargetPrevious.length

-- The lengths of the message match, unless it is refused anyway, and the segment that is started
-- fits behind the previous one.
def Fits : Input R → MotionExecutor R → Prop
  | .segment msg _, s =>
    s.Accepts → msg.jointNames.length = msg.targetPositions.length ∧
      (s.execState = .idle → ∀ seg ∈ (s.segmentQueue ++ [msg.queued s.acceptedCount]).head?,
        StartFits seg s)
  | .jointState msg _, _ => msg.name.length = msg.position.length
  | .control stray, s =>
    s.execState = .running → s.jointNames ≠ [] → (s.commands stray).all (·.2) = true →
      ∀ seg ∈ s.segmentQueue.head?, StartFits seg s
  | _, _ => True

-- The vectors have the sizes of the segments that they come from.
structure Sized (s : MotionExecutor R) : Prop where
  queued  : ∀ seg ∈ s.segmentQueue, seg.Matched
  target  : s.execState = .running → s.qTarget.length = s.jointNames.length
  current : s.execState = .running → s.qCurrent.length = s.jointNames.length

omit [Arithmetic R] in
theorem forall_mem_accessAt :
    (∀ a ∈ accessAt vector size indices, a.InRange) ↔ ∀ i ∈ indices, i < size :=
  List.forall_mem_map

omit [Arithmetic R] in
theorem lt_of_subset {names : List String} {entries : List (String × Nat)}
    (hs : entries ⊆ names.zipIdx) (h : j ∈ entries.map (·.2)) : j < names.length := by
  obtain ⟨⟨name, j⟩, he, rfl⟩ := List.mem_map.mp h
  exact (List.getElem?_eq_some_iff.mp (List.mem_zipIdx_iff_getElem?.mp (hs he))).choose

theorem lt_of_mem_structuralIndices (h : j ∈ structuralIndices R names) : j < names.length :=
  lt_of_subset List.filter_sublist.subset h

theorem lt_of_mem_checkedIndices {seg : QueuedSegment R} (h : j ∈ seg.checkedIndices stray) :
    j < seg.jointNames.length := by
  refine lt_of_subset (List.Subset.trans List.filter_sublist.subset ?_) h
  refine List.append_subset.mpr ⟨(List.takeWhile_sublist _).subset, ?_⟩
  exact ((List.take_sublist _ _).trans (List.dropWhile_sublist _)).subset

theorem startAccesses_iff {seg : QueuedSegment R} (hq : s.segmentQueue = seg :: segs)
    (hm : seg.Matched) : (∀ a ∈ s.startAccesses stray, a.InRange) ↔ StartFits seg s := by
  have hm : seg.jointNames.length = seg.qTarget.length := hm
  simp only [startAccesses, hq]
  split
  case isFalse h =>
    have h : ¬seg.Authorized s.axisRuntime := fun ha => h (AxisRuntimes.authorize_iff.mpr ha)
    exact iff_of_true (List.forall_mem_nil _) fun _ ha => absurd ha h
  case isTrue h =>
    have ha : seg.Authorized s.axisRuntime := AxisRuntimes.authorize_iff.mp h
    have hr (j) (hj : j ∈ List.range seg.jointNames.length) : j < seg.jointNames.length :=
      List.mem_range.mp hj
    have hs (j) (hj : j ∈ structuralIndices R seg.jointNames) : j < seg.jointNames.length :=
      lt_of_mem_structuralIndices hj
    have ht (j) (hj : j ∈ (List.range seg.jointNames.length).take 1) : j < seg.jointNames.length :=
      hr j (List.mem_of_mem_take hj)
    have hp : (∀ a ∈ if s.firstSegment then [] else accessAt .qTargetPrevious
        s.qTargetPrevious.length (List.range seg.jointNames.length), a.InRange) ↔
          StartFits seg s := by
      cases hf : s.firstSegment
      case true => simp [StartFits, hf]
      case false =>
        simp only [StartFits, hf, ha, Bool.false_eq_true, if_false, forall_mem_accessAt,
          List.mem_range, true_imp_iff]
        exact forall_lt_iff_le
    have hv : ∀ a ∈ if (seg.softLimitViolation? stray).isSome then [] else
        accessAt .qTarget seg.qTarget.length (structuralIndices R seg.jointNames) ++
        accessAt .qStart seg.jointNames.length (structuralIndices R seg.jointNames) ++
        accessAt .vStart seg.jointNames.length (structuralIndices R seg.jointNames) ++
        accessAt .vEnd seg.jointNames.length (structuralIndices R seg.jointNames) ++
        accessAt .qStart seg.jointNames.length (List.range seg.jointNames.length) ++
        accessAt .qTarget seg.qTarget.length (List.range seg.jointNames.length), a.InRange := by
      split
      case isTrue => exact List.forall_mem_nil _
      case isFalse =>
        simp only [List.forall_mem_append, forall_mem_accessAt, hm.symm]
        exact ⟨⟨⟨⟨⟨hs, hs⟩, hs⟩, hs⟩, hr⟩, hr⟩
    simp only [List.forall_mem_append (p := Access.InRange)]
    constructor
    case mp => exact fun h => hp.mp h.left.left.left.left.right
    case mpr =>
      refine fun h => ⟨⟨⟨⟨⟨forall_mem_accessAt.mpr hr, hp.mpr h⟩, forall_mem_accessAt.mpr ht⟩,
        forall_mem_accessAt.mpr ht⟩, forall_mem_accessAt.mpr fun j hj => ?_⟩, hv⟩
      rw [← hm]
      exact lt_of_mem_checkedIndices hj

theorem segmentCallback_of_accepts {msg : MotionSegment R} (h : s.Accepts) :
    s.segmentCallback msg stray =
      if s.execState = .idle then (s.enqueue msg).startNextSegment stray else s.enqueue msg := by
  obtain ⟨hm, ha, hr, hq⟩ := h
  simp [segmentCallback, hm, ha, hr, Nat.not_le.mpr hq, enqueue, publish]

theorem segmentCallback_of_not_accepts (msg : MotionSegment R) (h : ¬s.Accepts) :
    ∃ reason, ∀ stray,
      s.segmentCallback msg stray = s.publish (.rejected msg.segmentId reason) := by
  by_cases hn : s.machineState ≠ .normal ∨ s.execState = .aborting
  case pos => exact ⟨.notNormal, fun stray => if_pos hn⟩
  case neg =>
    have ⟨hm, hi⟩ : s.machineState = .normal ∧ s.execState ≠ .aborting := by simpa using hn
    cases hr : s.jointStateReady
    case false => exact ⟨.jointStateNotReady, fun stray => by simp [segmentCallback, hm, hi, hr]⟩
    case true =>
      have hq : maxQueueSize ≤ s.segmentQueue.length :=
        Nat.not_lt.mp fun hq => h ⟨hm, hi, hr, hq⟩
      exact ⟨.queueFull, fun stray => by simp [segmentCallback, hm, hi, hr, hq]⟩

theorem refuses_iff {msg : MotionSegment R} :
    Refuses (.segment msg stray) s ↔ ¬s.Accepts := by
  constructor
  case mp =>
    rintro ⟨_, hr⟩ ha
    rw [segmentCallback_of_accepts ha] at hr
    split at hr
    case isFalse => simp [enqueue, publish, Event.status?] at hr
    case isTrue =>
      have hs := startNextSegment_starts stray (s.enqueue msg)
      generalize (s.enqueue msg).startNextSegment stray = s' at hr hs
      have hl := congrArg List.length hr
      cases hs
      case drained => simp [enqueue, publish, Event.status?] at hr
      case refused =>
        simp [refuseAxis, load, enqueue, publish, Event.status?] at hl
      case latched =>
        simp [latchFault, position, load, enqueue, publish, Event.status?] at hl
      case executes =>
        simp [execute, position, load, enqueue, publish, Event.status?] at hl
  case mpr =>
    intro ha
    obtain ⟨_, hs⟩ := segmentCallback_of_not_accepts msg ha
    simp only [Refuses, hs]
    exact ⟨rfl, rfl⟩

theorem not_ignored (msg : JointState R) (stray : Stray R) (velocity : R) :
    ¬msg.Ignored stray := by
  intro h
  have h := congrArg MotionExecutor.jointStateReady (h (boot 0 velocity))
  simp [jointStateCallback, boot] at h

theorem mismatch_iff : RefusesMismatch i s ↔
    match i with
    | .segment msg _    => s.Accepts → msg.jointNames.length = msg.targetPositions.length
    | .jointState msg _ => msg.name.length = msg.position.length
    | _                 => True := by
  cases i
  case segment => simp only [RefusesMismatch, refuses_iff]; exact not_imp_not
  case jointState msg stray =>
    simp only [RefusesMismatch, ne_eq, not_ignored msg stray s.maxVelocity, imp_false, not_not]
  all_goals exact .rfl

theorem startAccesses_head_iff (h : ∀ seg ∈ s.segmentQueue, seg.Matched) :
    (∀ a ∈ s.startAccesses stray, a.InRange) ↔ ∀ seg ∈ s.segmentQueue.head?, StartFits seg s := by
  cases hq : s.segmentQueue
  case nil => simp [startAccesses, hq]
  case cons seg segs =>
    have hm : seg.Matched := h seg (hq ▸ List.mem_cons_self)
    rw [startAccesses_iff hq hm]
    simp

theorem segment_iff {msg : MotionSegment R} (h : Sized s) :
    Indexes (.segment msg stray) s ↔ Fits (.segment msg stray) s := by
  rw [Indexes, mismatch_iff]
  simp only [accesses, segmentAccesses, Fits]
  by_cases ha : s.Accepts
  case neg => simp [ha]
  case pos =>
    simp only [ha, true_and, true_imp_iff]
    rw [and_comm]
    refine and_congr_right fun hm => ?_
    by_cases hi : s.execState = .idle
    case neg => simp [hi]
    case pos =>
      simp only [hi, if_true, true_imp_iff]
      refine startAccesses_head_iff (s := s.enqueue msg) ?_
      exact List.forall_mem_append.mpr ⟨h.queued, List.forall_mem_singleton.mpr hm⟩

theorem jointState_iff {msg : JointState R} :
    Indexes (.jointState msg stray) s ↔ Fits (.jointState msg stray) s := by
  rw [Indexes, mismatch_iff]
  refine and_iff_right_of_imp fun hm => ?_
  simp only [accesses, jointStateAccesses]
  refine List.forall_mem_append.mpr ⟨forall_mem_accessAt.mpr fun j hj => ?_, ?_⟩
  case refine_1 => exact hm ▸ List.mem_range.mp hj
  case refine_2 =>
    exact forall_mem_accessAt.mpr fun j hj => lt_of_subset List.filter_sublist.subset hj

theorem control_iff (h : Sized s) : Indexes (.control stray) s ↔ Fits (.control stray) s := by
  rw [Indexes, mismatch_iff, and_true]
  simp only [accesses, controlAccesses, Fits]
  by_cases hr : s.execState = .running
  case neg => simp [hr]
  case pos =>
    have hs (j) (hj : j ∈ structuralIndices R s.jointNames) : j < s.jointNames.length :=
      lt_of_mem_structuralIndices hj
    have ht := h.target hr
    have hc := h.current hr
    simp only [hr, ne_eq, not_true, if_false, true_imp_iff, List.forall_mem_append,
      forall_mem_accessAt, ht, hc]
    rw [and_iff_right ⟨⟨hs, hs⟩, hs⟩, ← and_imp]
    by_cases hd : ¬s.jointNames = [] ∧ (s.commands stray).all (·.2) = true
    case neg =>
      simp only [hd, if_false, false_imp_iff, iff_true]
      exact List.forall_mem_nil _
    case pos =>
      simp only [hd, if_true, not_false_eq_true, true_and, true_imp_iff]
      exact startAccesses_head_iff (s := s.move ((s.commands stray).map (·.1))) h.queued

theorem indexes_iff (h : Sized s) : Indexes i s ↔ Fits i s := by
  cases i
  case segment    => exact segment_iff h
  case jointState => exact jointState_iff
  case control    => exact control_iff h
  all_goals exact iff_of_true ⟨List.forall_mem_nil _, trivial⟩ trivial

namespace Sized

theorem boot : Sized (boot segmentId velocity : MotionExecutor R) where
  queued  := List.forall_mem_nil _
  target  := nofun
  current := nofun

omit [Arithmetic R] in
theorem stand (hq : ∀ seg ∈ s'.segmentQueue, seg.Matched) (hr : s'.execState ≠ .running) :
    Sized s' where
  queued    := hq
  target h  := absurd h hr
  current h := absurd h hr

theorem starts (hs : Starts stray s s') (hq : ∀ seg ∈ s.segmentQueue, seg.Matched) :
    Sized s' := by
  cases hs
  case drained => exact stand hq nofun
  case refused h _ => exact stand (List.forall_mem_cons.mp (h ▸ hq)).right nofun
  case latched h _ _ => exact stand (List.forall_mem_cons.mp (h ▸ hq)).right nofun
  case executes h _ _ =>
    have ⟨hm, hq⟩ := List.forall_mem_cons.mp (h ▸ hq)
    exact ⟨hq, fun _ => hm.symm, fun _ => startPositions_length⟩

omit [Arithmetic R] in
theorem enqueue {msg : MotionSegment R} (h : Sized s)
    (hm : msg.jointNames.length = msg.targetPositions.length) : Sized (s.enqueue msg) where
  queued  := List.forall_mem_append.mpr ⟨h.queued, List.forall_mem_singleton.mpr hm⟩
  target  := h.target
  current := h.current

theorem segment {msg : MotionSegment R} (h : Sized s) (hf : Fits (.segment msg stray) s) :
    Sized (s.segmentCallback msg stray) := by
  by_cases ha : s.Accepts
  case neg =>
    have ⟨_, hs⟩ := segmentCallback_of_not_accepts msg ha
    rw [hs]
    exact ⟨h.queued, h.target, h.current⟩
  case pos =>
    have h := h.enqueue (hf ha).left
    rw [segmentCallback_of_accepts ha]
    split
    case isTrue  => exact starts (startNextSegment_starts stray _) h.queued
    case isFalse => exact h

theorem jointState {msg : JointState R} (h : Sized s) : Sized (s.jointStateCallback msg stray) where
  queued     := h.queued
  target     := h.target
  current hr := by
    simp only [jointStateCallback]
    split
    case isTrue  => simp
    case isFalse => exact h.current hr

theorem control (h : Sized s) (m : Moves s (.control stray) s') : Sized s' := by
  cases m
  case rests        => exact h
  case completed hs => exact starts hs h.queued
  case moved =>
    refine ⟨h.queued, h.target, fun _ => ?_⟩
    simp [move, publish, commands]

theorem next (h : Sized s) (hf : Fits i s) : Sized (s.next i) := by
  cases i
  case segment    => exact h.segment hf
  case jointState => exact h.jointState
  case control    => exact h.control controlLoop_moves
  case override   => exact ⟨h.queued, h.target, h.current⟩
  case abort      => exact stand (List.forall_mem_nil _) (by rintro ⟨⟩)
  case reset =>
    simp only [MotionExecutor.next, resetCallback]
    split
    case isTrue  => exact h
    case isFalse => exact stand (List.forall_mem_nil _) (by rintro ⟨⟩)
  case estop data =>
    simp only [MotionExecutor.next, estopCallback]
    split
    case isTrue =>
      split
      case isTrue  => exact stand (List.forall_mem_nil _) (by rintro ⟨⟩)
      case isFalse => exact h
    case isFalse =>
      split
      case isTrue  => exact ⟨h.queued, h.target, h.current⟩
      case isFalse => exact h

end Sized
-- Two inputs that differ at most in what is read past the end of a vector.
inductive Input.Agrees : Input R → Input R → Prop
  | segment    : Agrees (.segment msg stray) (.segment msg stray')
  | jointState : Agrees (.jointState msg stray) (.jointState msg stray')
  | control    : Agrees (.control stray) (.control stray')
  | refl       : Agrees input input

variable {stray stray' : Stray R}

omit [Arithmetic R] in
theorem read_congr {xs : List R} {f g : Nat → R} {j : Nat} (h : j < xs.length) :
    read xs f j = read xs g j := by
  simp [read, h]

omit [Arithmetic R] in
theorem measured_congr {msg : JointState R} (h : msg.name.length ≤ msg.position.length) :
    msg.measured stray = msg.measured stray' := by
  refine List.foldl_ext _ _ _ fun measured (name, j) he => ?_
  have hj := (List.getElem?_eq_some_iff.mp (List.mem_zipIdx_iff_getElem?.mp he)).choose
  simp only [JointState.record]
  rw [read_congr (Nat.lt_of_lt_of_le hj h)]

theorem find?_congr_of_visited {l : List α} {p q : α → Bool}
    (h : ∀ x ∈ l.takeWhile (!p ·) ++ (l.dropWhile (!p ·)).take 1, p x = q x) :
    l.find? p = l.find? q := by
  induction l
  case nil => rfl
  case cons x xs ih =>
    cases hp : p x
    case true =>
      have hq : q x = true := by simpa [hp] using h
      rw [List.find?_cons_of_pos hp, List.find?_cons_of_pos hq]
    case false =>
      simp only [List.takeWhile_cons, List.dropWhile_cons, hp, Bool.not_false, if_true,
        List.cons_append, List.forall_mem_cons] at h
      rw [List.find?_cons_of_neg (by simp [hp]), List.find?_cons_of_neg (by simp [← h.left]),
        ih h.right]

theorem violation_congr {seg : QueuedSegment R}
    (h : ∀ j ∈ seg.checkedIndices stray, j < seg.qTarget.length) :
    seg.softLimitViolation? stray = seg.softLimitViolation? stray' := by
  refine congrArg (Option.map _) (find?_congr_of_visited fun (name, j) he => ?_)
  cases hc : (axisConfig name : Option (AxisConfig R))
  case none => simp only [hc]
  case some cfg =>
    have hj : j ∈ seg.checkedIndices stray := by
      refine List.mem_map.mpr ⟨(name, j), List.mem_filter.mpr ⟨he, ?_⟩, rfl⟩
      simp [Configured, hc]
    have hr : read seg.qTarget stray.checked j = read seg.qTarget stray'.checked j :=
      read_congr (h j hj)
    simp only [hc, hr]

theorem commands_congr (h : ∀ j ∈ structuralIndices R s.jointNames, j < s.qTarget.length) :
    s.commands stray = s.commands stray' := by
  refine List.mapIdx_eq_mapIdx_iff.mpr fun j hj => ?_
  cases hs : isStructuralAxis R s.jointNames[j]
  case false => simp only [command, hs, Bool.false_eq_true, if_false]
  case true =>
    have hm : j ∈ structuralIndices R s.jointNames := by
      refine List.mem_map.mpr ⟨(s.jointNames[j], j), List.mem_filter.mpr ⟨?_, hs⟩, rfl⟩
      exact List.mem_zipIdx_iff_getElem?.mpr (List.getElem?_eq_getElem hj)
    have hr : read s.qTarget stray.target j = read s.qTarget stray'.target j :=
      read_congr (h j hm)
    simp only [command, hr]

theorem startPositions_congr
    (h : s.firstSegment = false → s.jointNames.length ≤ s.qTargetPrevious.length) :
    s.startPositions stray = s.startPositions stray' := by
  simp only [startPositions]
  split
  case isTrue => rfl
  case isFalse hf =>
    refine List.mapIdx_eq_mapIdx_iff.mpr fun j hj => read_congr ?_
    exact Nat.lt_of_lt_of_le hj (h (by simpa using hf))

theorem position_congr {seg : QueuedSegment R}
    (h : s.firstSegment = false → s.jointNames.length ≤ s.qTargetPrevious.length) :
    s.position seg stray = s.position seg stray' := by
  rw [position, startPositions_congr h, position]

theorem startNextSegment_congr (h : ∀ a ∈ s.startAccesses stray, a.InRange) :
    s.startNextSegment stray = s.startNextSegment stray' := by
  simp only [startNextSegment]
  split
  case h_1 => rfl
  case h_2 seg queue hq =>
    simp only [startAccesses, hq] at h
    cases ha : (s.axisRuntime.authorize seg.jointNames).1
    case false => simp only [load, ha, Bool.false_eq_true, if_false]
    case true =>
      simp only [ha, if_true] at h
      simp only [List.forall_mem_append (p := Access.InRange)] at h
      obtain ⟨⟨⟨⟨⟨_, hp⟩, _⟩, _⟩, hc⟩, _⟩ := h
      simp only [load, ha, if_true]
      have hv : seg.softLimitViolation? stray = seg.softLimitViolation? stray' :=
        violation_congr (forall_mem_accessAt.mp hc)
      rw [hv, position_congr]
      intro hf
      have hf : s.firstSegment = false := hf
      simp only [hf, Bool.false_eq_true, if_false] at hp
      exact forall_lt_iff_le.mp fun j hj => forall_mem_accessAt.mp hp j (List.mem_range.mpr hj)

-- Where every access is in range, nothing depends on what is read past the end of a vector.
theorem next_congr {i i' : Input R} (h : ∀ a ∈ accesses i s, a.InRange) (ha : i.Agrees i') :
    s.next i = s.next i' := by
  cases ha
  case refl => rfl
  case jointState msg stray stray' =>
    have hn : ∀ a ∈ accessAt .position msg.position.length (List.range msg.name.length),
        a.InRange := (List.forall_mem_append.mp h).left
    have hn := forall_lt_iff_le.mp fun j hj => forall_mem_accessAt.mp hn j (List.mem_range.mpr hj)
    simp only [MotionExecutor.next, jointStateCallback]
    rw [measured_congr hn]
  case segment msg stray stray' =>
    by_cases ha : s.Accepts
    case neg =>
      obtain ⟨_, hs⟩ := segmentCallback_of_not_accepts msg ha
      exact (hs stray).trans (hs stray').symm
    case pos =>
      simp only [MotionExecutor.next, segmentCallback_of_accepts ha]
      split
      case isFalse => rfl
      case isTrue hi =>
        simp only [accesses, segmentAccesses, ha, hi, and_self, if_true] at h
        exact startNextSegment_congr h
  case control stray stray' =>
    simp only [MotionExecutor.next, controlLoop]
    split
    case isTrue => rfl
    case isFalse hr =>
      simp only [accesses, controlAccesses, hr, if_false] at h
      simp only [List.forall_mem_append (p := Access.InRange)] at h
      obtain ⟨⟨⟨ht, _⟩, _⟩, hs⟩ := h
      have hc : s.commands stray = s.commands stray' :=
        commands_congr (forall_mem_accessAt.mp ht)
      rw [hc] at hs ⊢
      split
      case isTrue => rfl
      case isFalse hj =>
        split
        case isFalse => rfl
        case isTrue hd =>
          simp only [hj, hd, ne_eq, not_false_eq_true, and_self, if_true] at hs
          split
          case isFalse => rfl
          case isTrue  => exact startNextSegment_congr hs

end MotionExecutor

open MotionExecutor

theorem indexes_iff_fits : Along step Indexes (boot segmentId velocity : MotionExecutor R) is ↔
    Along step Fits (boot segmentId velocity) is := by
  refine along_iff_along (I := Sized) (fun h _ => indexes_iff h) (fun h hf hs => ?_) .boot
  cases hs
  exact h.next hf

-- A segment without targets is executed, and the target of its joint is read.
theorem access_beyond : ¬Along step Indexes (boot 0 0 : MotionExecutor ℚ) [
    .jointState {} zero,
    .segment { segmentId := 1, jointNames := ["mast_to_carriage_joint"], vMax := 1 } zero] := by
  intro h
  have h := ((h _ rfl).right _ rfl).left.left ⟨.qTarget, 0, 0⟩ (by decide +kernel)
  exact absurd h (Nat.lt_irrefl 0)

end Executor
