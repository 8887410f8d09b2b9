import MobilePrinter.Executor.Theorems.Completion
import MobilePrinter.Executor.Theorems.EStop

namespace Executor

open Transition Approach

namespace MotionExecutor

variable {R : Type*}

def Input.Quiet : Input R → Prop
  | .reset         => False
  | .jointState .. => False
  | _              => True

def Input.isControl : Input R → Bool
  | .control _ => true
  | _          => false

-- What is read past the end of a vector while the message is handled.
def Input.stray? : Input R → Option (Stray R)
  | .segment _ stray    => some stray
  | .jointState _ stray => some stray
  | .control stray      => some stray
  | _                   => none

-- The joints and the positions of the last command.
def lastCommand? (s : MotionExecutor R) : Option (List String × List R) :=
  s.published.findSome? Event.command?

-- A joint that both segments name has the same target in the first one at the index that it has
-- there as at the one that it has in the second one.
def Aligned (seg₁ seg₂ : QueuedSegment ℝ) (stray : Stray ℝ) : Prop :=
  ∀ (i j : Nat) name t, seg₁.jointNames[i]? = some name → seg₂.jointNames[j]? = some name →
    seg₁.qTarget[i]? = some t → read seg₁.qTarget stray.previous j = t

-- The start position of each joint that both segments name is its target in the first one, and the
-- first command of the second one moves such an axis by one step at most.
structure HandsOver (seg₁ seg₂ : QueuedSegment ℝ) (s : MotionExecutor ℝ) : Prop where
  start   : ∀ (i j : Nat) name t, seg₁.jointNames[i]? = some name →
    seg₂.jointNames[j]? = some name → seg₁.qTarget[i]? = some t → s.qCurrent[j]? = some t
  command : ∀ is s', Run step s is s' → (∀ i ∈ is, i.Quiet ∧ i.isControl = false) →
    s'.execState = .running → ∀ stray, ∃ positions,
      s.lastCommand? = some (seg₁.jointNames, positions) ∧
      ∀ (i j : Nat) name t, seg₁.jointNames[i]? = some name →
        seg₂.jointNames[j]? = some name → seg₁.qTarget[i]? = some t →
        isStructuralAxis ℝ name → ∃ p q, positions[i]? = some p ∧
          ((s'.commands stray).map (·.1))[j]? = some q ∧ |q - p| ≤ |seg₂.vMax * controlPeriod|

theorem lastCommand_of {s s' : MotionExecutor R} (h : s'.published = e :: s.published) :
    s'.lastCommand? = e.command?.or s.lastCommand? := by
  rw [lastCommand?, h, List.findSome?_cons]
  cases e.command? <;> rfl

theorem executed_prefix {s s' : MotionExecutor R} (h : Publishes P s s') :
    s.executed <+: s'.executed := by
  obtain ⟨events, h, _⟩ := h
  rw [executed, executed, h, List.reverse_append, List.filterMap_append]
  exact List.prefix_append _ _

variable {s s' : MotionExecutor ℝ} {seg₁ seg₂ : QueuedSegment ℝ} {i : Input ℝ}

-- The last command has brought each structural axis to its target.
def Reached (seg₁ : QueuedSegment ℝ) (s : MotionExecutor ℝ) : Prop :=
  ∃ positions, s.lastCommand? = some (seg₁.jointNames, positions) ∧
    ∀ (i : Nat) name t, seg₁.jointNames[i]? = some name → seg₁.qTarget[i]? = some t →
      isStructuralAxis ℝ name → positions[i]? = some t

structure Left (seg₁ : QueuedSegment ℝ) (s : MotionExecutor ℝ) : Prop where
  first    : s.firstSegment = false
  previous : s.qTargetPrevious = seg₁.qTarget
  reached  : Reached seg₁ s

-- The first segment is being executed, or it has been completed and nothing has been executed since
-- then, or nothing can be executed before a reset.
inductive Phase (seg₁ : QueuedSegment ℝ) (s : MotionExecutor ℝ) : Prop
  | running : Executes seg₁ s → s.execState = .running → Phase seg₁ s
  | idle    : Left seg₁ s → s.execState = .idle → Phase seg₁ s
  | halted  : s.Halted → Phase seg₁ s

structure Handed (seg₁ seg₂ : QueuedSegment ℝ) (stray : Stray ℝ) (s : MotionExecutor ℝ) :
    Prop where
  executes : Executes seg₂ s
  running  : s.execState = .running
  start    : s.qCurrent = seg₂.jointNames.mapIdx fun i _ => read seg₁.qTarget stray.previous i
  reached  : Reached seg₁ s

theorem Reached.publish (h : Reached seg₁ s) (hp : s'.published = e :: s.published)
    (he : e.command? = none) : Reached seg₁ s' := by
  rw [Reached, lastCommand_of hp, he]
  exact h

theorem Left.starts (h : Left seg₁ s) (hs : Starts stray s s') :
    Phase seg₁ s' ∧ s'.executed = s.executed ∨
      ∃ seg₂, s'.executed = s.executed ++ [seg₂] ∧ Handed seg₁ seg₂ stray s' := by
  cases hs
  case drained => exact .inl ⟨.idle ⟨h.first, h.previous, h.reached⟩ rfl, rfl⟩
  case refused => exact .inl ⟨.halted (.inl rfl), executed_of_none rfl rfl⟩
  case latched => exact .inl ⟨.halted (.inl rfl), executed_of_none rfl rfl⟩
  case executes seg _ _ _ _ _ =>
    refine .inr ⟨seg, executed_of (s := s) (e := .executing seg) rfl, .execute rfl rfl rfl, rfl, ?_,
      h.reached.publish (e := .executing seg) rfl rfl⟩
    simp [execute, position, MotionExecutor.publish, startPositions, load, h.first, h.previous]

theorem Executes.left (hx : Executes seg₁ s) (hd : (s.commands stray).all (·.2) = true) :
    Left seg₁ ((s.move ((s.commands stray).map (·.1))).publish (.completed segmentId)) where
  first    := hx.first
  previous := hx.previous
  reached  := by
    refine ⟨(s.commands stray).map (·.1), ?_, fun i name t hn ht hs => ?_⟩
    case refine_1 =>
      rw [← hx.names, lastCommand_of rfl, lastCommand_of (s := s) rfl]
      rfl
    case refine_2 =>
      rw [← hx.names] at hn
      rw [← hx.target] at ht
      have hc : (s.commands stray)[i]? = some (s.command stray i name) := by
        simp [commands, List.getElem?_mapIdx, hn]
      have h := (command_done hs).mp (List.all_eq_true.mp hd _ (List.mem_of_getElem? hc))
      rw [getElem?_commands hn, command_eq hs, approach_of_le h, read_of_some ht]

theorem Phase.keep (h : Phase seg₁ s) (hx : Executes seg₁ s → Executes seg₁ s')
    (he : s'.execState = s.execState) (hl : Left seg₁ s → Left seg₁ s') : Phase seg₁ s' := by
  cases h
  case running h hr => exact .running (hx h) (he.trans hr)
  case idle h hi    => exact .idle (hl h) (he.trans hi)
  case halted h =>
    refine .halted ?_
    rwa [Halted, he]

theorem Phase.next (h : Phase seg₁ s) (m : Moves s i s') (hq : i.Quiet) :
    Phase seg₁ s' ∧ s'.executed = s.executed ∨
      ∃ seg₂ stray, i.stray? = some stray ∧ s'.executed = s.executed ++ [seg₂] ∧
        Handed seg₁ seg₂ stray s' := by
  cases m
  case rejected =>
    exact .inl ⟨h.keep (·.publish rfl) rfl
      fun hl => ⟨hl.first, hl.previous, hl.reached.publish rfl rfl⟩, executed_of_none rfl rfl⟩
  case queued =>
    exact .inl ⟨h.keep (·.enqueue) rfl fun hl => ⟨hl.first, hl.previous,
      hl.reached.publish (s := s) rfl rfl⟩, executed_of_none (s := s) rfl rfl⟩
  case started stray msg _ hi _ _ hs =>
    cases h
    case running hr => cases hr.symm.trans hi
    case halted hh  => exact absurd hi hh.not_idle
    case idle hl _ =>
      have he : (s.enqueue msg).executed = s.executed := executed_of_none (s := s) rfl rfl
      have hl : Left seg₁ (s.enqueue msg) :=
        ⟨hl.first, hl.previous, hl.reached.publish (s := s) rfl rfl⟩
      rw [← he]
      exact (hl.starts hs).imp_right fun ⟨seg₂, he, hh⟩ => ⟨seg₂, stray, rfl, he, hh⟩
  case moved hr _ =>
    cases h
    case idle hi   => cases hr.symm.trans hi
    case halted hh => exact absurd hr hh.not_running
    case running hx _ =>
      exact .inl ⟨.running hx.move hr, executed_of_none (s := s) rfl rfl⟩
  case completed stray hr _ hd hs =>
    cases h
    case idle hi   => cases hr.symm.trans hi
    case halted hh => exact absurd hr hh.not_running
    case running hx _ =>
      have h := (hx.left hd).starts hs
      rw [executed_completed] at h
      exact h.imp_right fun ⟨seg₂, he, hh⟩ => ⟨seg₂, stray, rfl, he, hh⟩
  case stopped => exact .inl ⟨.halted (.inl rfl), executed_of_none (s := s) rfl rfl⟩
  case aborted => exact .inl ⟨.halted (.inr rfl), rfl⟩
  case measured => cases hq
  case kept     => cases hq
  case cleared  => cases hq
  case rests    => exact .inl ⟨h, rfl⟩
  case held     => exact .inl ⟨h, rfl⟩
  case ignored  => exact .inl ⟨h, rfl⟩
  all_goals exact .inl ⟨h.keep (fun hx => ⟨hx.last, hx.active, hx.names, hx.target, hx.velocity,
    hx.current, hx.previous, hx.first⟩) rfl fun hl => ⟨hl.first, hl.previous, hl.reached⟩, rfl⟩

theorem Phase.run (h : Phase seg₁ s) (e : Run step s is s') (hq : ∀ i ∈ is, i.Quiet)
    (hx : s'.executed = s.executed) : Phase seg₁ s' := by
  induction e
  case refl => exact h
  case cons hs e ih =>
    have ⟨hi, hq⟩ := List.forall_mem_cons.mp hq
    cases h.next (step_moves hs) hi
    case inl h => exact ih h.left hq (hx.trans h.right.symm)
    case inr h =>
      obtain ⟨seg₂, _, _, he, _⟩ := h
      have hp := executed_prefix (publishes_run e)
      rw [hx, he] at hp
      simpa using hp.length_le

-- Before the first command of the second segment, its axes stand where they have started.
def Waiting (seg₂ : QueuedSegment ℝ) (s s' : MotionExecutor ℝ) : Prop :=
  s'.execState = .running ∧ Executes seg₂ s' ∧ s'.qCurrent = s.qCurrent ∨ s'.Halted

theorem Waiting.next {s₁ : MotionExecutor ℝ} (h : Waiting seg₂ s₁ s) (m : Moves s i s')
    (hq : i.Quiet) (hc : i.isControl = false) : Waiting seg₂ s₁ s' := by
  cases m
  case started hi _ _ _ =>
    obtain ⟨hr, _, _⟩ | hh := h
    case inl => cases hr.symm.trans hi
    case inr => exact absurd hi hh.not_idle
  case rejected => exact h.imp_left fun ⟨hr, hx, hw⟩ => ⟨hr, hx.publish rfl, hw⟩
  case queued   => exact h.imp_left fun ⟨hr, hx, hw⟩ => ⟨hr, hx.enqueue, hw⟩
  case stopped  => exact .inr (.inl rfl)
  case aborted  => exact .inr (.inr rfl)
  case measured => cases hq
  case kept     => cases hq
  case cleared  => cases hq
  case rests     => cases hc
  case moved     => cases hc
  case completed => cases hc
  case held     => exact h
  case ignored  => exact h
  all_goals exact h.imp_left fun ⟨hr, hx, hw⟩ => ⟨hr, ⟨hx.last, hx.active, hx.names, hx.target,
    hx.velocity, hx.current, hx.previous, hx.first⟩, hw⟩

theorem Waiting.run (h : Waiting seg₂ s s₁) (e : Run step s₁ is s')
    (hq : ∀ i ∈ is, i.Quiet ∧ i.isControl = false) : Waiting seg₂ s s' := by
  induction e
  case refl => exact h
  case cons hs _ ih =>
    have ⟨hi, hq⟩ := List.forall_mem_cons.mp hq
    exact ih (h.next (step_moves hs) hi.left hi.right) hq

theorem Handed.start_of (h : Handed seg₁ seg₂ stray s) (hn : seg₂.jointNames[j]? = some name) :
    s.qCurrent[j]? = some (read seg₁.qTarget stray.previous j) := by
  simp [h.start, List.getElem?_mapIdx, hn]

theorem Handed.handsOver_iff (h : Handed seg₁ seg₂ stray s) :
    HandsOver seg₁ seg₂ s ↔ Aligned seg₁ seg₂ stray := by
  constructor
  case mp =>
    intro ho i j name t hi hj ht
    have hs := ho.start i j name t hi hj ht
    exact Option.some.inj ((h.start_of hj).symm.trans hs)
  case mpr =>
    intro ha
    refine ⟨fun i j name t hi hj ht => ?_, fun is s' e hq hr stray' => ?_⟩
    case refine_1 => rw [h.start_of hj, ha i j name t hi hj ht]
    case refine_2 =>
      obtain ⟨positions, hl, hp⟩ := h.reached
      refine ⟨positions, hl, fun i j name t hi hj ht hs => ?_⟩
      have hw : Waiting seg₂ s s := .inl ⟨h.running, h.executes, rfl⟩
      obtain ⟨_, hx, hc⟩ := (hw.run e hq).resolve_right fun hh => hh.not_running hr
      have hn := hx.names ▸ hj
      refine ⟨t, _, hp i name t hi ht hs, getElem?_commands hn, ?_⟩
      have hc : s'.qCurrent[j]? = some t := by
        rw [hc, h.start_of hj, ha i j name t hi hj ht]
      rw [command_eq hs, List.getD_eq_getElem?_getD, hc, Option.getD_some, hx.velocity]
      exact abs_approach_sub_le_iff.mpr (.inl le_rfl)

end MotionExecutor

open MotionExecutor

theorem aligned_of_names (hn : seg₂.jointNames = seg₁.jointNames) (hd : seg₁.jointNames.Nodup) :
    Aligned seg₁ seg₂ stray := by
  intro i j name t hi hj ht
  rw [hn] at hj
  have hl := (List.getElem?_eq_some_iff.mp hi).choose
  cases (List.getElem?_inj hl hd).mp (hi.trans hj.symm)
  exact read_of_some ht

theorem handed {s₁ s s₂ : MotionExecutor ℝ} (e₁ : Run step (boot segmentId velocity) is₁ s₁)
    (hr : s₁.execState = .running) (hl : s₁.lastExecuted? = some seg₁) (e : Run step s₁ is s)
    (hq : ∀ i ∈ is, i.Quiet) (hx : s.executed = s₁.executed) (hi : i.Quiet)
    (hs : step i s = .ok s₂) (hx₂ : s₂.executed = s.executed ++ [seg₂]) :
    ∃ stray, i.stray? = some stray ∧ Handed seg₁ seg₂ stray s₂ := by
  have ⟨_, hx₁⟩ := Current.run e₁ hr
  cases hx₁.last.symm.trans hl
  have h := (Phase.running hx₁ hr).run e hq hx
  obtain ⟨_, he⟩ | ⟨seg, stray, hi, he, hh⟩ := h.next (step_moves hs) hi
  case inl => simp [he] at hx₂
  case inr =>
    cases List.append_cancel_left (he.symm.trans hx₂)
    exact ⟨stray, hi, hh⟩

theorem hands_over_iff {s₁ s s₂ : MotionExecutor ℝ} (e₁ : Run step (boot segmentId velocity) is₁ s₁)
    (hr : s₁.execState = .running) (hl : s₁.lastExecuted? = some seg₁) (e : Run step s₁ is s)
    (hq : ∀ i ∈ is, i.Quiet) (hx : s.executed = s₁.executed) (hi : i.Quiet)
    (hs : step i s = .ok s₂) (hx₂ : s₂.executed = s.executed ++ [seg₂]) :
    ∃ stray, i.stray? = some stray ∧ (HandsOver seg₁ seg₂ s₂ ↔ Aligned seg₁ seg₂ stray) := by
  have ⟨stray, hi, hh⟩ := handed e₁ hr hl e hq hx hi hs hx₂
  exact ⟨stray, hi, hh.handsOver_iff⟩

def pairMsg (name₁ name₂ : String) (t₁ t₂ : ℝ) : MotionSegment ℝ where
  segmentId       := 1
  jointNames      := [name₁, name₂]
  targetPositions := [t₁, t₂]
  vMax            := 1

noncomputable def raiseMsg : MotionSegment ℝ :=
  pairMsg "base_to_mast_joint" "mast_to_carriage_joint" 0 0.001

noncomputable def raising : List (Input ℝ) :=
  [.jointState measuredMsg still, .segment raiseMsg still]

structure Raising (s : MotionExecutor ℝ) : Prop where
  running  : s.execState = .running
  machine  : s.machineState = .normal
  ready    : s.jointStateReady = true
  names    : s.jointNames = ["base_to_mast_joint", "mast_to_carriage_joint"]
  targets  : s.qTarget = [0, 0.001]
  current  : s.qCurrent = [0, 0]
  velocity : s.maxVelocity = 1
  queue    : s.segmentQueue = []
  last     : s.lastExecuted? = some (raiseMsg.queued 0)
  axes     : ∀ name ∈ ["base_to_mast_joint", "mast_to_carriage_joint"],
    ¬(s.axisRuntime.entry name).Refused

theorem base_structural : isStructuralAxis ℝ "base_to_mast_joint" = true := by
  decide +kernel

theorem raising_raising : Raising (raising.foldl MotionExecutor.next (boot 0 0)) := by
  have hv : (raiseMsg.queued 0).softLimitViolation? still = none := by
    simp [QueuedSegment.softLimitViolation?, structural_config mast_structural,
      structural_config base_structural, structuralConfig, read, raiseMsg, pairMsg,
      MotionSegment.queued]
    norm_num
  have ha : (AxisRuntimes.initial.authorize
      ["base_to_mast_joint", "mast_to_carriage_joint"]).1 = true := by
    decide +kernel
  have hn : (raiseMsg.queued 0).jointNames = ["base_to_mast_joint", "mast_to_carriage_joint"] := rfl
  have hr (name) (h : name ∈ ["base_to_mast_joint", "mast_to_carriage_joint"]) :
      ¬(AxisRuntimes.initial.entry name).Refused := by
    revert name
    decide +kernel
  have hz : (0.0 : ℝ) = 0 := by norm_num
  constructor
  case axes =>
    intro name hm
    simp [raising, MotionExecutor.next, boot, MotionExecutor.jointStateCallback, segmentCallback,
      maxQueueSize, enqueue, publish, startNextSegment, load, hv, hn, ha, position,
      execute, startPositions, measuredMsg, JointState.measured, JointState.record, read]
    apply AxisRuntimes.not_refused_arm
    rw [AxisRuntimes.entry_authorize (Prod.eta _).symm]
    exact hr name hm
  all_goals
    simp [raising, MotionExecutor.next, boot, MotionExecutor.jointStateCallback, segmentCallback,
      maxQueueSize, enqueue, publish, startNextSegment, load, hv, hn, ha, position,
      execute, startPositions, measuredMsg, JointState.measured, JointState.record, read, hz]
  all_goals rfl

namespace Raising

variable {s : MotionExecutor ℝ}

theorem enqueues (r : Raising s) (msg : MotionSegment ℝ) :
    step (.segment msg still) s = .ok (s.enqueue msg) := by
  simp [step, MotionExecutor.next, segmentCallback, r.machine, r.running, r.ready, r.queue,
    maxQueueSize, enqueue, publish]

theorem close (r : Raising s) : Close s := by
  rintro t q ⟨i, name, hn, _, ht, hq⟩
  rw [r.targets] at ht
  rw [r.current] at hq
  rw [r.velocity]
  have hi : i < 2 := by
    rw [r.names] at hn
    exact (List.getElem?_eq_some_iff.mp hn).choose
  obtain rfl | rfl : i = 0 ∨ i = 1 := by omega
  all_goals
    cases ht
    cases hq
    norm_num [controlPeriod]

theorem executes (r : Raising s) (e : Run step (boot segmentId v) is s)
    (h₁ : name₁ ∈ ["base_to_mast_joint", "mast_to_carriage_joint"])
    (h₂ : name₂ ∈ ["base_to_mast_joint", "mast_to_carriage_joint"])
    (ht₁ : t₁ ∈ Set.Icc (0 : ℝ) 2) (ht₂ : t₂ ∈ Set.Icc (0 : ℝ) 2) :
    (s.enqueue (pairMsg name₁ name₂ t₁ t₂)).executed = s.executed ∧
      ((s.enqueue (pairMsg name₁ name₂ t₁ t₂)).controlLoop still).executed =
        (s.enqueue (pairMsg name₁ name₂ t₁ t₂)).executed ++
          [(pairMsg name₁ name₂ t₁ t₂).queued s.acceptedCount] := by
  refine ⟨executed_of_none (s := s) rfl rfl, ?_⟩
  have ⟨_, hx⟩ := Current.run e r.running
  cases hx.last.symm.trans r.last
  have hq : (s.enqueue (pairMsg name₁ name₂ t₁ t₂)).segmentQueue =
      [(pairMsg name₁ name₂ t₁ t₂).queued s.acceptedCount] := by
    simp [enqueue, publish, r.queue]
  have hn : ∀ name ∈ [name₁, name₂],
      name ∈ ["base_to_mast_joint", "mast_to_carriage_joint"] := by
    exact List.forall_mem_cons.mpr ⟨h₁, List.forall_mem_singleton.mpr h₂⟩
  have ht : ∀ t ∈ [t₁, t₂], t ∈ Set.Icc (0 : ℝ) 2 := by
    exact List.forall_mem_cons.mpr ⟨ht₁, List.forall_mem_singleton.mpr ht₂⟩
  refine (started_controlLoop hx.enqueue r.running rfl ?_ r.close hq rfl ?_ ?_ still).executed
  case refine_1 => exact List.cons_ne_nil _ _
  case refine_2 => exact fun name hm => r.axes name (hn name hm)
  case refine_3 =>
    intro i name t hi hj cfg hc
    have hs : isStructuralAxis ℝ name := by
      have hn := hn name (List.mem_of_getElem? hi)
      simp only [List.mem_cons, List.not_mem_nil, or_false] at hn
      obtain rfl | rfl := hn
      case inl => exact base_structural
      case inr => exact mast_structural
    cases (structural_config hs).symm.trans hc
    have ht := ht t (List.mem_of_getElem? hj)
    norm_num [structuralConfig]
    exact ht

end Raising

-- The mast is raised, and the next segment names the two joints in the same order.
theorem hands_over_iff_same :
    ∃ s₁ s s₂ : MotionExecutor ℝ, Run step (boot 0 0) raising s₁ ∧
      Run step s₁ [.segment raiseMsg still] s ∧ step (.control still) s = .ok s₂ ∧
      HandsOver (raiseMsg.queued 0) (raiseMsg.queued s₁.acceptedCount) s₂ := by
  have r := raising_raising
  have hr := r.enqueues raiseMsg
  have ⟨hx, hx₂⟩ := r.executes run_foldl List.mem_cons_self
    (List.mem_cons_of_mem _ List.mem_cons_self) (show (0 : ℝ) ∈ Set.Icc 0 2 by norm_num)
    (show (0.001 : ℝ) ∈ Set.Icc 0 2 by norm_num)
  have ⟨stray, hs, h⟩ := hands_over_iff run_foldl r.running r.last (.cons hr .refl)
    (List.forall_mem_singleton.mpr trivial) hx (i := .control still) trivial rfl hx₂
  exact ⟨_, _, _, run_foldl, .cons hr .refl, rfl,
    h.mpr (aligned_of_names rfl (by simp [raiseMsg, pairMsg, MotionSegment.queued]))⟩

-- The next segment has the same targets and names the two joints the other way round.
theorem hands_over_swapped :
    ∃ s₁ s s₂ : MotionExecutor ℝ, Run step (boot 0 0) raising s₁ ∧
      s₁.lastExecuted? = some (raiseMsg.queued 0) ∧
      Run step s₁ [.segment
        (pairMsg "mast_to_carriage_joint" "base_to_mast_joint" 0.001 0) still] s ∧
      s.executed = s₁.executed ∧ step (.control still) s = .ok s₂ ∧
      s₂.executed = s.executed ++ [(pairMsg "mast_to_carriage_joint" "base_to_mast_joint" 0.001
        0).queued s₁.acceptedCount] ∧
      ¬HandsOver (raiseMsg.queued 0) ((pairMsg "mast_to_carriage_joint" "base_to_mast_joint" 0.001
        0).queued s₁.acceptedCount) s₂ := by
  have r := raising_raising
  have hr := r.enqueues (pairMsg "mast_to_carriage_joint" "base_to_mast_joint" 0.001 0)
  have ⟨hx, hx₂⟩ := r.executes run_foldl (List.mem_cons_of_mem _ List.mem_cons_self)
    List.mem_cons_self (show (0.001 : ℝ) ∈ Set.Icc 0 2 by norm_num)
    (show (0 : ℝ) ∈ Set.Icc 0 2 by norm_num)
  have ⟨stray, hs, h⟩ := handed run_foldl r.running r.last (.cons hr .refl)
    (List.forall_mem_singleton.mpr trivial) hx (i := .control still) trivial rfl hx₂
  refine ⟨_, _, _, run_foldl, r.last, .cons hr .refl, hx, rfl, hx₂, fun ho => ?_⟩
  have ha := h.handsOver_iff.mp ho 1 0 "mast_to_carriage_joint" 0.001 rfl rfl rfl
  norm_num [read, raiseMsg, pairMsg, MotionSegment.queued] at ha

end Executor
