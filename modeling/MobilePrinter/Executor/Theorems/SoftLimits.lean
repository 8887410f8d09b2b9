import Mathlib.Data.Real.Basic
import Mathlib.Tactic.NormNum
import MobilePrinter.Executor.Theorems.Current
import MobilePrinter.Library.Approach

namespace Executor

open Transition Approach

noncomputable instance : Arithmetic ℝ where

-- The position is within the soft limits of the axis, if it is configured.
def Within (name : String) (position : ℝ) : Prop :=
  ∀ cfg, axisConfig name = some cfg → position ∈ Set.Icc cfg.minPosition cfg.maxPosition

-- The position is at most one step beyond the soft limits of the axis.
def Near (name : String) (velocity position : ℝ) : Prop :=
  ∀ cfg, axisConfig name = some cfg →
    position ∈ Set.Icc (cfg.minPosition - velocity * controlPeriod)
      (cfg.maxPosition + velocity * controlPeriod)

def Event.Within : Event ℝ → Prop
  | .actuatorCommand names positions =>
    ∀ (i : Nat) name position, names[i]? = some name → positions[i]? = some position →
      isStructuralAxis ℝ name → Executor.Within name position
  | _ => True

def JointState.Within (msg : JointState ℝ) : Prop :=
  ∀ (i : Nat) name position, msg.name[i]? = some name → msg.position[i]? = some position →
    Executor.Within name position

def JointState.Complete (msg : JointState ℝ) : Prop :=
  ∀ (i : Nat) name, msg.name[i]? = some name → isStructuralAxis ℝ name → i < msg.position.length

-- The velocity of the segment is not negative, there is a target for each of its structural axes,
-- and each of them starts at most one step beyond its limits. The first segment starts from the
-- measured positions.
structure QueuedSegment.Sound (seg : QueuedSegment ℝ) (s : MotionExecutor ℝ) : Prop where
  forward : 0 ≤ seg.vMax
  target  : ∀ (i : Nat) name, seg.jointNames[i]? = some name → isStructuralAxis ℝ name →
    i < seg.qTarget.length
  start   : s.firstSegment = false → ∀ (i : Nat) name, seg.jointNames[i]? = some name →
    isStructuralAxis ℝ name → ∃ q, s.qTargetPrevious[i]? = some q ∧ Near name seg.vMax q

theorem magnitude_eq (x : ℝ) : magnitude x = |x| := by
  simp only [magnitude]
  split
  case isTrue h =>
    have h : x < 0 := by norm_num at h; exact h
    exact (abs_of_neg h).symm
  case isFalse h =>
    have h : 0 ≤ x := by norm_num at h; exact h
    exact (abs_of_nonneg h).symm

theorem structural_config (h : isStructuralAxis ℝ name) :
    axisConfig name = some (structuralConfig : AxisConfig ℝ) := by
  cases hc : (axisConfig name : Option (AxisConfig ℝ))
  case none => simp [isStructuralAxis, hc] at h
  case some cfg =>
    have ⟨_, _, hl, _⟩ := List.lookup_eq_some_iff.mp hc
    have hm : (name, cfg) ∈ (axisConfigs : List (String × AxisConfig ℝ)) := by simp [hl]
    have hs : cfg = structuralConfig ∨ cfg = extruderConfig := by
      simp only [axisConfigs, List.mem_cons, Prod.mk.injEq, List.not_mem_nil, or_false] at hm
      tauto
    cases hs
    case inl hs => rw [hs]
    case inr hs => simp [isStructuralAxis, hc, hs, extruderConfig] at h

theorem structural_zero (h : isStructuralAxis ℝ name) : Within name 0.0 := by
  intro cfg hc
  cases (structural_config h).symm.trans hc
  constructor <;> norm_num [structuralConfig]

theorem read_of_some (h : xs[i]? = some x) : read xs stray i = x := by
  simp [read, h]

theorem Within.near (h : Within name q) (hv : 0 ≤ velocity) : Near name velocity q := by
  intro cfg hc
  have h := h cfg hc
  have hs : (0 : ℝ) ≤ velocity * controlPeriod := by
    apply mul_nonneg hv
    norm_num [controlPeriod]
  constructor
  case left  => exact sub_le_iff_le_add.mpr (le_add_of_le_of_nonneg h.left hs)
  case right => exact le_add_of_le_of_nonneg h.right hs

theorem recorded_of_some {msg : JointState ℝ} {entries : List (String × Nat)}
    (h : entries.foldl (msg.record stray) init name = some q) :
    (∃ i, (name, i) ∈ entries ∧ q = read msg.position stray.measured i) ∨ init name = some q := by
  induction entries generalizing init
  case nil => exact .inr h
  case cons entry entries ih =>
    cases ih h
    case inl h =>
      obtain ⟨i, hi, hq⟩ := h
      exact .inl ⟨i, List.mem_cons_of_mem _ hi, hq⟩
    case inr h =>
      by_cases hn : name = entry.1
      case neg => exact .inr ((Function.update_of_ne hn _ _).symm.trans h)
      case pos =>
        rw [hn, JointState.record, Function.update_self] at h
        exact .inl ⟨entry.2, hn ▸ List.mem_cons_self, (Option.some.inj h).symm⟩

theorem measured_of_some {msg : JointState ℝ} (h : msg.measured stray name = some q) :
    ∃ i : Nat, msg.name[i]? = some name ∧ q = read msg.position stray.measured i := by
  have ⟨i, hi, hq⟩ := (recorded_of_some h).resolve_right (by simp)
  exact ⟨i, List.mem_zipIdx_iff_getElem?.mp hi, hq⟩

theorem measured_within {msg : JointState ℝ} (h : msg.Within) (hc : msg.Complete)
    (hs : isStructuralAxis ℝ name) (hm : msg.measured stray name = some q) : Within name q := by
  have ⟨i, hi, hq⟩ := measured_of_some hm
  have hp := List.getElem?_eq_getElem (hc i name hi hs)
  rw [hq, read_of_some hp]
  exact h i name _ hi hp

-- The targets of the structural axes are within their limits, and their current positions are at
-- most one step beyond them.
structure Tracking (velocity : ℝ) (names : List String) (target current : List ℝ) : Prop where
  forward : 0 ≤ velocity
  length  : current.length = names.length
  joint   : ∀ (i : Nat) name, names[i]? = some name → isStructuralAxis ℝ name →
    ∃ t q, target[i]? = some t ∧ current[i]? = some q ∧ Within name t ∧ Near name velocity q

namespace MotionExecutor

variable {s s' : MotionExecutor ℝ} {i : Nat}

theorem command_eq (h : isStructuralAxis ℝ name) :
    (s.command stray i name).1 =
      approach (s.maxVelocity * controlPeriod) (read s.qTarget stray.target i)
        (s.qCurrent.getD i 0.0) := by
  have hz : (0.0 : ℝ) = 0 := by norm_num
  simp only [command, h, if_true, approach, magnitude_eq, hz]
  split_ifs <;> rfl

theorem command_within (h : Tracking s.maxVelocity s.jointNames s.qTarget s.qCurrent)
    (hn : s.jointNames[i]? = some name) (hs : isStructuralAxis ℝ name) :
    Within name (s.command stray i name).1 := by
  have ⟨t, q, ht, hq, hw, hr⟩ := h.joint i name hn hs
  intro cfg hc
  rw [command_eq hs, read_of_some ht, List.getD_eq_getElem?_getD, hq]
  exact approach_mem (hw cfg hc) (hr cfg hc)

theorem getElem?_commands (hn : s.jointNames[i]? = some name) :
    ((s.commands stray).map (·.1))[i]? = some (s.command stray i name).1 := by
  simp [commands, List.getElem?_mapIdx, hn]

theorem startPositions_near {seg : QueuedSegment ℝ} (stray : Stray ℝ) (h : seg.Sound s)
    (hm : ∀ name q, isStructuralAxis ℝ name → s.lastJointState name = some q → Within name q)
    (hj : seg.jointNames = s.jointNames) (hn : s.jointNames[i]? = some name)
    (hs : isStructuralAxis ℝ name) :
    ∃ q, (s.startPositions stray)[i]? = some q ∧ Near name seg.vMax q := by
  simp only [startPositions]
  cases hf : s.firstSegment
  case true =>
    refine ⟨(s.lastJointState name).getD 0.0, by simp [hn], ?_⟩
    apply Within.near _ h.forward
    cases hl : s.lastJointState name
    case none   => exact structural_zero hs
    case some q => exact hm name q hs hl
  case false =>
    obtain ⟨q, hq, hr⟩ := h.start hf i name (hj ▸ hn) hs
    refine ⟨q, ?_, hr⟩
    simp [List.getElem?_mapIdx, hn, read_of_some hq]

theorem target_within {seg : QueuedSegment ℝ} (hv : seg.softLimitViolation? stray = none)
    (hn : seg.jointNames[i]? = some name) (ht : seg.qTarget[i]? = some t) : Within name t := by
  intro cfg hc
  have hv : _ := List.find?_eq_none.mp (Option.map_eq_none_iff.mp hv) (name, i)
    (List.mem_zipIdx_iff_getElem?.mpr hn)
  simpa [hc, read_of_some ht] using hv

def Input.Within : Input ℝ → Prop
  | .jointState msg _ => msg.Within
  | _                 => True

def Input.Complete : Input ℝ → Prop
  | .jointState msg _ => msg.Complete
  | _                 => True

-- The segment at the front of the queue is sound, unless it will be refused.
def FrontSound (queue : List (QueuedSegment ℝ)) (stray : Stray ℝ) (s : MotionExecutor ℝ) : Prop :=
  ∀ seg, queue.head? = some seg → (s.axisRuntime.authorize seg.jointNames).1 = true →
    seg.softLimitViolation? stray = none → seg.Sound s

-- The segment that a message or a tick of the control timer takes from the queue is sound.
def StartsSound : Input ℝ → MotionExecutor ℝ → Prop
  | .segment msg stray, s =>
    s.machineState = .normal → s.execState = .idle → s.jointStateReady = true →
      s.segmentQueue.length < maxQueueSize →
        FrontSound (s.segmentQueue ++ [msg.queued s.acceptedCount]) stray s
  | .control stray, s =>
    s.execState = .running → s.jointNames ≠ [] → (s.commands stray).all (·.2) = true →
      FrontSound s.segmentQueue stray s
  | _, _ => True

-- No commanded position is beyond the limits, and the measured ones are not either.
structure Contained (s : MotionExecutor ℝ) : Prop where
  commanded : ∀ e ∈ s.published, e.Within
  measured  : ∀ name q, isStructuralAxis ℝ name → s.lastJointState name = some q → Within name q
  running   : s.execState = .running →
    Tracking s.maxVelocity s.jointNames s.qTarget s.qCurrent

namespace Contained

theorem boot : Contained (boot segmentId velocity) where
  commanded := List.forall_mem_nil _
  measured  := nofun
  running   := nofun

theorem forall_published_cons (h : Contained s) (he : e.Within) :
    ∀ e' ∈ e :: s.published, e'.Within :=
  List.forall_mem_cons.mpr ⟨he, h.commanded⟩

theorem stand (h : Contained s) (hp : ∀ e ∈ s'.published, e.Within)
    (hl : s'.lastJointState = s.lastJointState) (hr : s'.execState ≠ .running) : Contained s' where
  commanded := hp
  measured  := hl ▸ h.measured
  running h := absurd h hr

theorem publish (h : Contained s) (he : e.Within) : Contained (s.publish e) where
  commanded := h.forall_published_cons he
  measured  := h.measured
  running   := h.running

theorem starts (hs : Starts stray s s') (h : Contained s)
    (hg : FrontSound s.segmentQueue stray s) : Contained s' := by
  cases hs
  case drained => exact h.stand h.commanded rfl nofun
  case refused => exact h.stand (h.forall_published_cons trivial) rfl nofun
  case latched => exact h.stand (h.forall_published_cons trivial) rfl nofun
  case executes seg queue axes hq ha hv =>
    have hg := hg seg (by rw [hq]; rfl) (by rw [ha]) hv
    refine ⟨h.forall_published_cons trivial, h.measured, fun _ => ?_⟩
    refine ⟨hg.forward, startPositions_length, fun i name hn hs => ?_⟩
    have ht := List.getElem?_eq_getElem (hg.target i name hn hs)
    have hl : seg.Sound { s.load seg with segmentQueue := queue, axisRuntime := axes } :=
      ⟨hg.forward, hg.target, hg.start⟩
    have ⟨q, hq, hr⟩ := startPositions_near stray hl h.measured rfl hn hs
    exact ⟨_, q, ht, hq, target_within hv hn ht, hr⟩

theorem move (h : Contained s) (hr : s.execState = .running) :
    Contained (s.move ((s.commands stray).map (·.1))) := by
  have ht := h.running hr
  refine ⟨h.forall_published_cons ?_, h.measured, fun _ => ?_⟩
  case refine_1 =>
    intro i name q hn hq hs
    cases (getElem?_commands hn).symm.trans hq
    exact command_within ht hn hs
  case refine_2 =>
    refine ⟨ht.forward, by simp [MotionExecutor.move, MotionExecutor.publish, commands], ?_⟩
    intro i name hn hs
    obtain ⟨t, _, ht', _, hw, _⟩ := ht.joint i name hn hs
    exact ⟨t, _, ht', getElem?_commands hn, hw, (command_within ht hn hs).near ht.forward⟩

theorem jointStateCallback {msg : JointState ℝ} (h : Contained s) (hm : msg.Within)
    (hc : msg.Complete) : Contained (s.jointStateCallback msg stray) where
  commanded := h.commanded
  measured _ _ hs hq := measured_within hm hc hs hq
  running hr := by
    have ht := h.running hr
    simp only [MotionExecutor.jointStateCallback]
    split
    case isFalse => exact ht
    case isTrue =>
      refine ⟨ht.forward, by simp, fun i name hn hs => ?_⟩
      obtain ⟨t, q, ht', hq, hw, hr⟩ := ht.joint i name hn hs
      refine ⟨t, (msg.measured stray name).getD q, ht', ?_, hw, ?_⟩
      case refine_1 =>
        have hr : s.qCurrent.takeD s.jointNames.length 0.0 = s.qCurrent := by
          rw [List.takeD_eq_take _ ht.length.ge, ← ht.length, List.take_length]
        simp [hr, List.getElem?_zipWith, hn, hq]
      case refine_2 =>
        cases hl : msg.measured stray name
        case none   => exact hr
        case some q => exact (measured_within hm hc hs hl).near ht.forward

theorem moves {i : Input ℝ} (h : Contained s) (hm : i.Within) (hc : i.Complete) (m : Moves s i s')
    (hg : StartsSound i s) : Contained s' := by
  cases m
  case rejected   => exact h.publish trivial
  case measured   => exact h.jointStateCallback hm hc
  case moved hr _ => exact h.move hr
  case cleared => exact h.stand (h.forall_published_cons trivial) rfl nofun
  case stopped => exact h.stand (h.forall_published_cons trivial) rfl nofun
  case aborted => exact h.stand h.commanded rfl nofun
  case queued => exact ⟨h.forall_published_cons trivial, h.measured, h.running⟩
  case started hn hi hr hl hs =>
    refine starts hs ⟨h.forall_published_cons trivial, h.measured, h.running⟩ ?_
    intro seg hq ha hv
    have hg := hg hn hi hr hl seg hq ha hv
    exact ⟨hg.forward, hg.target, hg.start⟩
  case completed hr hj hd hs =>
    refine starts hs ((h.move hr).publish trivial) ?_
    intro seg hq ha hv
    have hg := hg hr hj hd seg hq ha hv
    exact ⟨hg.forward, hg.target, hg.start⟩
  all_goals exact ⟨h.commanded, h.measured, h.running⟩

theorem run (e : Run step s is s') (hm : ∀ i ∈ is, i.Within) (hc : ∀ i ∈ is, i.Complete)
    (hg : Along step StartsSound s is) (h : Contained s) : Contained s' := by
  induction e
  case refl => exact h
  case cons hs _ ih =>
    have ⟨hm, hm'⟩ := List.forall_mem_cons.mp hm
    have ⟨hc, hc'⟩ := List.forall_mem_cons.mp hc
    have ⟨hg, hg'⟩ := hg _ hs
    cases hs
    exact ih hm' hc' hg' (h.moves hm hc (next_moves _ _) hg)

end Contained
end MotionExecutor

open MotionExecutor

theorem positions_within {s : MotionExecutor ℝ} (e : Run step (boot segmentId velocity) is s)
    (hm : ∀ i ∈ is, i.Within) (hc : ∀ i ∈ is, i.Complete)
    (hg : Along step StartsSound (boot segmentId velocity) is) : ∀ e ∈ s.published, e.Within :=
  (Contained.run e hm hc hg .boot).commanded

def still : Stray ℝ where
  measured _ := 0
  target _   := 0
  checked _  := 0
  previous _ := 0

theorem mast_structural : isStructuralAxis ℝ "mast_to_carriage_joint" = true := by
  decide +kernel

def mastMsg (target vMax : ℝ) : MotionSegment ℝ where
  segmentId       := 1
  jointNames      := ["mast_to_carriage_joint"]
  targetPositions := [target]
  vMax            := vMax

theorem mastMsg_names :
    ((mastMsg target vMax).queued place).jointNames = ["mast_to_carriage_joint"] :=
  rfl

def measuredMsg : JointState ℝ where
  name     := ["mast_to_carriage_joint"]
  position := [0]

-- The mast is measured at its lower limit and sent to the target.
def departure (target vMax : ℝ) : List (Input ℝ) :=
  [.jointState measuredMsg still, .segment (mastMsg target vMax) still]

structure Underway (target vMax : ℝ) (s : MotionExecutor ℝ) : Prop where
  running  : s.execState = .running
  names    : s.jointNames = ["mast_to_carriage_joint"]
  targets  : s.qTarget = [target]
  current  : s.qCurrent = [0]
  velocity : s.maxVelocity = vMax
  queue    : s.segmentQueue = []

theorem departure_underway (target vMax : ℝ) (h : target ∈ Set.Icc 0 2) :
    Underway target vMax ((departure target vMax).foldl MotionExecutor.next (boot 0 0)) := by
  have hv : ((mastMsg target vMax).queued 0).softLimitViolation? still = none := by
    simp [QueuedSegment.softLimitViolation?, structural_config mast_structural, structuralConfig,
      read, mastMsg, MotionSegment.queued]
    norm_num
    exact h
  have ha : (AxisRuntimes.initial.authorize ["mast_to_carriage_joint"]).1 = true := by
    decide +kernel
  constructor
  all_goals
    simp [departure, MotionExecutor.next, boot, MotionExecutor.jointStateCallback, segmentCallback,
      maxQueueSize, enqueue, publish, startNextSegment, load, hv, mastMsg_names, ha, position,
      execute, startPositions, measuredMsg, JointState.measured, JointState.record, read]
  all_goals rfl

namespace Underway

variable {s : MotionExecutor ℝ}

theorem commands (u : Underway target vMax s) :
    (s.commands still).map (·.1) = [approach (vMax * controlPeriod) target 0] := by
  simp [MotionExecutor.commands, u.names, command_eq mast_structural, u.velocity, u.targets,
    u.current, read]

theorem control (u : Underway target vMax s) :
    .actuatorCommand s.jointNames ((s.commands still).map (·.1)) ∈
      (s.next (.control still)).published := by
  simp only [MotionExecutor.next, controlLoop, u.running, u.names, ne_eq, not_true, if_false,
    reduceCtorEq]
  split
  all_goals simp [MotionExecutor.move, MotionExecutor.publish, u.names, u.queue]

end Underway

theorem measuredMsg_within : measuredMsg.Within := by
  intro i name position hn hp cfg hc
  have ⟨h, hn⟩ := List.getElem?_eq_some_iff.mp hn
  obtain rfl : i = 0 := Nat.lt_one_iff.mp h
  cases hn
  cases hp
  cases (structural_config mast_structural).symm.trans hc
  norm_num [structuralConfig]

theorem measuredMsg_complete : measuredMsg.Complete :=
  fun _ _ hn _ => (List.getElem?_eq_some_iff.mp hn).choose

-- The mast moves away from a target that is approached with a negative velocity.
theorem position_beyond :
    ∃ s : MotionExecutor ℝ, Run step (boot 0 0) (departure 1 (-1) ++ [.control still]) s ∧
      (∀ i ∈ departure 1 (-1) ++ [.control still], i.Within) ∧ ¬∀ e ∈ s.published, e.Within := by
  have u := departure_underway 1 (-1) (by norm_num)
  refine ⟨_, run_foldl, ?_, fun hw => ?_⟩
  case refine_1 => simp [departure, Input.Within, measuredMsg_within]
  case refine_2 =>
    rw [List.foldl_append] at hw
    have hw := hw _ u.control 0 "mast_to_carriage_joint" _ (by simp [u.names])
      (by rw [u.commands]; rfl) mast_structural _ (structural_config mast_structural)
    norm_num [approach, controlPeriod, structuralConfig] at hw

theorem mast_sound {s : MotionExecutor ℝ} (hf : s.firstSegment = true) :
    ((mastMsg target 1).queued 0).Sound s where
  forward        := by simp [mastMsg, MotionSegment.queued]
  target i _ h _ := (List.getElem?_eq_some_iff.mp h).choose
  start h        := by simp [hf] at h

theorem departure_sound (h : target ∈ Set.Icc (0 : ℝ) 2) :
    Along step StartsSound (boot 0 0) (departure target 1 ++ [.control still]) := by
  have u := departure_underway target 1 h
  intro _ h₁
  cases h₁
  refine ⟨trivial, fun _ h₂ => ⟨fun _ _ _ _ seg hq _ _ => ?_, ?_⟩⟩
  case refine_1 =>
    cases hq
    exact mast_sound rfl
  case refine_2 =>
    cases h₂
    refine fun _ _ => ⟨fun _ _ _ seg hq _ _ => ?_, trivial⟩
    exact absurd ((congrArg List.head? u.queue).symm.trans hq) (by simp)

-- A mast that is sent to its upper limit stays within its limits.
theorem positions_within_mast :
    ∃ s : MotionExecutor ℝ, Run step (boot 0 0) (departure 2 1 ++ [.control still]) s ∧
      .actuatorCommand ["mast_to_carriage_joint"] [0.002] ∈ s.published ∧
      ∀ e ∈ s.published, e.Within := by
  have u := departure_underway 2 1 (by norm_num)
  have hc : approach (1 * controlPeriod) (2 : ℝ) 0 = 0.002 := by
    norm_num [approach, controlPeriod]
  refine ⟨_, run_foldl, ?_, positions_within run_foldl ?_ ?_ ?_⟩
  case refine_1 =>
    have h := u.control
    rw [u.commands, u.names, hc] at h
    exact h
  case refine_2 => simp [departure, Input.Within, measuredMsg_within]
  case refine_3 => simp [departure, Input.Complete, measuredMsg_complete]
  case refine_4 => exact departure_sound (by norm_num)

end Executor
