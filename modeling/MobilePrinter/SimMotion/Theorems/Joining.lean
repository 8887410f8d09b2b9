import Mathlib.Analysis.Convex.Segment
import Mathlib.Tactic.NormNum
import MobilePrinter.SimMotion.Theorems.Protocol

namespace SimMotion

open Serving Trace Transition

variable {R : Type*}

-- The target that has been delivered last for a sequence id.
def latest? (seq : UInt32) (h : List (Event R)) : Option (Target R) :=
  h.findSome? fun
    | .delivered seq' target => if seq' = seq then some target else none
    | _                      => none

theorem latest?_delivered {h : List (Event R)} : latest? seq (.delivered seq' target :: h) =
    if seq' = seq then some target else latest? seq h := by
  by_cases hs : seq' = seq <;> simp [latest?, hs]

def lastTrip? (h : List (Event R)) : Option (Trip R) :=
  h.findSome? fun
    | .started trip => some trip
    | _             => none

def lastEnd? (h : List (Event R)) : Option (Position R) :=
  h.findSome? fun
    | .completed _ pos => some pos
    | _                => none

variable [Field R] [LinearOrder R]

-- A command starts with the target that has been delivered last for it, where the command before it
-- has ended. The tool moves on the straight line to that target, and the command ends there.
def Joined : Event R → List (Event R) → Prop
  | .started trip, h      => latest? trip.seq h = some trip.target ∧
    trip.start.xyz = ((lastEnd? h).getD origin).xyz
  | .command pos, h       => ∃ trip, lastTrip? h = some trip ∧
    pos.xyz ∈ segment R trip.start.xyz trip.target.pos.xyz
  | .completed seq pos, h => ∃ trip, lastTrip? h = some trip ∧ trip.seq = seq ∧
    pos.xyz = trip.target.pos.xyz
  | _, _                  => True

theorem interpolate_mem [IsStrictOrderedRing R] {start target : Position R}
    (h : progress ∈ Set.Icc 0 1) :
    (interpolate progress start target).xyz ∈ segment R start.xyz target.xyz := by
  rw [segment_eq_image']
  exact ⟨progress, h, rfl⟩

namespace SimMotionController

variable {s s' s₁ : SimMotionController R}

-- The readings of the clock, in their order.
def clock (is : List (Input R)) : List Int :=
  is.flatMap fun
    | .tick time now => [time, now]
    | _              => []

-- What the history says about the targets, and the rule that it obeys.
structure Journey (s : SimMotionController R) : Prop where
  targets : ∀ seq, s.targets seq = latest? seq s.history
  joined  : Obeys Joined s.history

def Rests (s : SimMotionController R) : Prop :=
  s.currentPos.xyz = ((lastEnd? s.history).getD origin).xyz

def Travels (seq : UInt32) (s : SimMotionController R) : Prop :=
  ∃ trip, lastTrip? s.history = some trip ∧ trip.seq = seq ∧ trip.start = s.startPos ∧
    s.target.xyz = trip.target.pos.xyz

theorem Journey.onTarget (h : Journey s) : Journey (s.onTarget msg) where
  joined      := ⟨trivial, h.joined⟩
  targets seq := by
    have hu : Function.update s.targets msg.sequenceId (some msg.target) seq =
        latest? seq (.delivered msg.sequenceId msg.target :: s.history) := by
      rw [latest?_delivered, ← h.targets, Function.update_apply]
      simp only [eq_comm]
    exact hu

theorem Journey.complete (h : Journey s) (ht : Travels seq s) : Journey (s.complete seq) where
  targets := h.targets
  joined  := by
    have ⟨trip, hl, hs, _, he⟩ := ht
    exact ⟨⟨trip, hl, hs, he⟩, h.joined⟩

theorem Journey.begin (h : Journey s) : Journey (s.begin seq feedrate t) where
  targets := h.targets
  joined  := ⟨trivial, h.joined⟩

theorem Journey.move [IsStrictOrderedRing R] (h : Journey s) (ht : Travels seq s)
    (hp : s.progress now ∈ Set.Icc 0 1) : Journey (s.move now) where
  targets := h.targets
  joined  := by
    have ⟨trip, hl, _, hs, he⟩ := ht
    refine ⟨⟨trip, hl, ?_⟩, h.joined⟩
    rw [hs, ← he]
    exact interpolate_mem hp

theorem clock_concat : clock (is ++ [i]) = clock is ++ clock [i] := by
  simp [clock]

theorem clock_tick : clock (is ++ [.tick t now]) = (clock is ++ [t]) ++ [now] := by
  simp [clock]

theorem cap_mem [IsStrictOrderedRing R] {part : R} (h : 0 ≤ part) :
    (if 1.0 < part then 1.0 else part) ∈ Set.Icc 0 1 := by
  split
  case isTrue     => norm_num
  case isFalse hp => exact ⟨h, le_trans (not_lt.mp hp) (by norm_num)⟩

theorem progress_mem [IsStrictOrderedRing R] (h : s.segmentStartTime ≤ now) :
    s.progress now ∈ Set.Icc 0 1 := by
  have ht : (0 : R) ≤ seconds s.segmentStartTime now := by
    have h : (0 : R) ≤ ((now - s.segmentStartTime : Int) : R) := Int.cast_nonneg (sub_nonneg.mpr h)
    exact div_nonneg h (by norm_num)
  have hp : 0 ≤ if 1e-6 < s.segmentDuration
      then seconds s.segmentStartTime now / s.segmentDuration else 0.0 := by
    split
    case isTrue hd  => exact div_nonneg ht (le_trans (by norm_num) hd.le)
    case isFalse    => norm_num
  exact cap_mem hp

-- The motion in progress, if any, has begun at a reading of the clock.
structure Course (is : List (Input R)) (s : SimMotionController R) : Prop where
  journey : Journey s
  rests   : s.moving = false → Rests s
  travels : s.moving = true → Travels s.activeSeq s
  begun   : s.moving = true → s.segmentStartTime ∈ clock is

namespace Course

theorem boot : Course [] (boot : SimMotionController R) where
  journey := ⟨fun _ => rfl, trivial⟩
  rests   := fun _ => rfl
  travels := nofun
  begun   := nofun

theorem keep (h : Course is s) (hj : Journey s') (hm : s'.moving = s.moving)
    (hr : Rests s → Rests s') (ht : Travels s.activeSeq s → Travels s'.activeSeq s')
    (hs : s'.segmentStartTime = s.segmentStartTime) : Course (is ++ [i]) s' where
  journey := hj
  rests   := fun h' => hr (h.rests (hm ▸ h'))
  travels := fun h' => ht (h.travels (hm ▸ h'))
  begun   := by
    intro h'
    rw [clock_concat, hs]
    exact List.mem_append_left _ (h.begun (hm ▸ h'))

variable [Cmath R]

theorem take (h : Course is s) (hm : s.moving = false) (hg : s.targets seq = some goal) :
    Journey (s.take seq seqs goal) where
  targets := h.journey.targets
  joined  := ⟨⟨h.journey.targets seq ▸ hg, h.rests hm⟩, h.journey.joined⟩

theorem underway (h : Course is s) (hu : Underway s t s₁) :
    Journey s₁ ∧ Travels s₁.activeSeq s₁ ∧ s₁.segmentStartTime ∈ clock is ++ [t] := by
  cases hu
  case goesOn hm => exact ⟨h.journey, h.travels hm, List.mem_append_left _ (h.begun hm)⟩
  case begins hm _ hg _ =>
    refine ⟨(h.take hm hg).begin, ⟨_, rfl, rfl, rfl, rfl⟩, ?_⟩
    exact List.mem_append_right _ List.mem_cons_self

variable [IsStrictOrderedRing R]

theorem next (h : Course is s) (m : Moves s i s') (hc : (clock (is ++ [i])).Pairwise (· ≤ ·)) :
    Course (is ++ [i]) s' := by
  cases m
  case queued    => exact h.keep ⟨h.journey.targets, trivial, h.journey.joined⟩ rfl id id rfl
  case delivered => exact h.keep h.journey.onTarget rfl id id rfl
  case rested    => exact h.keep h.journey rfl id id rfl
  case snapped hm _ hg _ => exact {
    journey := (h.take hm hg).complete ⟨_, rfl, rfl, rfl, rfl⟩
    rests   := fun _ => rfl
    travels := nofun
    begun   := nofun }
  case moved s₁ hu _ =>
    have ⟨hj, ht, hs⟩ := h.underway hu
    rw [clock_tick] at hc
    have hn := (List.pairwise_append.mp hc).right.right _ hs _ (List.mem_singleton_self _)
    exact {
      journey := hj.move ht (progress_mem hn)
      rests   := fun h' => absurd (h'.symm.trans hu.moving) Bool.false_ne_true
      travels := fun _ => ht
      begun   := fun _ => clock_tick ▸ List.mem_append_left _ hs }
  case arrived s₁ hu _ =>
    have ⟨hj, ht, hs⟩ := h.underway hu
    rw [clock_tick] at hc
    have hn := (List.pairwise_append.mp hc).right.right _ hs _ (List.mem_singleton_self _)
    exact {
      journey := (hj.move ht (progress_mem hn)).complete ht
      rests   := fun _ => rfl
      travels := nofun
      begun   := nofun }

theorem run (e : Run step SimMotionController.boot is s) (hc : (clock is).Pairwise (· ≤ ·)) :
    Course is s := by
  refine e.history (I := fun is s => (clock is).Pairwise (· ≤ ·) → Course is s) ?_ ?_ hc
  case refine_1 =>
    intro is i s s' _ h hs hc
    apply next _ (step_moves hs) hc
    apply h
    rw [clock_concat] at hc
    exact (List.pairwise_append.mp hc).left
  case refine_2 => exact fun _ => boot

end Course

end SimMotionController

open SimMotionController

theorem commands_joined {s : SimMotionController ℝ} (e : Run step boot is s)
    (hd : (received is).Nodup) (hc : (clock is).Pairwise (· ≤ ·)) :
    accepted (marks s.history) = received is ∧
    (∀ h, h <:+ s.history →
      started (marks h) <+: accepted (marks h) ∧
      finished (marks h) <+: started (marks h) ∧
      (started (marks h)).length ≤ (finished (marks h)).length + 1) ∧
    (finished (marks s.history)).Nodup ∧
    Obeys Joined s.history := by
  have hi := (InTurn.run e).inTurn
  have ⟨hs, hf, _⟩ := inTurn_prefix hi
  refine ⟨accepted_run e, ?_, ?_, (Course.run e hc).journey.joined⟩
  case refine_1 => exact fun h hs => inTurn_prefix (hi.of_suffix (hs.filterMap _))
  case refine_2 =>
    apply List.Nodup.sublist (hf.trans hs).sublist
    rw [accepted_run e]
    exact hd

def corner (seq : UInt32) : MotionTarget ℝ where
  sequenceId := seq
  x          := 1
  y          := 1
  z          := 0
  feedrate   := 1
  extrusion  := 0

-- The target of the first command arrives before the command, and that of the second one after it.
theorem commands_joined_two : ∃ s : SimMotionController ℝ,
    Run step boot [.target (corner 1), .command 1, .command 2, .tick 0 0, .target (corner 2),
      .tick 20000000 20000000, .tick 40000000 40000000] s ∧
    accepted (marks s.history) = [1, 2] ∧ (finished (marks s.history)).Nodup ∧
    Obeys Joined s.history :=
  have h := commands_joined run_foldl (by decide) (by decide)
  ⟨_, run_foldl, h.left, h.right.right⟩

end SimMotion
