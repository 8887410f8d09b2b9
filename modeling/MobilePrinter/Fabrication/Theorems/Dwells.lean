import MobilePrinter.Library.Transition
import MobilePrinter.Fabrication.World
import MobilePrinter.Fabrication.Theorems.Accounting

namespace Fabrication

open Firmware Transition WorldMotionController

variable [Arithmetic Double]

-- The dwell was about the completed target, stayed within the threshold and lasted long enough.
structure Completion.Genuine (c : Completion) : Prop where
  own     : ∀ sample ∈ c.dwell, sample.origin = c.seq
  within  : ∀ sample ∈ c.dwell, Within sample.error
  lasting : ∃ first last, c.dwell.head? = some first ∧ c.dwell.getLast? = some last ∧
    completeTime ≤ last.now - first.start

namespace World

variable {s s' : World} {sample : Sample} {world : WorldMotionController} {dwell : List Sample}
  {completed : List Completion} {origin : UInt32} {e : Position Double}
  {errors : List (UInt32 × Position Double)}

-- All completions are genuine, and so far the dwell in progress is about the active target.
def Genuine (s : World) : Prop :=
  (∀ c ∈ s.completed, c.Genuine) ∧ ∀ sample ∈ s.dwell, sample.origin = s.streaming.world.activeSeq

-- An error that is within the threshold while a target is active was computed from that target.
def Own : Input → World → Prop
  | .error _ _, s => ∀ m ∈ s.errors.head?,
    s.streaming.world.targetActive = true → Within m.2 → m.1 = s.streaming.world.activeSeq
  | _, _          => True

-- The errors of the dwell in progress are those since the controller has been within the threshold.
structure Timed (world : WorldMotionController) (dwell : List Sample) : Prop where
  idle     : world.targetActive = false → dwell = []
  dwelling : world.withinThreshold = true ↔ dwell ≠ []
  start    : ∀ first ∈ dwell.head?, world.withinThresholdStart = first.start
  within   : ∀ sample ∈ dwell, Within sample.error

-- What becomes of the controller, of its dwell and of the completions when it receives a sample.
inductive Samples (s : World) (sample : Sample) :
    WorldMotionController → List Sample → List Completion → Prop
  | idle :
    s.streaming.world.targetActive = false →
    Samples s sample s.streaming.world s.dwell s.completed
  | lost :
    s.streaming.world.targetActive = true → ¬Within sample.error →
    Samples s sample { s.streaming.world with withinThreshold := false } [] s.completed
  | dwells :
    s.streaming.world.targetActive = true → Within sample.error →
    Samples s sample (s.streaming.world.enterThreshold sample.start) (s.dwell ++ [sample])
      s.completed
  | completes :
    s.streaming.world.targetActive = true → Within sample.error →
    completeTime ≤
      sample.now - (s.streaming.world.enterThreshold sample.start).withinThresholdStart →
    Samples s sample (s.streaming.world.enterThreshold sample.start).complete.2 []
      ({ seq := s.streaming.world.activeSeq, dwell := s.dwell ++ [sample] } :: s.completed)

theorem error_samples (h : s.errors = (origin, e) :: errors) (start now : Int) :
    Samples s ⟨origin, e, start, now⟩ (s.error start now).streaming.world
      (s.error start now).dwell (s.error start now).completed := by
  simp only [error, h, observe, Streaming.error]
  have hh := errorCallback_handles s.streaming.world e start now
  generalize s.streaming.world.errorCallback e start now = r at hh
  cases hh
  case idle ha =>
    simp only [ha, Bool.not_false, ↓reduceIte]
    exact .idle ha
  case lost ha hw =>
    have ha' : (!s.streaming.world.targetActive) = false := by rw [ha]; rfl
    simp only [ha', hw, Bool.false_eq_true, ↓reduceIte]
    exact @Samples.lost _ s ⟨origin, e, start, now⟩ ha hw
  case dwells ha hw _ =>
    simp only [ha, hw, Bool.not_true, Bool.false_eq_true, ↓reduceIte]
    exact .dwells ha hw
  case completes ha hw ht =>
    simp only [ha, hw, Bool.not_true, Bool.false_eq_true, ↓reduceIte, complete_seq,
      enterThreshold_activeSeq]
    exact .completes ha hw ht

namespace Timed

theorem enterThreshold (t : Timed world dwell) (sample : Sample) :
    ∃ first, (dwell ++ [sample]).head? = some first ∧
      (world.enterThreshold sample.start).withinThresholdStart = first.start := by
  simp only [WorldMotionController.enterThreshold]
  cases dwell
  case nil =>
    have hw : world.withinThreshold = false := by simpa using t.dwelling
    exact ⟨sample, rfl, by simp [hw]⟩
  case cons first _ =>
    have hw : world.withinThreshold = true := by simp [t.dwelling]
    exact ⟨first, rfl, by simpa [hw] using t.start first rfl⟩

theorem dwells (t : Timed world dwell) (ha : world.targetActive = true) (hw : Within sample.error) :
    Timed (world.enterThreshold sample.start) (dwell ++ [sample]) where
  idle h   := by rw [enterThreshold_active, ha] at h; cases h
  dwelling := by simp [enterThreshold_within]
  start    := by
    have ⟨first, hf, hs⟩ := t.enterThreshold sample
    simp [hf, hs]
  within   := List.forall_mem_append.mpr ⟨t.within, List.forall_mem_singleton.mpr hw⟩

theorem nil (h : world.withinThreshold = false) : Timed world [] where
  idle _   := rfl
  dwelling := by simp [h]
  start    := by simp
  within   := List.forall_mem_nil _

end Timed

theorem Samples.timed (h : Samples s sample world dwell completed)
    (t : Timed s.streaming.world s.dwell) : Timed world dwell := by
  cases h
  case idle         => exact t
  case lost         => exact .nil rfl
  case dwells ha hw => exact t.dwells ha hw
  case completes    => exact .nil complete_within

-- Behind a sample everything is genuine exactly if the sample is the active target's own, where it
-- counts.
theorem Samples.genuine_iff (h : Samples s sample world dwell completed)
    (t : Timed s.streaming.world s.dwell) (g : Genuine s) :
    ((∀ c ∈ completed, c.Genuine) ∧ ∀ sample ∈ dwell, sample.origin = world.activeSeq) ↔
      (s.streaming.world.targetActive = true → Within sample.error →
        sample.origin = s.streaming.world.activeSeq) := by
  cases h
  case idle ha    => exact ⟨fun _ h => by simp [ha] at h, fun _ => g⟩
  case lost _ hw  => exact ⟨fun _ _ h => absurd h hw, fun _ => ⟨g.left, List.forall_mem_nil _⟩⟩
  case dwells ha hw =>
    rw [enterThreshold_activeSeq, List.forall_mem_append, List.forall_mem_singleton]
    exact ⟨fun h _ _ => h.right.right, fun h => ⟨g.left, g.right, h ha hw⟩⟩
  case completes ha hw ht =>
    rw [List.forall_mem_cons]
    constructor
    case mp =>
      intro h _ _
      exact h.left.left.own sample (List.mem_append_right _ (List.mem_singleton_self _))
    case mpr =>
      intro h
      refine ⟨⟨?_, g.left⟩, List.forall_mem_nil _⟩
      have ⟨first, hf, hs⟩ := t.enterThreshold sample
      exact {
        own     := List.forall_mem_append.mpr ⟨g.right, List.forall_mem_singleton.mpr (h ha hw)⟩
        within  := List.forall_mem_append.mpr ⟨t.within, List.forall_mem_singleton.mpr hw⟩
        lasting := ⟨first, sample, hf, List.getLast?_concat, hs ▸ ht⟩ }

theorem Timed.steady (t : Timed world dwell) (h : Steady world world') : Timed world' dwell where
  idle hi  := by
    refine t.idle (Bool.eq_false_iff.mpr fun ha => ?_)
    rw [(h.active ha).left] at hi
    cases hi
  dwelling := by rw [h.within, t.dwelling]
  start    := by rw [h.start]; exact t.start
  within   := t.within

-- `s'` has the dwell and the completions of `s`.
structure Kept (s s' : World) : Prop where
  steady    : Steady s.streaming.world s'.streaming.world
  dwell     : s'.dwell = s.dwell
  completed : s'.completed = s.completed

theorem Kept.timed (h : Kept s s') (t : Timed s.streaming.world s.dwell) :
    Timed s'.streaming.world s'.dwell := by
  rw [h.dwell]
  exact t.steady h.steady

theorem Kept.genuine (h : Kept s s') (t : Timed s.streaming.world s.dwell) (g : Genuine s) :
    Genuine s' := by
  rw [Genuine, h.completed, h.dwell]
  refine ⟨g.left, fun sample hm => ?_⟩
  have ha : s.streaming.world.targetActive = true := by
    by_contra ha
    rw [t.idle (Bool.eq_false_iff.mpr ha)] at hm
    cases hm
  rw [(h.steady.active ha).right, g.right sample hm]

theorem target_kept : Kept s s.target := by
  cases h : s.streaming.targets
  case nil  => simp only [target, h]; exact ⟨.refl, rfl, rfl⟩
  case cons =>
    simp only [target, Streaming.target, h]
    exact ⟨.motionTargetCallback, rfl, rfl⟩

omit [Arithmetic Double] in
theorem goal_kept : Kept s s.goal := by
  cases h : s.goals <;> simp only [goal, h] <;> exact ⟨.refl, rfl, rfl⟩

theorem submit_kept (cmd : MotionCommand) (turns : List Turn) :
    Kept s (s.next (.submit cmd turns)) where
  steady    := by
    rw [next, Streaming.next, Streaming.submit_world]
    exact .refl
  dwell     := rfl
  completed := rfl

theorem spin_kept (turn : Turn) : Kept s (s.next (.spin turn)) where
  steady    := by
    rw [next, Streaming.next, Streaming.spin_world]
    exact .refl
  dwell     := rfl
  completed := rfl

theorem next_genuine_iff (t : Timed s.streaming.world s.dwell) (g : Genuine s) :
    Genuine (s.next i) ↔ Own i s := by
  cases i
  case error start now =>
    cases h : s.errors
    case nil =>
      have hs : s.next (.error start now) = s := by simp only [next, error, h]
      rw [hs]
      exact ⟨fun _ => by simp [Own, h], fun _ => g⟩
    case cons m errors =>
      apply ((error_samples h start now).genuine_iff t g).trans
      simp [Own, h]
  case submit         => exact ⟨fun _ => trivial, fun _ => (submit_kept _ _).genuine t g⟩
  case spin           => exact ⟨fun _ => trivial, fun _ => (spin_kept _).genuine t g⟩
  case target         => exact ⟨fun _ => trivial, fun _ => target_kept.genuine t g⟩
  case goal           => exact ⟨fun _ => trivial, fun _ => goal_kept.genuine t g⟩
  all_goals exact ⟨fun _ => trivial, fun _ => g⟩

theorem next_timed (t : Timed s.streaming.world s.dwell) :
    Timed (s.next i).streaming.world (s.next i).dwell := by
  cases i
  case error start now =>
    cases h : s.errors
    case nil =>
      have hs : s.next (.error start now) = s := by simp only [next, error, h]
      rwa [hs]
    case cons => exact (error_samples h start now).timed t
  case submit => exact (submit_kept _ _).timed t
  case spin   => exact (spin_kept _).timed t
  case target => exact target_kept.timed t
  case goal   => exact goal_kept.timed t
  all_goals exact ⟨t.idle, t.dwelling, t.start, t.within⟩

end World

open World

variable {is : List World.Input}

-- All completions of a run are genuine, and so is what the dwells in progress have seen, exactly if
-- every error that counts towards a dwell was computed from the target that is active.
theorem genuine_iff_own : Always step Genuine {} is ↔ Along step Own {} is := by
  refine always_iff_along (I := fun s => Timed s.streaming.world s.dwell ∧ Genuine s) (·.right)
    ?step ?back ⟨.nil rfl, List.forall_mem_nil _, List.forall_mem_nil _⟩
  case step =>
    intro i s s' h ho hs
    cases hs
    exact ⟨next_timed h.left, (next_genuine_iff h.left h.right).mpr ho⟩
  case back =>
    intro i s s' h hg hs
    cases hs
    exact (next_genuine_iff h.left h.right).mp hg

omit [Arithmetic Double] in
-- Two targets are streamed, and the tool dwells at the second one. This completes the first one.
theorem genuine_fails :
    ¬∀ is s, Run (@step zeroOne) {} is s → ∀ c ∈ s.completed, @Completion.Genuine zeroOne c := by
  intro hc
  have h : Reaches (@step zeroOne)
      (fun s => ∃ c ∈ s.completed, ∃ sample ∈ c.dwell, sample.origin ≠ c.seq) {} [
      .submit (travelTo ⟨0x3FF0000000000000⟩) [], .submit (travelTo ⟨0⟩) [], .target, .target,
      .goal, .goal, .coordinatorPose .origin, .update, .error 0 0, .update,
      .error 500000000 500000000] := by
    decide +kernel
  have ⟨s, e, c, hm, sample, hd, hn⟩ := h.run
  exact hn (@Completion.Genuine.own zeroOne c (hc _ s e c hm) sample hd)

end Fabrication
