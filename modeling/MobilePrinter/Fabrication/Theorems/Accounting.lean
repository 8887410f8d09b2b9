import MobilePrinter.Firmware.Theorems.Counters
import MobilePrinter.Library.Transition
import MobilePrinter.Fabrication.Streaming
import MobilePrinter.Fabrication.Theorems.WorldMotion

namespace Fabrication

open Firmware Numbering Transition

namespace Streaming

variable {s s' s₁ s₂ s₃ : Streaming} {capacity : UInt32} {n p k d : Nat}

-- `seqs` are the completions that leave the topic between `s` and `s'`.
structure Receives (s : Streaming) (seqs : List UInt32) (s' : Streaming) : Prop where
  completions : s.completions = seqs ++ s'.completions
  delivered   : s'.delivered = s.delivered ++ seqs
  rest        : s' = { s with completions := s'.completions, delivered := s'.delivered }

namespace Receives

theorem refl : Receives s [] s :=
  ⟨rfl, (List.append_nil _).symm, rfl⟩

theorem trans (r₁ : Receives s₁ xs s₂) (r₂ : Receives s₂ ys s₃) : Receives s₁ (xs ++ ys) s₃ where
  completions := by rw [r₁.completions, r₂.completions, List.append_assoc]
  delivered   := by rw [r₂.delivered, r₁.delivered, List.append_assoc]
  rest        := by
    have h := r₂.rest
    rw [r₁.rest] at h
    exact h

end Receives

theorem receive_receives {d : Delivery} :
    Receives s ((s.receive d).1.filterMap SpinCallback.completed?) (s.receive d).2 := by
  cases d
  case worldComplete =>
    cases h : s.completions
    case nil  => simpa [receive, h] using Receives.refl
    case cons => simp only [receive, h]; exact ⟨h, rfl, rfl⟩
  all_goals exact Receives.refl

theorem receiveAll_receives {ds : List Delivery} :
    Receives s ((s.receiveAll ds).1.filterMap SpinCallback.completed?) (s.receiveAll ds).2 := by
  induction ds generalizing s
  case nil         => exact .refl
  case cons _ _ ih =>
    rw [receiveAll, List.filterMap_append]
    exact receive_receives.trans ih

theorem schedule_receives (turns : List Turn) :
    Receives s
      ((s.schedule turns).1.flatMap fun slice => slice.callbacks.filterMap SpinCallback.completed?)
      (s.schedule turns).2 := by
  induction turns generalizing s
  case nil         => exact .refl
  case cons _ _ ih =>
    rw [schedule, List.flatMap_cons]
    exact receiveAll_receives.trans ih

theorem schedule_world (turns : List Turn) : (s.schedule turns).2.world = s.world := by
  rw [(schedule_receives turns).rest]

theorem spin_world {turn : Turn} : (s.spin turn).world = s.world :=
  schedule_world [turn]

theorem submit_world {cmd : MotionCommand} {turns : List Turn} :
    (s.submit cmd turns).world = s.world := by
  simp only [submit]
  split <;> exact schedule_world turns

theorem receive_within {d : Delivery} (h : d.Within capacity) :
    ∀ callback ∈ (s.receive d).1, callback.Within capacity := by
  cases d
  case worldComplete =>
    cases hc : s.completions <;> simp [receive, hc, SpinCallback.Within]
  all_goals exact List.forall_mem_singleton.mpr h

theorem receiveAll_within {ds : List Delivery} (h : ∀ d ∈ ds, d.Within capacity) :
    ∀ callback ∈ (s.receiveAll ds).1, callback.Within capacity := by
  induction ds generalizing s
  case nil         => exact List.forall_mem_nil _
  case cons _ _ ih =>
    have ⟨hd, hs⟩ := List.forall_mem_cons.mp h
    exact List.forall_mem_append.mpr ⟨receive_within hd, ih hs⟩

theorem schedule_within {turns : List Turn} (h : ∀ turn ∈ turns, turn.Within capacity) :
    ∀ slice ∈ (s.schedule turns).1, ∀ callback ∈ slice.callbacks, callback.Within capacity := by
  induction turns generalizing s
  case nil         => exact List.forall_mem_nil _
  case cons _ _ ih =>
    have ⟨ht, hs⟩ := List.forall_mem_cons.mp h
    exact List.forall_mem_cons.mpr ⟨receiveAll_within ht, ih hs⟩

theorem iterate_spin {m : RosMotion} (t : m.Tracks capacity n d k) (count : Nat) :
    (RosMotion.spin^[count] m).schedule = m.schedule.drop count ∧
    (RosMotion.spin^[count] m).controller.targetPub = m.controller.targetPub ∧
    ∃ d', d ≤ d' ∧ (RosMotion.spin^[count] m).Tracks capacity n d' k := by
  induction count generalizing m d
  case zero => exact ⟨rfl, rfl, d, Nat.le_refl d, t⟩
  case succ count ih =>
    have ⟨d₁, h₁, t⟩ := t.spin
    have ⟨hs, hp, d₂, h₂, t⟩ := ih t
    refine ⟨?_, ?_, d₂, Nat.le_trans h₁ h₂, t⟩
    case refine_1 =>
      rw [Function.iterate_succ_apply, hs, RosMotion.spin_schedule_eq, List.drop_tail]
    case refine_2 =>
      exact hp.trans (RosMotion.spin_controller RosSimMotionController.deliver_targetPub)

theorem drain_tracks {m : RosMotion} (t : m.Tracks capacity n d k) :
    (drain m).schedule = [] ∧ (drain m).controller.targetPub = m.controller.targetPub ∧
    (drain m).Tracks capacity n k k := by
  have ⟨hs, hp, d', _, t'⟩ := iterate_spin t m.schedule.length
  rw [List.drop_length] at hs
  have hd : k ≤ d' := by
    rw [← between_eq_nil (f := UInt32.ofNat), ← t'.due, RosMotion.due, hs, List.flatMap_nil]
  have he := Nat.le_antisymm t'.ordered hd
  exact ⟨hs, hp, he ▸ t'⟩

-- `n` targets have been submitted, of which `p` have been received and `k` have been completed, and
-- `d` of the completions have been delivered.
structure Stages (capacity : UInt32) (n p k d : Nat) (s : Streaming) : Prop where
  tracks      : s.motion.Tracks capacity n d d
  idle        : s.motion.schedule = []
  fronted     : s.world.Fronted
  submissions : s.motion.controller.targetPub.map (·.sequenceId) = (between .ofNat 0 n).reverse
  targets     : s.targets.map (·.sequenceId) = between .ofNat p n
  pending     : s.world.pendingTargets = between .ofNat k p
  completions : s.completions = between .ofNat d k
  published   : s.published = between .ofNat 0 k
  delivered   : s.delivered = between .ofNat 0 d
  sent        : p ≤ n
  received    : k ≤ p
  completed   : d ≤ k
  window      : n ≤ d + max 5 capacity.toNat

namespace Stages

theorem fresh : Stages capacity 0 0 0 0 {} where
  tracks      := ⟨rfl, rfl, rfl, Nat.le_refl 0, Nat.zero_le _, List.forall_mem_nil _⟩
  idle        := rfl
  fronted     := ⟨by simp, by simp⟩
  submissions := rfl
  targets     := rfl
  pending     := rfl
  completions := rfl
  published   := rfl
  delivered   := rfl
  sent        := Nat.le_refl 0
  received    := Nat.le_refl 0
  completed   := Nat.le_refl 0
  window      := Nat.zero_le _

theorem target [Arithmetic Double] (h : Stages capacity n p k d s) :
    ∃ p', Stages capacity n p' k d s.target := by
  cases ht : s.targets
  case nil => exact ⟨p, by simpa [Streaming.target, ht] using h⟩
  case cons msg rest =>
    have hn := h.targets
    rw [ht, List.map_cons] at hn
    have ⟨hp, hm, hr⟩ := between_pop hn.symm
    simp only [Streaming.target, ht]
    exact ⟨p + 1, { h with
      fronted  := h.fronted.motionTargetCallback
      targets  := hr.symm
      pending  := by
        rw [WorldMotionController.motionTargetCallback_pending, h.pending, hm,
          between_push h.received]
      sent     := hp
      received := Nat.le_succ_of_le h.received }⟩

theorem error [Arithmetic Double] (e : Position Double) (start now : Int)
    (h : Stages capacity n p k d s) :
    ∃ k', Stages capacity n p k' d (s.error e start now) := by
  have ⟨hf, hp⟩ := h.fronted.errorCallback e start now
  have ⟨k', hk, hl, hd, hr⟩ := between_split (h.pending.symm.trans hp) h.received
  exact ⟨k', { h with
    fronted     := hf
    pending     := hr.symm
    completions := by
      simp only [Streaming.error]
      rw [h.completions, ← hd, between_append h.completed hk]
    published   := by
      simp only [Streaming.error]
      rw [h.published, ← hd, between_append (Nat.zero_le k) hk]
    received    := hl
    completed   := Nat.le_trans h.completed hk }⟩

-- With the schedule of some turns before it, the spin thread runs on through the completions that
-- these take from the topic.
theorem schedule {turns : List Turn} (h : Stages capacity n p k d s)
    (hw : ∀ turn ∈ turns, turn.Within capacity) :
    ∃ d', d ≤ d' ∧ d' ≤ k ∧
      { s.motion with schedule := (s.schedule turns).1 }.Tracks capacity n d d' ∧
      (s.schedule turns).2 =
        { s with completions := between .ofNat d' k, delivered := between .ofNat 0 d' } := by
  have r := schedule_receives (s := s) turns
  have ⟨d', hd, hk, hx, hy⟩ := between_split (h.completions.symm.trans r.completions) h.completed
  refine ⟨d', hd, hk, ?_, ?_⟩
  case refine_1 =>
    exact { h.tracks with due := hx.symm, ordered := hd, within := schedule_within hw }
  case refine_2 =>
    rw [r.rest, r.delivered, h.delivered, ← hx, hy, between_append (Nat.zero_le d) hd]

theorem spin (turn : Turn) (h : Stages capacity n p k d s) (hw : turn.Within capacity) :
    ∃ d', Stages capacity n p k d' (s.spin turn) := by
  have ⟨d', hd, hk, t, hs⟩ := h.schedule (List.forall_mem_singleton.mpr hw)
  have ⟨hi, hp, t⟩ := drain_tracks t
  simp only [Streaming.spin]
  rw [hs]
  exact ⟨d', { h with
    tracks      := t
    idle        := hi
    submissions := by rw [hp]; exact h.submissions
    completions := rfl
    delivered   := rfl
    completed   := hk
    window      := Nat.le_trans h.window (Nat.add_le_add_right hd _) }⟩

theorem submit (cmd : MotionCommand) (turns : List Turn) (h : Stages capacity n p k d s)
    (hw : ∀ turn ∈ turns, turn.Within capacity) :
    ∃ n' d', Stages capacity n' p k d' (s.submit cmd turns) := by
  have ⟨d', hd, hk, t, hs⟩ := h.schedule hw
  have hn : d' ≤ n := Nat.le_trans hk (Nat.le_trans h.received h.sent)
  simp only [Streaming.submit]
  rw [hs]
  generalize (s.schedule turns).1 = slices at t
  cases t.submit cmd hn h.window
  case inl hr =>
    have ⟨hr, hp, d₁, hl, t⟩ := hr
    have ⟨hi, hq, t⟩ := drain_tracks t
    rw [hr]
    exact ⟨n, d', { h with
      tracks      := t
      idle        := hi
      submissions := by rw [hq, hp]; exact h.submissions
      completions := rfl
      delivered   := rfl
      completed   := hk
      window      := Nat.le_trans h.window (Nat.add_le_add_right hd _) }⟩
  case inr hr =>
    have ⟨hr, ⟨msg, hm, hp⟩, d₁, hl, hv, t⟩ := hr
    have ht := t.ordered
    have ⟨hi, hq, t⟩ := drain_tracks t
    rw [hr]
    exact ⟨n + 1, d', { h with
      tracks      := t
      idle        := hi
      submissions := by
        rw [hq, hp, List.map_cons, h.submissions, hm, ← between_push (Nat.zero_le n),
          List.reverse_append]
        rfl
      targets     := by
        simp only [hp, List.take_succ_cons, List.take_zero, List.map_append, h.targets,
          List.map_cons, List.map_nil, hm, between_push h.sent]
      completions := rfl
      delivered   := rfl
      sent        := Nat.le_succ_of_le h.sent
      completed   := hk
      window      := by omega }⟩

theorem next [Arithmetic Double] {i : Input} (h : Stages capacity n p k d s)
    (hw : i.Within capacity) :
    ∃ n' p' k' d', Stages capacity n' p' k' d' (s.next i) := by
  cases i
  case submit cmd turns =>
    have ⟨n', d', h⟩ := h.submit cmd turns hw
    exact ⟨n', p, k, d', h⟩
  case spin turn =>
    have ⟨d', h⟩ := h.spin turn hw
    exact ⟨n, p, k, d', h⟩
  case target =>
    have ⟨p', h⟩ := h.target
    exact ⟨n, p', k, d, h⟩
  case error error start now =>
    have ⟨k', h⟩ := h.error error start now
    exact ⟨n, p, k', d, h⟩
  all_goals
    exact ⟨n, p, k, d, { h with fronted := ⟨h.fronted.active, h.fronted.front⟩ }⟩

theorem completed_le (h : Stages capacity n p k d s) : k ≤ n :=
  Nat.le_trans h.received h.sent

theorem delivered_le (h : Stages capacity n p k d s) : d ≤ n :=
  Nat.le_trans h.completed h.completed_le

theorem inflight (h : Stages capacity n p k d s) :
    s.motion.controller.inflight.toNat = n - d := by
  have hc := capacity.toNat_lt
  have hw := h.window
  rw [h.tracks.inflight h.delivered_le, UInt32.toNat_ofNat_of_lt' (by grind)]

theorem counted (h : Stages capacity n p k d s) : s.motion.controller.targetPub.length = n := by
  rw [← List.length_map, h.submissions, List.length_reverse, between_length, Nat.sub_zero]

theorem ordered (h : Stages capacity n p k d s) (hn : n < UInt32.size) :
    s.motion.controller.lastCompletedSeq ≤ s.motion.controller.lastSubmittedSeq := by
  rw [h.tracks.submitted, h.tracks.completed]
  exact (UInt32.ofNat_le_iff_le (Nat.lt_of_le_of_lt h.delivered_le hn) hn).mpr h.delivered_le

theorem unfinished (h : Stages capacity n p k d s) (hn : n < UInt32.size) :
    (s.motion.controller.targetPub.filter (·.sequenceId ∉ s.delivered)).length = n - d := by
  have hf : ∀ i ≤ n, ∀ j ≤ n, UInt32.ofNat i = UInt32.ofNat j → i = j := by
    intro i hi j hj he
    have hi := UInt32.toNat_ofNat_of_lt' (Nat.lt_of_le_of_lt hi hn)
    have hj := UInt32.toNat_ofNat_of_lt' (Nat.lt_of_le_of_lt hj hn)
    exact hi.symm.trans ((congrArg UInt32.toNat he).trans hj)
  have hm : (s.motion.controller.targetPub.filter (·.sequenceId ∉ s.delivered)).length =
      ((s.motion.controller.targetPub.map (·.sequenceId)).filter (· ∉ s.delivered)).length := by
    rw [List.filter_map, List.length_map]
    rfl
  rw [hm, h.submissions, h.delivered, List.filter_reverse, List.length_reverse,
    filter_between hf (Nat.zero_le d) h.delivered_le, between_length]

theorem run [Arithmetic Double] (e : Run step s is s') (hw : ∀ i ∈ is, i.Within capacity)
    (h : Stages capacity n p k d s) : ∃ n' p' k' d', Stages capacity n' p' k' d' s' := by
  induction e generalizing n p k d
  case refl => exact ⟨n, p, k, d, h⟩
  case cons hs _ ih =>
    have ⟨hi, hw⟩ := List.forall_mem_cons.mp hw
    cases hs
    have ⟨_, _, _, _, h⟩ := h.next hi
    exact ih hw h

end Stages

theorem Input.within_max (i : Input) : i.Within 0xFFFFFFFF := by
  have hd (d : Delivery) : d.Within 0xFFFFFFFF := by
    cases d
    case motionStatus => exact UInt32.le_iff_toNat_le.mpr (Nat.le_of_lt_succ (UInt32.toNat_lt _))
    all_goals trivial
  cases i
  case submit => exact fun _ _ d _ => hd d
  case spin   => exact fun d _ => hd d
  all_goals trivial

end Streaming

open Streaming

variable {s : Streaming}

theorem streaming_accounted [Arithmetic Double] (e : Run step {} is s)
    (hn : s.motion.controller.targetPub.length < UInt32.size) :
    s.published = (List.range' 1 s.published.length).map .ofNat ∧
    s.world.Fronted ∧
    s.motion.controller.lastCompletedSeq ≤ s.motion.controller.lastSubmittedSeq ∧
    s.motion.controller.inflight.toNat =
      (s.motion.controller.targetPub.filter (·.sequenceId ∉ s.delivered)).length ∧
    ∀ capacity, (∀ i ∈ is, i.Within capacity) →
      s.motion.controller.inflight.toNat ≤ max 5 capacity.toNat := by
  have ⟨n, p, k, d, h⟩ := Stages.fresh.run e fun i _ => i.within_max
  rw [h.counted] at hn
  refine ⟨?_, h.fronted, h.ordered hn, h.inflight.trans (h.unfinished hn).symm, ?_⟩
  case refine_1 => rw [h.published, between_length]; rfl
  case refine_2 =>
    intro capacity hw
    have ⟨n, p, k, d, h⟩ := Stages.fresh.run e hw
    rw [h.inflight]
    have hv := h.window
    omega

def travelTo (x : Double) : MotionCommand where
  intent    := .travel
  x         := x
  y         := ⟨0⟩
  z         := ⟨0⟩
  feedrate  := ⟨0⟩
  extrusion := ⟨0⟩

-- The completion of one target is delivered during the submission of another.
theorem streaming_accounted_two :
    ∃ s, Run (@step zeroOne) {} [
        .submit (travelTo ⟨0⟩) [], .target, .error .origin 0 0, .error .origin 500000000 500000000,
        .submit (travelTo ⟨0⟩) [{ deliveries := [.worldComplete 7] }]] s ∧
      s.motion.controller.targetPub.length = 2 ∧ s.delivered = [1] ∧
      s.motion.controller.inflight.toNat =
        (s.motion.controller.targetPub.filter (·.sequenceId ∉ s.delivered)).length := by
  have h : Reaches (@step zeroOne)
      (fun s => s.motion.controller.targetPub.length = 2 ∧ s.delivered = [1]) {} [
        .submit (travelTo ⟨0⟩) [], .target, .error .origin 0 0, .error .origin 500000000 500000000,
        .submit (travelTo ⟨0⟩) [{ deliveries := [.worldComplete 7] }]] := by
    decide +kernel
  have ⟨s, e, hn, hd⟩ := h.run
  have hl : s.motion.controller.targetPub.length < UInt32.size := hn ▸ by decide
  exact ⟨s, e, hn, hd, (@streaming_accounted _ _ zeroOne e hl).2.2.2.1⟩

end Fabrication
