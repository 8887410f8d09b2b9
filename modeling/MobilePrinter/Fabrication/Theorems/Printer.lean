import MobilePrinter.Fabrication.Printer
import MobilePrinter.Fabrication.Theorems.Accounting
import MobilePrinter.Firmware.Theorems.Boundary
import MobilePrinter.Firmware.Theorems.Publication

open Transition

namespace Firmware

theorem History.targets_suffix (h : older <:+ newer) :
    History.targets older <:+ History.targets newer := by
  obtain ⟨recent, rfl⟩ := h
  induction recent
  case nil => exact List.suffix_refl _
  case cons e recent ih =>
    refine ih.trans ?_
    by_cases he : ∃ cmd, e = .motionSubmitted cmd .accepted
    case pos =>
      obtain ⟨cmd, rfl⟩ := he
      exact List.suffix_cons _ _
    case neg =>
      have ht := History.targets_cons (h := recent ++ older) fun cmd hc => he ⟨cmd, hc⟩
      exact ht ▸ List.suffix_refl _

theorem State.Boundary.withMotion {s : State} (b : s.Boundary) (m : RosMotion) :
    State.Boundary { s with motion := m } where
  wellFormed  := { b.wellFormed with
    bound := fun hp => (b.wellFormed.bound hp).imp fun _ c => { c with } }
  notResuming := b.notResuming
  released    := b.released
  captured    := b.captured
  available   := b.available

end Firmware

namespace Fabrication

open Firmware Numbering

theorem Streaming.target_motion [Arithmetic Double] (s : Streaming) :
    s.target.motion = s.motion := by
  simp only [Streaming.target]
  split <;> rfl

namespace Printer

variable {x x' : Printer} {capacity : UInt32} {p k d : Nat}

-- Of the targets that the firmware has published, `p` have been received by the other node, `k`
-- have been completed, and `d` of the completions have been delivered to the firmware.
structure Staged (capacity : UInt32) (p k d : Nat) (x : Printer) : Prop where
  boundary  : x.firmware.Boundary
  published : x.firmware.motion.controller.targetPub = x.firmware.history.targets
  stages    : x.streaming.Stages capacity x.firmware.history.targets.length p k d
  topic     : x.targets <:+ x.firmware.history.targets.reverse

namespace Staged

theorem fresh (b : Booted s) : Staged capacity 0 0 0 { firmware := s } := by
  have hs : s.motion = {} ∧ s.history = [] := by
    obtain ⟨_, c⟩ := b.boots
    cases c <;> exact ⟨rfl, rfl⟩
  refine ⟨b.boundary, ?_, ?_, ?_⟩
  · rw [hs.left, hs.right]
    rfl
  · have he : ({ firmware := s } : Printer).streaming = {} := by
      simp only [streaming, hs.left]
    rw [he, hs.right]
    exact Streaming.Stages.fresh
  · exact List.nil_suffix

theorem tick (h : Staged capacity p k d x) (hw : ∀ turn ∈ turns, turn.Within capacity)
    (ht : x.tick i turns = .ok x') : ∃ d', d ≤ d' ∧ Staged capacity p k d' x' := by
  have ⟨d', hd, hk, t, hs⟩ := h.stages.schedule hw
  obtain ⟨s', hx, rfl⟩ := map_eq_ok.mp ht
  have hn : d' ≤ x.firmware.history.targets.length := Nat.le_trans hk h.stages.completed_le
  have hp : s'.Publishes capacity d d' := by
    refine .tick h.boundary.wellFormed ?_ hx
    exact ⟨h.published, hn, d, Nat.le_refl d, h.stages.window, t⟩
  have ⟨d₁, h₁, hv, t'⟩ := hp.tracks
  have ⟨hi, hq, t''⟩ := Streaming.drain_tracks t'
  have ⟨new, hg⟩ := History.targets_suffix (h.boundary.wellFormed.tick_history hx)
  have hl : x.firmware.history.targets.length ≤ s'.history.targets.length := by
    rw [← hg, List.length_append]
    exact Nat.le_add_left _ _
  have hf : x.newTargets s' = new.reverse := by
    rw [newTargets, hp.published, h.published, ← hg, List.length_append, Nat.add_sub_cancel,
      List.take_left]
  have hm : new.reverse.map (·.sequenceId) =
      between .ofNat x.firmware.history.targets.length s'.history.targets.length := by
    have hn := s'.history.targets_numbered
    rw [← hg, List.map_append, History.targets_numbered, hg, ← between_append (Nat.zero_le _) hl,
      List.reverse_append] at hn
    rw [List.map_reverse, List.append_cancel_right hn, List.reverse_reverse]
  refine ⟨d', hd, ?boundary, ?published, ?stages, ?topic⟩
  case boundary => exact (h.boundary.tick hx).withMotion _
  case published => exact hq.trans hp.published
  case topic =>
    obtain ⟨received, hr⟩ := h.topic
    change _ ++ _ <:+ s'.history.targets.reverse
    rw [hs, hf, ← hg, List.reverse_append, ← hr, List.append_assoc]
    exact List.suffix_append _ _
  case stages =>
    rw [hs, hf]
    exact {
      tracks      := t''
      idle        := hi
      fronted     := h.stages.fronted
      submissions := by
        change (Streaming.drain s'.motion).controller.targetPub.map _ = _
        rw [hq, hp.published, History.targets_numbered]
      targets     := by
        change (x.streaming.targets ++ new.reverse).map _ = _
        rw [List.map_append, hm, h.stages.targets, between_append h.stages.sent hl]
      pending     := h.stages.pending
      completions := rfl
      published   := h.stages.published
      delivered   := rfl
      sent        := Nat.le_trans h.stages.sent hl
      received    := h.stages.received
      completed   := hk
      window      := Nat.le_trans hv (Nat.add_le_add_right t'.ordered _) }

theorem sequence (h : Staged capacity p k d x) :
    x.firmware.history.targets.reverse.map (·.sequenceId) =
      x.delivered ++ x.completions ++ x.world.pendingTargets ++ x.targets.map (·.sequenceId) := by
  have hd : x.delivered = between .ofNat 0 d := h.stages.delivered
  have hc : x.completions = between .ofNat d k := h.stages.completions
  have hp : x.world.pendingTargets = between .ofNat k p := h.stages.pending
  have ht : x.targets.map (·.sequenceId) = between .ofNat p _ := h.stages.targets
  rw [List.map_reverse, History.targets_numbered, List.reverse_reverse, hd, hc, hp, ht,
    between_append (Nat.zero_le d) h.stages.completed,
    between_append (Nat.zero_le k) h.stages.received,
    between_append (Nat.zero_le p) h.stages.sent]

theorem inflight (h : Staged capacity p k d x) :
    x.firmware.motion.controller.inflight.toNat =
      x.completions.length + x.world.pendingTargets.length + x.targets.length := by
  have hn : x.firmware.motion.controller.inflight.toNat = _ := h.stages.inflight
  have hs := congrArg List.length h.sequence
  have hd : x.delivered = between .ofNat 0 d := h.stages.delivered
  simp only [List.length_map, List.length_reverse, List.length_append, hd, between_length] at hs
  omega

variable [Arithmetic Double]

theorem target (h : Staged capacity p k d x) :
    ∃ p', Staged capacity p' k d (x.withStreaming x.streaming.target) := by
  have ⟨p', hs⟩ := h.stages.target
  have hm : x.streaming.target.motion = x.firmware.motion := Streaming.target_motion _
  refine ⟨p', h.boundary.withMotion _, ?_, hs, ?_⟩
  · exact (congrArg (·.controller.targetPub) hm).trans h.published
  · refine List.IsSuffix.trans ?_ h.topic
    cases ht : x.targets
    case nil  => simp [withStreaming, Streaming.target, streaming, ht]
    case cons => simp [withStreaming, Streaming.target, streaming, ht]

theorem error (e : Position Double) (start now : Int) (h : Staged capacity p k d x) :
    ∃ k', Staged capacity p k' d (x.withStreaming (x.streaming.error e start now)) := by
  have ⟨k', hs⟩ := h.stages.error e start now
  exact ⟨k', h.boundary.withMotion _, h.published, hs, h.topic⟩

theorem step (h : Staged capacity p k d x) (hi : i.Within capacity)
    (ht : Printer.step i x = .ok x') : ∃ p' k' d', Staged capacity p' k' d' x' := by
  cases i
  case tick =>
    have ⟨d', _, h⟩ := h.tick hi ht
    exact ⟨p, k, d', h⟩
  case target =>
    cases ht
    have ⟨p', h⟩ := h.target
    exact ⟨p', k, d, h⟩
  case error e start now =>
    cases ht
    have ⟨k', h⟩ := h.error e start now
    exact ⟨p, k', d, h⟩
  all_goals
    cases ht
    have hs := h.stages
    exact ⟨p, k, d, { h with
      stages := { hs with fronted := ⟨hs.fronted.active, hs.fronted.front⟩ } }⟩

theorem run (h : Staged capacity p k d x) (hi : ∀ i ∈ is, i.Within capacity)
    (e : Run Printer.step x is x') : ∃ p' k' d', Staged capacity p' k' d' x' := by
  induction e generalizing p k d
  case refl => exact ⟨p, k, d, h⟩
  case cons ht _ ih =>
    rw [List.forall_mem_cons] at hi
    have ⟨_, _, _, h⟩ := h.step hi.left ht
    exact ih h hi.right

end Staged

theorem Input.within_max (i : Input) : i.Within 0xFFFFFFFF := by
  cases i
  case tick => exact fun turn _ => Streaming.Input.within_max (.spin turn)
  all_goals trivial

end Printer

open Printer

-- The commands that the firmware has accepted in a session have been published one by one. Each one
-- is at exactly one place: its completion has been delivered or is under way, or the other node has
-- its target, or the target is under way.
theorem commands_accounted [Arithmetic Double] (b : Booted s)
    (e : Run step { firmware := s } is x) :
    x.firmware.motion.controller.targetPub = x.firmware.history.targets ∧
    x.firmware.history.targets.reverse.map (·.sequenceId) =
      x.delivered ++ x.completions ++ x.world.pendingTargets ++ x.targets.map (·.sequenceId) ∧
    x.targets <:+ x.firmware.history.targets.reverse ∧
    x.firmware.motion.controller.inflight.toNat =
      x.completions.length + x.world.pendingTargets.length + x.targets.length ∧
    ∀ capacity, (∀ i ∈ is, i.Within capacity) →
      x.firmware.motion.controller.inflight.toNat ≤ max 5 capacity.toNat := by
  have ⟨p, k, d, h⟩ := (Staged.fresh b).run (fun i _ => i.within_max) e
  refine ⟨h.published, h.sequence, h.topic, h.inflight, fun capacity hw => ?_⟩
  have ⟨p, k, d, h⟩ := (Staged.fresh b).run hw e
  have hn : x.firmware.motion.controller.inflight.toNat = _ := h.stages.inflight
  have hv := h.stages.window
  omega

-- Two segments of a job, of which the first one has been completed.
theorem commands_accounted_two :
    ∃ s x is, Booted s ∧ Run (@step zeroOne) { firmware := s } is x ∧ x.delivered = [1] ∧
      x.firmware.history.targets.reverse.map (·.sequenceId) =
        x.delivered ++ x.completions ++ x.world.pendingTargets ++ x.targets.map (·.sequenceId) := by
  have ⟨s, hb, h⟩ : ∃ s, boot {} none = .ok s ∧
      Reaches (@step zeroOne) (·.delivered = [1]) { firmware := s } [
        .tick {} [], .tick (.submit 1 2) [], .tick (.issue 1 1) [], .target, .error .origin 0 0,
        .error .origin 500000000 500000000, .tick {} [{ deliveries := [.worldComplete 7] }]] :=
    ⟨_, rfl, by decide +kernel⟩
  have ⟨x, e, hd⟩ := h.run
  exact ⟨s, x, _, ⟨_, _, hb⟩, e, hd, (@commands_accounted _ _ _ zeroOne ⟨_, _, hb⟩ e).2.1⟩

end Fabrication
