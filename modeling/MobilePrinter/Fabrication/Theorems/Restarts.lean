import MobilePrinter.Fabrication.Restarts
import MobilePrinter.Fabrication.Theorems.Accounting

namespace Fabrication

open Firmware Numbering Transition

theorem ofNat_lt {i j : Nat} (h : i < j) (hj : j < UInt32.size) : UInt32.ofNat i < .ofNat j :=
  (UInt32.ofNat_lt_iff_lt (Nat.lt_trans h hj) hj).mpr h

theorem ne_zero_of_between (hb : b < UInt32.size) (h : seq ∈ between UInt32.ofNat a b) :
    seq ≠ 0 := by
  have ⟨i, ha, hi, hs⟩ := mem_between.mp h
  rw [← hs]
  exact (UInt32.ne_of_lt (ofNat_lt (Nat.zero_lt_of_lt ha) (Nat.lt_of_le_of_lt hi hb))).symm

theorem eq_nil_of_head {xs : List α} {P : α → Prop} (h : ∀ x ∈ xs.head?, P x)
    (hn : ∀ x ∈ xs, ¬P x) : xs = [] := by
  cases xs
  case nil      => rfl
  case cons x _ => exact absurd (h x rfl) (hn x List.mem_cons_self)

variable {s s' : Streaming} {n p k d sent missed : Nat} {seq : UInt32}
  {e : Position Double}

namespace Restarts

-- No completion overtakes another one, and a restart finds no target and no completion of the old
-- session that the new one will still see.
def Clean : Input → Streaming → Prop
  | .session _, _           => True
  | .overtake index, s      => index = 0 ∨ s.completions.length ≤ index
  | .restart sent missed, s =>
    s.targets.take sent = [] ∧ s.world.pendingTargets = [] ∧ s.completions.drop missed = []

instance {i : Input} : Decidable (Clean i s) :=
  match i with
  | .session _   => .isTrue trivial
  | .overtake _  => inferInstanceAs (Decidable (_ ∨ _))
  | .restart _ _ => inferInstanceAs (Decidable (_ ∧ _ ∧ _))

end Restarts

namespace Streaming

-- The session has submitted fewer targets than there are sequence numbers.
def Few (s : Streaming) : Prop :=
  s.motion.controller.targetPub.length < UInt32.size

instance : Decidable (Few s) :=
  inferInstanceAs (Decidable (_ < _))

theorem overtake_of_clean (h : Restarts.Clean (.overtake index) s) : s.overtake index = s := by
  have hc : s.completions[index]?.toList ++ s.completions.eraseIdx index = s.completions := by
    cases h
    case inl h => subst h; cases s.completions <;> rfl
    case inr h => rw [List.getElem?_eq_none h, List.eraseIdx_of_length_le h]; rfl
  rw [overtake, hc]

theorem Stages.restart (h : Stages capacity n p k d s)
    (hc : Restarts.Clean (.restart sent missed) s) :
    Stages capacity 0 0 0 0 (s.restart sent missed) where
  tracks      := fresh.tracks
  idle        := rfl
  fronted     := ⟨h.fronted.active, h.fronted.front⟩
  submissions := rfl
  targets     := congrArg (List.map _) hc.left
  pending     := hc.right.left
  completions := hc.right.right
  published   := rfl
  delivered   := rfl
  sent        := Nat.le_refl 0
  received    := Nat.le_refl 0
  completed   := Nat.le_refl 0
  window      := Nat.zero_le _

theorem spin_worldComplete {completions : List UInt32} (h : s.completions = seq :: completions) :
    s.spin { deliveries := [.worldComplete 0] } =
      { s with
        motion      := { controller := s.motion.controller.onWorldComplete seq 0 }
        completions := completions
        delivered   := s.delivered ++ [seq] } := by
  simp [spin, schedule, receiveAll, receive, h, drain, RosMotion.spin,
    RosSimMotionController.deliver]

variable [Arithmetic Double]

-- The last completed number never moves backwards and never exceeds the last submitted one, so that
-- their difference does not wrap, and the controller can still become ready.
structure Sound (s : Streaming) : Prop where
  forward   : s.delivered.Pairwise (· ≤ ·)
  submitted : s.motion.controller.lastCompletedSeq ≤ s.motion.controller.lastSubmittedSeq
  inflight  : s.motion.controller.inflight.toNat =
    s.motion.controller.lastSubmittedSeq.toNat - s.motion.controller.lastCompletedSeq.toNat
  ready     : CanReach step (fun _ _ => True) (·.motion.isReady.1 = true) s

-- Whatever the rest of the session brings, its counters are sound.
def Survives (s : Streaming) : Prop :=
  ∀ is s', Run step s is s' → s'.Few → s'.Sound

open WorldMotionController in
theorem error_completes {pending : List UInt32} (hf : s.world.Fronted)
    (hp : s.world.pendingTargets = seq :: pending) (he : Within e) :
    ∃ now, (s.error e 0 now).world.pendingTargets = pending ∧
      (s.error e 0 now).completions = s.completions ++ [seq] := by
  have ha : s.world.targetActive = true := hf.active.mpr (by rw [hp]; exact List.cons_ne_nil _ _)
  have hs : s.world.activeSeq = seq := hf.front seq (by rw [hp]; rfl)
  refine ⟨(s.world.enterThreshold 0).withinThresholdStart + completeTime, ?_⟩
  have h := errorCallback_handles s.world e 0 <|
    (s.world.enterThreshold 0).withinThresholdStart + completeTime
  simp only [error]
  generalize s.world.errorCallback e 0 _ = r at h
  cases h
  case idle h        => simp [ha] at h
  case lost h        => exact absurd he h
  case dwells h      => omega
  case completes     =>
    rw [complete_pending, complete_seq, enterThreshold_pending, enterThreshold_activeSeq, hp, hs]
    exact ⟨rfl, rfl⟩

namespace Stages

theorem ready_of_drained (h : Stages capacity n p k d s) (ht : s.targets = [])
    (hp : s.world.pendingTargets = []) (hc : s.completions = []) :
    CanReach step (fun _ _ => True) (·.motion.isReady.1 = true) s := by
  have hn : n ≤ p := between_eq_nil.mp (h.targets.symm.trans (by rw [ht]; rfl))
  have hk : p ≤ k := between_eq_nil.mp (h.pending.symm.trans hp)
  have hd : k ≤ d := between_eq_nil.mp (h.completions.symm.trans hc)
  have hi : s.motion.controller.inflight = 0 := by
    rw [← UInt32.toNat_inj, h.inflight]
    exact Nat.sub_eq_zero_of_le (Nat.le_trans hn (Nat.le_trans hk hd))
  refine .step (i := Input.spin { deliveries := [.motionStatus true 0 0 0] }) trivial rfl (.here ?_)
  have hs : RosMotion.Serves
      (s.spin { deliveries := [.motionStatus true 0 0 0] }).motion 0 := ⟨rfl, rfl, rfl, hi⟩
  exact congrArg Prod.fst (hs.isReady (by decide))

theorem ready_of_completed {completions : List UInt32} (h : Stages capacity n p k d s)
    (ht : s.targets = []) (hp : s.world.pendingTargets = []) (hc : s.completions = completions) :
    CanReach step (fun _ _ => True) (·.motion.isReady.1 = true) s := by
  induction completions generalizing s d
  case nil => exact h.ready_of_drained ht hp hc
  case cons seq completions ih =>
    have ⟨d', h⟩ := h.spin { deliveries := [.worldComplete 0] }
      (List.forall_mem_singleton.mpr trivial)
    have hs := spin_worldComplete hc
    have hr := ih h (by rw [hs, ht]) (by rw [hs, hp]) (by rw [hs])
    exact .step (i := Input.spin { deliveries := [.worldComplete 0] }) trivial rfl hr

theorem ready_of_received {pending : List UInt32} (he : WorldMotionController.Within e)
    (h : Stages capacity n p k d s) (ht : s.targets = []) (hp : s.world.pendingTargets = pending) :
    CanReach step (fun _ _ => True) (·.motion.isReady.1 = true) s := by
  induction pending generalizing s k
  case nil => exact h.ready_of_completed ht hp rfl
  case cons seq pending ih =>
    have ⟨now, hp, _⟩ := error_completes h.fronted hp he
    have ⟨k', h⟩ := h.error e 0 now
    have hr := ih h ht hp
    exact .step (i := Input.error e 0 now) trivial rfl hr

-- What is under way can be brought to its end, target by target and completion by completion.
theorem ready {targets : List MotionTarget} (he : WorldMotionController.Within e)
    (h : Stages capacity n p k d s) (ht : s.targets = targets) :
    CanReach step (fun _ _ => True) (·.motion.isReady.1 = true) s := by
  induction targets generalizing s p
  case nil => exact h.ready_of_received he ht rfl
  case cons msg targets ih =>
    have ⟨p', h⟩ := h.target
    have ht : s.target.targets = targets := by simp [Streaming.target, ht]
    have hr := ih h ht
    exact .step (i := Input.target) trivial rfl hr

theorem sound (he : WorldMotionController.Within e) (h : Stages capacity n p k d s) (hf : s.Few) :
    s.Sound where
  forward   := by
    rw [h.delivered]
    have hn : n < UInt32.size := h.counted ▸ hf
    exact between_pairwise fun hl hj =>
      UInt32.le_of_lt (ofNat_lt hl (Nat.lt_of_le_of_lt (Nat.le_trans hj h.delivered_le) hn))
  submitted := h.ordered (h.counted ▸ hf)
  inflight  := UInt32.toNat_sub_of_le _ _ (h.ordered (h.counted ▸ hf))
  ready     := h.ready he rfl

theorem survives (he : WorldMotionController.Within e) (h : Stages 0xFFFFFFFF n p k d s) :
    s.Survives := by
  intro is s' e hf
  have ⟨_, _, _, _, h⟩ := h.run e fun i _ => i.within_max
  exact h.sound he hf

end Stages

namespace Survives

theorem next (i : Input) (h : s.Survives) : (s.next i).Survives :=
  fun is s' e => h (i :: is) s' (.cons rfl e)

theorem deliver {completions : List UInt32} (h : s.Survives)
    (hc : s.completions = seq :: completions) :
    { s with
      motion      := { controller := s.motion.controller.onWorldComplete seq 0 }
      completions := completions
      delivered   := s.delivered ++ [seq] : Streaming }.Survives := by
  have hn := h.next (.spin { deliveries := [.worldComplete 0] })
  rwa [Streaming.next, spin_worldComplete hc] at hn

theorem head_completions (h : s.Survives) (hf : s.Few)
    (hl : s.motion.controller.lastSubmittedSeq = 0) : ∀ seq ∈ s.completions.head?, seq = 0 := by
  cases hc : s.completions
  case nil => nofun
  case cons seq completions =>
    intro _ hm
    cases hm
    have hs := (h.deliver hc [] _ .refl hf).submitted
    exact UInt32.le_zero_iff.mp (hl ▸ hs)

theorem head_pending (h : s.Survives) (he : WorldMotionController.Within e) (hf : s.Few)
    (hl : s.motion.controller.lastSubmittedSeq = 0) (hw : s.world.Fronted)
    (hc : s.completions = []) : ∀ seq ∈ s.world.pendingTargets.head?, seq = 0 := by
  cases hp : s.world.pendingTargets
  case nil => nofun
  case cons seq pending =>
    intro _ hm
    cases hm
    have ⟨now, _, hd⟩ := error_completes hw hp he
    rw [hc, List.nil_append] at hd
    exact (h.next (.error e 0 now)).head_completions hf hl seq (by rw [Streaming.next, hd]; rfl)

theorem head_targets (h : s.Survives) (he : WorldMotionController.Within e) (hf : s.Few)
    (hl : s.motion.controller.lastSubmittedSeq = 0) (hw : s.world.Fronted)
    (hc : s.completions = []) (hp : s.world.pendingTargets = []) :
    ∀ msg ∈ s.targets.head?, msg.sequenceId = 0 := by
  cases ht : s.targets
  case nil => nofun
  case cons msg targets =>
    intro _ hm
    cases hm
    have hn := h.next .target
    simp only [Streaming.next, target, ht] at hn
    apply hn.head_pending he hf hl hw.motionTargetCallback hc msg.sequenceId
    rw [WorldMotionController.motionTargetCallback_pending, hp]
    rfl

end Survives

namespace Stages

-- A session survives a restart only if the restart is clean.
theorem clean_of_restart (he : WorldMotionController.Within e) (h : Stages capacity n p k d s)
    (hf : s.Few) (hs : (s.restart sent missed).Survives) :
    Restarts.Clean (.restart sent missed) s := by
  have hn : n < UInt32.size := h.counted ▸ hf
  have hp : p < UInt32.size := Nat.lt_of_le_of_lt h.sent hn
  have hk : k < UInt32.size := Nat.lt_of_le_of_lt h.received hp
  have hf : (s.restart sent missed).Few := Nat.two_pow_pos 32
  have hw : (s.restart sent missed).world.Fronted := ⟨h.fronted.active, h.fronted.front⟩
  have hc : s.completions.drop missed = [] := by
    apply eq_nil_of_head (hs.head_completions hf rfl)
    intro seq hm
    exact ne_zero_of_between hk (h.completions ▸ List.mem_of_mem_drop hm)
  have hp : s.world.pendingTargets = [] := by
    apply eq_nil_of_head (hs.head_pending he hf rfl hw hc)
    intro seq hm
    exact ne_zero_of_between hp (h.pending ▸ hm)
  have ht : s.targets.take sent = [] := by
    apply eq_nil_of_head (hs.head_targets he hf rfl hw hc hp)
    intro msg hm
    apply ne_zero_of_between (a := p) hn
    rw [← h.targets]
    exact List.mem_map_of_mem (List.mem_of_mem_take hm)
  exact ⟨ht, hp, hc⟩

theorem clean_of_overtake (h : Stages capacity n p k d s) (hf : s.Few)
    (hs : (s.overtake index).Survives) : Restarts.Clean (.overtake index) s := by
  by_contra hn
  have ⟨hi, hl⟩ := not_or.mp hn
  cases index
  case zero => exact hi rfl
  case succ j =>
    cases hc : s.completions
    case nil => exact hl (by rw [hc]; exact Nat.zero_le _)
    case cons y t =>
      have hj : j < t.length := by simpa [hc] using hl
      have ⟨_, hy, ht⟩ := between_pop (h.completions.symm.trans hc)
      have hm : t[j] ∈ between UInt32.ofNat (d + 1) k := by
        rw [ht]
        exact List.getElem_mem hj
      have ⟨i, hi, hl, hx⟩ := mem_between.mp hm
      have hn : i < UInt32.size :=
        Nat.lt_of_le_of_lt (Nat.le_trans hl h.completed_le) (h.counted ▸ hf)
      have hd : (s.overtake (j + 1)).completions = t[j] :: y :: t.eraseIdx j := by
        simp [overtake, hc, hj]
      have ho := ((hs.deliver hd).deliver rfl [] _ .refl hf).forward
      rw [List.append_assoc, List.pairwise_append] at ho
      have hxy : t[j] ≤ y := by simpa using ho.2.1
      rw [← hx, hy] at hxy
      exact UInt32.not_lt.mpr hxy (ofNat_lt hi hn)

end Stages
end Streaming

open Restarts Streaming

-- The counters survive every session of a run exactly if no restart hands anything on to the next
-- session, and no completion overtakes another one.
theorem survives_iff_clean [Arithmetic Double]
    (he : ∃ e : Position Double, WorldMotionController.Within e)
    (hf : Along Restarts.step (fun _ s => s.Few) {} is) :
    Always Restarts.step Survives {} is ↔ Along Restarts.step Clean {} is := by
  have ⟨e, he⟩ := he
  refine always_iff_along_of (I := fun s => ∃ n p k d, Stages 0xFFFFFFFF n p k d s)
    ?survives ?step ?back ⟨0, 0, 0, 0, .fresh⟩ hf
  case survives =>
    intro s ⟨n, p, k, d, h⟩
    exact h.survives he
  case step =>
    intro i s s' ⟨n, p, k, d, h⟩ _ hc hs
    cases i <;> cases hs
    case session i => exact h.next i.within_max
    case overtake =>
      rw [overtake_of_clean hc]
      exact ⟨n, p, k, d, h⟩
    case restart => exact ⟨0, 0, 0, 0, h.restart hc⟩
  case back =>
    intro i s s' ⟨n, p, k, d, h⟩ hf hv hs
    cases i <;> cases hs
    case session  => trivial
    case overtake => exact h.clean_of_overtake hf hv
    case restart  => exact h.clean_of_restart he hf hv

-- The firmware restarts once its only target has been completed.
theorem survives_iff_clean_drained :
    Always (@Restarts.step zeroOne) (@Survives zeroOne) {} [
      .session (.submit (travelTo ⟨0⟩) []), .session .target, .session (.error .origin 0 0),
      .session (.error .origin 500000000 500000000),
      .session (.spin { deliveries := [.worldComplete 7] }), .restart 0 0,
      .session (.submit (travelTo ⟨0⟩) [])] :=
  (@survives_iff_clean _ zeroOne ⟨.origin, by decide +kernel⟩ (by decide +kernel)).mpr
    (by decide +kernel)

-- The firmware restarts while its target is pending, and the completion of this target reaches the
-- new session, which has submitted nothing.
theorem survives_fails :
    ¬∀ is s, Run (@Restarts.step zeroOne) {} is s → s.Few → @Sound zeroOne s := by
  intro hc
  have h : Reaches (@Restarts.step zeroOne)
      (fun s => s.Few ∧ s.motion.controller.lastCompletedSeq = 1 ∧
        s.motion.controller.lastSubmittedSeq = 0) {} [
      .session (.submit (travelTo ⟨0⟩) []), .session .target, .restart 0 0,
      .session (.error .origin 0 0), .session (.error .origin 500000000 500000000),
      .session (.spin { deliveries := [.worldComplete 7] })] := by
    decide +kernel
  have ⟨s, e, hf, h₁, h₀⟩ := h.run
  have hs := @Sound.submitted zeroOne s (hc _ s e hf)
  rw [h₁, h₀] at hs
  exact absurd hs (by decide)

end Fabrication
