import MobilePrinter.Fabrication.Theorems.Rounds

open Transition

namespace Fabrication

open Firmware Numbering

namespace Printer

variable {x x' : Printer} {s : State} {t t' : Int} {i : TickInput} {turns : List Turn}
  {input : Input} {is : List Input} {p k d n n' : Nat}

-- What is left to do, weighed by the stations that it has still to pass.
def rank (x : Printer) : Nat :=
  4 * x.firmware.remaining.length + 3 * x.targets.length + 2 * x.world.pendingTargets.length +
    x.completions.length

-- The execution of `s` goes on in `x` at the time `t`.
structure Going (s : State) (t : Int) (x : Printer) : Prop where
  ongoing : s.Ongoing x.firmware
  staged  : ∃ p k d, Staged 0xFFFFFFFF p k d x
  room    : 0 < x.firmware.motion.controller.room
  dwell   : x.world.withinThreshold = true → x.world.withinThresholdStart ≤ t

-- Nothing has moved on but the clock. A dwell goes on.
structure Idle (x x' : Printer) : Prop where
  targets     : x.targets = [] → x'.targets = []
  pending     : x'.world.pendingTargets = x.world.pendingTargets
  completions : x'.completions = x.completions
  dwell       : x.world.withinThreshold = true → x'.world.withinThreshold = true ∧
    x'.world.withinThresholdStart = x.world.withinThresholdStart

-- The machine is where a round has brought it that has not moved anything on.
def At (x : Printer) : Phase → Prop
  | .begun          => True
  | .received       => x.targets = []
  | .dwelling start => x.targets = [] ∧ (x.world.pendingTargets ≠ [] →
    x.world.withinThreshold = true ∧ x.world.withinThresholdStart ≤ start)
  | .dwelt          => x.targets = [] ∧ x.world.pendingTargets = []

theorem Idle.at (h : Idle x x') (ha : x.At phase) : x'.At phase := by
  cases phase
  case begun    => trivial
  case received => exact h.targets ha
  case dwelling =>
    refine ⟨h.targets ha.left, fun hp => ?_⟩
    rw [h.pending] at hp
    have ⟨hw, hs⟩ := h.dwell (ha.right hp).left
    exact ⟨hw, hs ▸ (ha.right hp).right⟩
  case dwelt    => exact ⟨h.targets ha.left, h.pending.trans ha.right⟩

-- What a fair step comes to: the job is completed, or it goes on and something has moved on, or
-- nothing has.
def Fares (s : State) (t : Int) (x x' : Printer) : Prop :=
  s.Concluded x'.firmware ∨
    (Going s t x' ∧ (x'.rank < x.rank ∨ (x'.rank = x.rank ∧ Idle x x')))

theorem Staged.targets_length (h : Staged capacity p k d x) :
    x.targets.length = x.firmware.history.targets.length - p := by
  have hl := congrArg List.length h.stages.targets
  rw [List.length_map, between_length] at hl
  exact hl

theorem Staged.rank (h : Staged capacity p k d x) : x.rank = 4 * x.firmware.remaining.length +
    3 * (x.firmware.history.targets.length - p) + 2 * (p - k) + (k - d) := by
  have hp := congrArg List.length h.stages.pending
  have hc := congrArg List.length h.stages.completions
  rw [between_length] at hp hc
  change x.world.pendingTargets.length = _ at hp
  change x.completions.length = _ at hc
  rw [Printer.rank, h.targets_length, hp, hc]

theorem Going.remaining (g : Going s t x) : x.firmware.remaining.length =
    x.firmware.activeJob.totalSegments - x.firmware.exec.cursor :=
  State.remaining_length g.ongoing.boundary.wellFormed g.ongoing.executing g.ongoing.finishable

theorem Going.admits (g : Going s t x) (hl : turns.length ≤ 1)
    (hf : ∀ turn ∈ turns, ∀ d ∈ turn.deliveries, d.Favours) (ht : x.targets = [])
    (hp : x.world.pendingTargets = []) (hc : x.completions = []) :
    x.firmware.Admits { i with spin := (x.streaming.schedule turns).1 } := by
  obtain ⟨p, k, d, h⟩ := g.staged
  have hw : ∀ turn ∈ turns, turn.Within 0xFFFFFFFF := fun turn _ =>
    Streaming.Input.within_max (.spin turn)
  have ⟨d', hd, hk, tr, _⟩ := h.stages.schedule hw
  have ⟨d₁, h₁, tr⟩ := tr.spin
  have hn := h.inflight
  have hi : x.firmware.motion.controller.inflight.toNat = _ := h.stages.inflight
  have hr : Roomy { x.streaming.motion with schedule := (x.streaming.schedule turns).1 } :=
    ⟨g.room, Streaming.favours_schedule hf⟩
  constructor
  case last =>
    apply List.eq_nil_of_length_eq_zero
    change (x.streaming.schedule turns).1.tail.length = 0
    rw [List.length_tail, Streaming.schedule_length]
    omega
  case room =>
    have hd₁ : d₁ ≤ x.firmware.history.targets.length :=
      Nat.le_trans tr.ordered (Nat.le_trans hk h.stages.completed_le)
    have hz : x.firmware.history.targets.length - d₁ = 0 := by
      simp only [hi, ht, hp, hc, List.length_nil] at hn
      omega
    have he := (tr.inflight hd₁).trans (congrArg UInt32.ofNat hz)
    exact lt_of_eq_of_lt he hr.spin.room

theorem Staged.rank_le (h : Staged capacity p k d x) (h' : Staged capacity p k d' x') (hd : d ≤ d')
    (hm : State.Moved x.firmware x'.firmware moves) :
    x'.rank + moves.length + (d' - d) ≤ x.rank := by
  have hr := hm.length
  have hn : x'.firmware.history.targets.length ≤
      moves.length + x.firmware.history.targets.length := by
    rw [hm.history]
    simpa using History.targets_le moves.reverse x.firmware.history
  have hs := h.stages.sent
  have hs' := h'.stages.sent
  have hc := h'.stages.completed
  rw [h.rank, h'.rank]
  omega

theorem Staged.idle (h : Staged capacity p k d x) (h' : Staged capacity p k d' x') (hd : d ≤ d')
    (hm : State.Moved x.firmware x'.firmware moves) (hw : x'.world = x.world)
    (he : x'.rank = x.rank) : Idle x x' := by
  have hl := h.rank_le h' hd hm
  obtain rfl : d' = d := by omega
  have hz : moves.length = 0 := by omega
  constructor
  case targets =>
    intro ht
    have hr := hm.length
    have hn := h.targets_length
    have hn' := h'.targets_length
    rw [h.rank, h'.rank] at he
    rw [ht, List.length_nil] at hn
    exact List.eq_nil_of_length_eq_zero (by omega)
  case pending     => exact congrArg (·.pendingTargets) hw
  case completions =>
    have hk : x'.completions = between .ofNat d' k := h'.stages.completions
    exact hk.trans h.stages.completions.symm
  case dwell       =>
    rw [hw]
    exact fun hw => ⟨hw, rfl⟩

theorem Going.tick (g : Going s t x) (hi : i.Undisturbed)
    (hf : ∀ turn ∈ turns, ∀ d ∈ turn.deliveries, d.Favours) :
    ∃ x', x.tick i turns = .ok x' ∧ Fares s t x x' ∧
      (x.firmware.Admits { i with spin := (x.streaming.schedule turns).1 } →
        s.Concluded x'.firmware ∨ x'.rank < x.rank) := by
  obtain ⟨p, k, d, h⟩ := g.staged
  have hu : TickInput.Undisturbed { i with spin := (x.streaming.schedule turns).1 } :=
    ⟨hi.command, hi.safe⟩
  have ⟨s', hx, hc⟩ := State.tick_undisturbed g.ongoing.boundary g.ongoing.executing
    g.ongoing.finishable hu
  obtain ⟨x', ht, hfw, hwd⟩ : ∃ x', x.tick i turns = .ok x' ∧
      x'.firmware = { s' with motion := Streaming.drain s'.motion } ∧ x'.world = x.world :=
    ⟨_, congrArg (Except.map _) hx, rfl, Streaming.schedule_world turns⟩
  refine ⟨x', ht, ?_⟩
  have ⟨d', hd, h'⟩ := h.tick (fun turn _ => Streaming.Input.within_max (.spin turn)) ht
  have ⟨_, hm⟩ := g.ongoing.moved
  cases hc
  case inl hc =>
    have hc : s.Concluded x'.firmware := hfw ▸ (hm.concluded hc).withMotion _
    exact ⟨.inl hc, fun _ => .inl hc⟩
  case inr hc =>
    have ⟨ho, _, ha⟩ := hc
    have ho : State.Ongoing x.firmware x'.firmware := hfw ▸ ho.withMotion _
    have hv : Roomy s'.motion := by
      refine .tick g.ongoing.boundary.wellFormed ⟨g.room, ?_⟩ (Streaming.favours_schedule hf) hx
      rw [show x.firmware.motion.schedule = [] from h.stages.idle]
      exact List.forall_mem_nil _
    have g' : Going s t x' :=
      ⟨g.ongoing.trans ho, ⟨p, k, d', h'⟩, hfw ▸ hv.drain.room, hwd ▸ g.dwell⟩
    have ⟨moves, hmv⟩ := ho.moved
    have hr := h.rank_le h' hd hmv
    refine ⟨.inr ⟨g', ?_⟩, fun hx => .inr ?_⟩
    · by_cases he : x'.rank = x.rank
      · exact .inr ⟨he, h.idle h' hd hmv hwd he⟩
      · exact .inl (by omega)
    · have hl : x'.firmware.activeJob.totalSegments - x'.firmware.exec.cursor <
          x.firmware.activeJob.totalSegments - x.firmware.exec.cursor := hfw ▸ ha hx
      have hn := hmv.length
      rw [← g.remaining, ← g'.remaining] at hl
      omega

-- With no target on its way to the other node or at it, an iteration that receives a completion
-- moves something on.
theorem Going.tick_completes (g : Going s t x) (hi : i.Undisturbed)
    (hf : ∀ d ∈ turn.deliveries, d.Favours) (hc : turn.Completes) (ha : x.At .dwelt) :
    ∃ x', x.tick i [turn] = .ok x' ∧
      (s.Concluded x'.firmware ∨ Going s t x' ∧ x'.rank < x.rank) := by
  have hf : ∀ turn' ∈ [turn], ∀ d ∈ turn'.deliveries, d.Favours := by simpa using hf
  have ⟨x', ht, hx, ha'⟩ := g.tick hi hf
  refine ⟨x', ht, ?_⟩
  by_cases hz : x.completions = []
  case pos =>
    cases hx
    case inl hx => exact .inl hx
    case inr hx =>
      have had := g.admits (i := i) (Nat.le_refl [turn].length) hf ha.left ha.right hz
      exact (ha' had).imp_right fun hr => ⟨hx.left, hr⟩
  case neg =>
    obtain ⟨now, hc⟩ := hc
    have hl := Streaming.receiveAll_completes (s := x.streaming) hc hz
    have hs : x'.completions = (x.streaming.schedule [turn]).2.completions := by
      obtain ⟨_, _, rfl⟩ := map_eq_ok.mp ht
      rfl
    obtain hx | ⟨g', hr | ⟨_, hd⟩⟩ := hx
    · exact .inl hx
    · exact .inr ⟨g', hr⟩
    · rw [hd.completions] at hs
      exact absurd hl (hs ▸ Nat.lt_irrefl _)

theorem Idle.of_world (hp : c.pendingTargets = x.world.pendingTargets)
    (hw : c.withinThreshold = x.world.withinThreshold)
    (hs : c.withinThresholdStart = x.world.withinThresholdStart) : Idle x { x with world := c } :=
  ⟨fun h => h, hp, rfl, fun h => ⟨hw.trans h, hs⟩⟩

variable [Arithmetic Double]

theorem Going.target (g : Going s t x) : Going s t (x.withStreaming x.streaming.target) ∧
    ((x.withStreaming x.streaming.target).rank < x.rank ∨
      x.withStreaming x.streaming.target = x ∧ x.targets = []) := by
  obtain ⟨p, k, d, h⟩ := g.staged
  have ⟨p', h'⟩ := h.target
  cases ht : x.targets
  case nil =>
    have he : x.streaming.target = x.streaming := Streaming.target_of_nil ht
    rw [he] at h' ⊢
    exact ⟨g, .inr ⟨rfl, rfl⟩⟩
  case cons msg rest =>
    have he := Streaming.target_of_cons (s := x.streaming) ht
    rw [he] at h' ⊢
    have hs : WorldMotionController.Steady x.world (x.world.motionTargetCallback msg).2.2 :=
      .motionTargetCallback
    refine ⟨⟨g.ongoing, ⟨p', k, d, h'⟩, g.room, ?_⟩, .inl ?_⟩
    case refine_1 =>
      intro hw
      exact hs.start ▸ g.dwell (hs.within ▸ hw)
    case refine_2 =>
      have hp : (x.world.motionTargetCallback msg).2.2.pendingTargets.length =
          x.world.pendingTargets.length + 1 := by
        rw [WorldMotionController.motionTargetCallback_pending, List.length_append]
        rfl
      have hr : x.rank = 4 * x.firmware.remaining.length + 3 * (rest.length + 1) +
          2 * x.world.pendingTargets.length + x.completions.length := by
        rw [rank, ht, List.length_cons]
      change 4 * x.firmware.remaining.length + 3 * rest.length +
        2 * (x.world.motionTargetCallback msg).2.2.pendingTargets.length + x.completions.length < _
      omega

theorem Going.error (g : Going s t x) (hw : WorldMotionController.Within e) (h₁ : t ≤ start)
    (h₂ : start ≤ now) : Going s now (x.withStreaming (x.streaming.error e start now)) ∧
      ((x.withStreaming (x.streaming.error e start now)).rank < x.rank ∨
        (x.withStreaming (x.streaming.error e start now)).rank = x.rank ∧
        Idle x (x.withStreaming (x.streaming.error e start now)) ∧
        (x.world.pendingTargets ≠ [] →
          (x.world.errorCallback e start now).2.Dwelling start now)) := by
  obtain ⟨p, k, d, h⟩ := g.staged
  obtain ⟨k', h'⟩ := h.error e start now
  have hf : x.world.Fronted := h.stages.fronted
  have hd (hd : x.world.withinThreshold = true) : x.world.withinThresholdStart ≤ start :=
    Int.le_trans (g.dwell hd) h₁
  have he := hf.errorCallback_within now hw hd
  simp only [Streaming.error, streaming] at h' ⊢
  generalize x.world.errorCallback e start now = r at h' he ⊢
  have hg : Going s now (x.withStreaming { x.streaming with
      world       := r.2
      completions := x.completions ++ r.1.toList
      published   := x.published ++ r.1.toList }) :=
    ⟨g.ongoing, ⟨p, k', d, h'⟩, g.room, fun hd => Int.le_trans (he.left hd) h₂⟩
  refine ⟨hg, ?_⟩
  cases he.right
  case inl hc =>
    obtain ⟨seq, hs, hp⟩ := hc
    left
    simp only [rank, withStreaming, hs, Option.toList_some, List.length_append, ← hp]
    change 4 * x.firmware.remaining.length + _ + _ + _ < _
    simp only [List.length_singleton]
    omega
  case inr hc =>
    obtain ⟨hn, hp, hd, hl⟩ := hc
    right
    rw [hn, Option.toList_none, List.append_nil, List.append_nil]
    refine ⟨?_, ⟨fun h => h, hp, rfl, hd⟩, hl⟩
    simp only [rank, withStreaming, hp]

theorem Going.fair (g : Going s t x) (h : Fair t input t') :
    ∃ x', step input x = .ok x' ∧ Fares s t' x x' := by
  cases h
  case tick hi hf =>
    have ⟨x', ht, h, _⟩ := g.tick hi hf
    exact ⟨x', ht, h⟩
  case target =>
    have ⟨g', h⟩ := g.target
    refine ⟨_, rfl, .inr ⟨g', h.imp_right fun h => ?_⟩⟩
    rw [h.left]
    exact ⟨rfl, .of_world rfl rfl rfl⟩
  case error hw h₁ h₂ =>
    have ⟨g', h⟩ := g.error hw h₁ h₂
    exact ⟨_, rfl, .inr ⟨g', h.imp_right fun h => ⟨h.left, h.right.left⟩⟩⟩
  case toolPose =>
    obtain ⟨_, _, _, hs⟩ := g.staged
    have hs := hs.step (Input.within_max .toolPose) rfl
    exact ⟨_, rfl, .inr ⟨⟨g.ongoing, hs, g.room, g.dwell⟩, .inr ⟨rfl, .of_world rfl rfl rfl⟩⟩⟩
  case odom a b =>
    obtain ⟨_, _, _, hs⟩ := g.staged
    have hs := hs.step (Input.within_max (.odom a b)) rfl
    exact ⟨_, rfl, .inr ⟨⟨g.ongoing, hs, g.room, g.dwell⟩, .inr ⟨rfl, .of_world rfl rfl rfl⟩⟩⟩

-- The run on `is` completes the job on its way or ends at the time `t` with a lower rank.
def Ends (s : State) (t : Int) (rank : Nat) (x : Printer) (is : List Input) : Prop :=
  ∃ is₁ is₂ x', is = is₁ ++ is₂ ∧ Run step x is₁ x' ∧
    (s.Concluded x'.firmware ∨ (is₂ = [] ∧ Going s t x' ∧ x'.rank < rank))

theorem Ends.concluded (hs : step input x = .ok x') (hc : s.Concluded x'.firmware) :
    Ends s t n x (input :: is) :=
  ⟨[input], is, x', rfl, .cons hs .refl, .inl hc⟩

theorem Ends.cons (hs : step input x = .ok x') (h : Ends s t n x' is) (hn : n ≤ n') :
    Ends s t n' x (input :: is) := by
  obtain ⟨is₁, is₂, x₂, rfl, e, h⟩ := h
  refine ⟨input :: is₁, is₂, x₂, rfl, .cons hs e, h.imp_right fun h => ?_⟩
  exact ⟨h.left, h.right.left, Nat.lt_of_lt_of_le h.right.right hn⟩

theorem Going.fairly (g : Going s t x) (h : Fairly t is t') : Ends s t' (x.rank + 1) x is := by
  induction h generalizing x
  case nil => exact ⟨[], [], x, rfl, .refl, .inr ⟨rfl, g, Nat.lt_succ_self _⟩⟩
  case cons hi _ ih =>
    have ⟨x', hs, h⟩ := g.fair hi
    obtain hc | ⟨g', hr | ⟨hr, _⟩⟩ := h
    · exact .concluded hs hc
    · exact .cons hs (ih g') (Nat.succ_le_succ (Nat.le_of_lt hr))
    · exact .cons hs (ih g') (Nat.le_of_eq (congrArg (· + 1) hr))

-- A round moves something on, however little it is. As long as it has not, every visit finds less
-- that it could still move.
theorem Going.visits (g : Going s t x) (ha : x.At phase) (h : Fairly t is t')
    (hv : Visits phase is) : Ends s t' x.rank x is := by
  induction hv generalizing x t
  case skip ih =>
    cases h
    case cons hi h =>
      have ⟨x', hs, hx⟩ := g.fair hi
      obtain hc | ⟨g', hr | ⟨hr, hd⟩⟩ := hx
      · exact .concluded hs hc
      · exact .cons hs (g'.fairly h) hr
      · exact .cons hs (ih g' (hd.at ha) h) (Nat.le_of_eq hr)
  case target ih =>
    obtain _ | ⟨_ | _, h⟩ := h
    have ⟨g', hx⟩ := g.target
    cases hx
    case inl hr => exact .cons rfl (g'.fairly h) hr
    case inr hx =>
      have ⟨he, ht⟩ := hx
      refine .cons rfl (ih g' ?_ h) (Nat.le_of_eq (congrArg rank he))
      rw [he]
      exact ht
  case enter ih =>
    obtain _ | ⟨_ | _ | ⟨hw, h₁, h₂⟩, h⟩ := h
    have ⟨g', hx⟩ := g.error hw h₁ h₂
    cases hx
    case inl hr => exact .cons rfl (g'.fairly h) hr
    case inr hx =>
      have ⟨hr, hd, hl⟩ := hx
      refine .cons rfl (ih g' ⟨hd.targets ha, fun hp => ?_⟩ h) (Nat.le_of_eq hr)
      have hl := hl (hd.pending ▸ hp)
      exact ⟨hl.within, hl.begun⟩
  case dwell ht _ ih =>
    obtain _ | ⟨_ | _ | ⟨hw, h₁, h₂⟩, h⟩ := h
    have ⟨g', hx⟩ := g.error hw h₁ h₂
    cases hx
    case inl hr => exact .cons rfl (g'.fairly h) hr
    case inr hx =>
      have ⟨hr, hd, hl⟩ := hx
      refine .cons rfl (ih g' ⟨hd.targets ha.left, ?_⟩ h) (Nat.le_of_eq hr)
      by_contra hp
      rw [hd.pending] at hp
      have hg := (hl hp).goes
      have hb := (ha.right hp).right
      have hs : (x.world.errorCallback _ _ _).2.withinThresholdStart = _ :=
        (hd.dwell (ha.right hp).left).right
      rw [hs] at hg
      omega
  case tick hc =>
    obtain _ | ⟨⟨hi, hf⟩ | _, h⟩ := h
    rw [List.forall_mem_singleton] at hf
    have ⟨x', hs, hx⟩ := g.tick_completes hi hf hc ha
    cases hx
    case inl hx => exact .concluded hs hx
    case inr hx => exact .cons hs (hx.left.fairly h) hx.right

theorem Going.rounds (g : Going s t x) (h : Rounds t iss) (hn : x.rank < iss.length) :
    ∃ is₁ is₂ x', iss.flatten = is₁ ++ is₂ ∧ Run step x is₁ x' ∧ s.Concluded x'.firmware := by
  induction h generalizing x
  case nil => exact absurd hn (Nat.not_lt_zero _)
  case cons is _ iss hr _ ih =>
    have ha : x.At .begun := trivial
    obtain ⟨is₁, is₂, x', rfl, e, h⟩ := g.visits ha hr.fairly hr.visits
    cases h
    case inl hc => exact ⟨is₁, is₂ ++ iss.flatten, x', by simp, e, hc⟩
    case inr h =>
      obtain ⟨rfl, g', hl⟩ := h
      rw [List.length_cons] at hn
      have ⟨js₁, js₂, x₂, he, e', hc⟩ := ih g' (by omega)
      refine ⟨is₁ ++ js₁, js₂, x₂, ?_, e.trans e', hc⟩
      rw [List.flatten_cons, he, List.append_nil, List.append_assoc]

end Printer

open Printer

end Fabrication
