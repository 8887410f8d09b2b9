import MobilePrinter.Fabrication.Theorems.Printer
import MobilePrinter.Firmware.Theorems.Termination

open Transition

namespace Firmware

variable {s s' s'' : State} {m : RosMotion} {io : FileOutcomes}

theorem State.Moved.withMotion (h : State.Moved s s' moves) (m : RosMotion) :
    State.Moved s { s' with motion := m } moves :=
  ⟨h.history, h.remaining⟩

theorem State.Moved.length (h : State.Moved s s' moves) :
    s.remaining.length = moves.length + s'.remaining.length := by
  simpa using congrArg List.length h.remaining

theorem State.Ongoing.withMotion (o : State.Ongoing s s') (m : RosMotion) :
    State.Ongoing s { s' with motion := m } where
  boundary   := o.boundary.withMotion m
  executing  := o.executing
  finishable := o.finishable
  moved      := o.moved.imp fun _ h => h.withMotion m

theorem State.Ongoing.trans (o : State.Ongoing s s') (o' : State.Ongoing s' s'') :
    State.Ongoing s s'' := by
  obtain ⟨_, h⟩ := o.moved
  obtain ⟨_, h'⟩ := o'.moved
  exact ⟨o'.boundary, o'.executing, o'.finishable, _, h.trans h'⟩

theorem State.Concluded.withMotion (c : State.Concluded s s') (m : RosMotion) :
    State.Concluded s { s' with motion := m } where
  ready := c.ready
  freed := c.freed
  moved := c.moved

theorem State.Orchestrated.motion {m m' : State} {I : RosMotion → Prop} (c : RosMotion.Invariant I)
    (o : Orchestrated m io m') (h : I m.motion) : I m'.motion := by
  have ha {b} (a : Aborting m io b) : I b.motion := by
    cases a
    case begun => exact c.setAbortActive (c.abort h)
    case stale => exact h
  have hp {b} (a : Pausing m io b) : I b.motion := by
    cases a <;> exact h
  cases o
  case draining a _ => exact ha a
  case aborted a _  => exact c.setAbortActive (ha a)
  case paused a _ _ => exact hp a
  case released a   =>
    have h := hp a
    exact h
  all_goals exact h

theorem History.targets_le (moves : List (MotionCommand × MotionResult)) (h : History) :
    (History.targets (moves.map (fun c => .motionSubmitted c.1 c.2) ++ h)).length ≤
      moves.length + h.targets.length := by
  induction moves
  case nil => simp
  case cons c moves ih =>
    obtain ⟨cmd, res⟩ := c
    cases res
    case accepted =>
      simp only [List.map_cons, List.cons_append, History.targets, List.length_cons]
      omega
    all_goals
      refine Nat.le_trans ih ?_
      simp only [List.length_cons]
      omega

def SpinCallback.Favours (callback : SpinCallback) : Prop :=
  ∀ c : RosSimMotionController, 0 < c.room → 0 < (c.deliver callback).room

theorem SpinCallback.Favours.foldl {callbacks : List SpinCallback} {c : RosSimMotionController}
    (hf : ∀ callback ∈ callbacks, SpinCallback.Favours callback) (h : 0 < c.room) :
    0 < (callbacks.foldl .deliver c).room := by
  induction callbacks generalizing c
  case nil => exact h
  case cons callback callbacks ih =>
    rw [List.forall_mem_cons] at hf
    exact ih hf.right (hf.left c h)

end Firmware

namespace Fabrication

open Firmware Numbering

-- What the spin thread receives leaves the executor with room for a command.
def Delivery.Favours : Delivery → Prop
  | .motionStatus ready depth capacity _ =>
    0 < ({ executorReady := ready, executorQueueDepth := depth,
           executorQueueCapacity := capacity } : RosSimMotionController).room
  | _                                    => True

def Turn.Completes (turn : Turn) : Prop :=
  ∃ now, .worldComplete now ∈ turn.deliveries

-- The executor has room for a command, and still has when the callbacks have run.
structure Roomy (m : RosMotion) : Prop where
  room    : 0 < m.controller.room
  favours : ∀ slice ∈ m.schedule, ∀ callback ∈ slice.callbacks, callback.Favours

namespace Roomy

theorem spin (h : Roomy m) : Roomy m.spin := by
  cases hs : m.schedule
  case nil =>
    rw [RosMotion.Tracks.spin_of_nil hs]
    exact h
  case cons slice rest =>
    have hf := h.favours
    rw [hs, List.forall_mem_cons] at hf
    constructor
    case room =>
      simp only [RosMotion.spin, hs]
      exact SpinCallback.Favours.foldl hf.left h.room
    case favours =>
      rw [RosMotion.spin_schedule_eq, hs]
      exact hf.right

theorem invariant : RosMotion.Invariant Roomy where
  spin h     := h.spin
  reported h := ⟨h.room, h.favours⟩
  active h   := ⟨h.room, h.favours⟩
  aborted h  := ⟨h.room, h.favours⟩

theorem keeps : MotionController.Keeps Roomy where
  isReady h := invariant.isReady h
  poll h    := invariant.poll h
  submit {m c} h := by
    have hr := invariant.isReady h
    change Roomy (m.submit c).2
    cases hs : m.isReady.1
    case false =>
      rw [RosMotion.submit_of_busy hs]
      exact hr
    case true =>
      rw [RosMotion.submit_of_ready hs]
      exact ⟨hr.spin.room, hr.spin.favours⟩

theorem kept (hf : ∀ slice ∈ i.spin, ∀ callback ∈ slice.callbacks, callback.Favours) :
    State.Kept (fun s => Roomy s.motion) i where
  accepted _ h a := by cases a <;> exact h
  job _ h _      := h
  armed _ h _    := h
  fault _ h _    := h
  run _ h _      := h
  executed _ h e := e.keeps keeps h
  scheduled h    := ⟨h.room, hf⟩
  polled h       := invariant.poll h
  sampled h      := invariant.isReady h

theorem tick (w : s.WellFormed) (h : Roomy s.motion)
    (hf : ∀ slice ∈ i.spin, ∀ callback ∈ slice.callbacks, callback.Favours)
    (ht : Firmware.tick i s = .ok s') : Roomy s'.motion :=
  (kept hf).tick w h ht (fun _ o h => o.motion invariant h) fun h => invariant.isReady h

theorem drain (h : Roomy m) : Roomy (Streaming.drain m) := by
  rw [Streaming.drain]
  induction m.schedule.length generalizing m
  case zero => exact h
  case succ n ih => exact ih h.spin

end Roomy

theorem Delivery.Favours.receive {d : Delivery} {s : Streaming} (h : d.Favours) :
    ∀ callback ∈ (s.receive d).1, callback.Favours := by
  cases d
  case motionResult => exact List.forall_mem_singleton.mpr fun _ h => h
  case motionStatus => exact List.forall_mem_singleton.mpr fun _ _ => h
  case worldComplete =>
    cases hc : s.completions
    case nil =>
      simp only [Streaming.receive, hc]
      exact List.forall_mem_nil _
    case cons =>
      simp only [Streaming.receive, hc]
      exact List.forall_mem_singleton.mpr fun _ h => h

theorem Streaming.favours_receiveAll {ds : List Delivery} {s : Streaming}
    (h : ∀ d ∈ ds, d.Favours) : ∀ callback ∈ (s.receiveAll ds).1, callback.Favours := by
  induction ds generalizing s
  case nil => exact List.forall_mem_nil _
  case cons d ds ih =>
    rw [List.forall_mem_cons] at h
    exact List.forall_mem_append.mpr ⟨h.left.receive, ih h.right⟩

theorem Streaming.favours_schedule {turns : List Turn} {s : Streaming}
    (h : ∀ turn ∈ turns, ∀ d ∈ turn.deliveries, d.Favours) :
    ∀ slice ∈ (s.schedule turns).1, ∀ callback ∈ slice.callbacks, callback.Favours := by
  induction turns generalizing s
  case nil => exact List.forall_mem_nil _
  case cons turn turns ih =>
    rw [List.forall_mem_cons] at h
    exact List.forall_mem_cons.mpr ⟨favours_receiveAll h.left, ih h.right⟩

theorem Streaming.schedule_length {turns : List Turn} {s : Streaming} :
    (s.schedule turns).1.length = turns.length := by
  induction turns generalizing s
  case nil          => rfl
  case cons _ _ ih  => exact congrArg (· + 1) ih

theorem Streaming.target_of_nil [Arithmetic Double] {s : Streaming} (h : s.targets = []) :
    s.target = s := by
  simp [Streaming.target, h]

theorem Streaming.target_of_cons [Arithmetic Double] {s : Streaming} (h : s.targets = msg :: rest) :
    s.target = { s with targets := rest, world := (s.world.motionTargetCallback msg).2.2 } := by
  simp [Streaming.target, h]

theorem Streaming.receiveAll_completes {ds : List Delivery} {s : Streaming}
    (h : .worldComplete now ∈ ds) (hc : s.completions ≠ []) :
    (s.receiveAll ds).2.completions.length < s.completions.length := by
  induction ds generalizing s
  case nil => cases h
  case cons d ds ih =>
    cases d
    case worldComplete now' =>
      have ⟨seq, rest, hs⟩ := List.exists_cons_of_ne_nil hc
      have r := @receiveAll_receives (s.receive (.worldComplete now')).2 ds
      have hl := congrArg List.length r.completions
      have hr : (s.receive (.worldComplete now')).2.completions = rest := by
        simp only [receive, hs]
      rw [hr, List.length_append] at hl
      rw [receiveAll, hs, List.length_cons]
      change (receiveAll ds _).2.completions.length < _
      omega
    all_goals
      refine ih (s := s) ?_ hc
      simpa using h

namespace WorldMotionController

variable {c : WorldMotionController} {e : Position Double} {start now : Int}

-- The controller is in a dwell that has begun by `start` and is not over at `now`.
structure Dwelling (start now : Int) (c : WorldMotionController) : Prop where
  within : c.withinThreshold = true
  begun  : c.withinThresholdStart ≤ start
  goes   : now < c.withinThresholdStart + completeTime

theorem enterThreshold_start (h : c.withinThreshold = true → c.withinThresholdStart ≤ start) :
    (c.enterThreshold start).withinThresholdStart ≤ start ∧
      (c.withinThreshold = true →
        (c.enterThreshold start).withinThresholdStart = c.withinThresholdStart) := by
  cases hw : c.withinThreshold
  case false => simp [enterThreshold, hw]
  case true  => simpa [enterThreshold, hw] using h hw

variable [Arithmetic Double]

theorem Fronted.errorCallback_within (f : Fronted c) (now : Int) (hw : Within e)
    (hd : c.withinThreshold = true → c.withinThresholdStart ≤ start) :
    ((c.errorCallback e start now).2.withinThreshold = true →
      (c.errorCallback e start now).2.withinThresholdStart ≤ start) ∧
    ((∃ seq, (c.errorCallback e start now).1 = some seq ∧
      (c.errorCallback e start now).2.pendingTargets.length + 1 = c.pendingTargets.length) ∨
    ((c.errorCallback e start now).1 = none ∧
      (c.errorCallback e start now).2.pendingTargets = c.pendingTargets ∧
      (c.withinThreshold = true → (c.errorCallback e start now).2.withinThreshold = true ∧
        (c.errorCallback e start now).2.withinThresholdStart = c.withinThresholdStart) ∧
      (c.pendingTargets ≠ [] → (c.errorCallback e start now).2.Dwelling start now))) := by
  have he := errorCallback_handles c e start now
  have ⟨hb, hs⟩ := enterThreshold_start hd
  generalize c.errorCallback e start now = r at he
  cases he
  case idle ha =>
    have hp : c.pendingTargets = [] := by simpa [ha] using f.active
    exact ⟨hd, .inr ⟨rfl, rfl, fun h => ⟨h, rfl⟩, fun h => absurd hp h⟩⟩
  case lost hn => exact absurd hw hn
  case dwells hl =>
    refine ⟨fun _ => hb, .inr ⟨rfl, enterThreshold_pending, ?_, fun _ => ?_⟩⟩
    · exact fun h => ⟨enterThreshold_within, hs h⟩
    · exact ⟨enterThreshold_within, hb, Int.lt_add_of_sub_left_lt hl⟩
  case completes ha _ _ =>
    refine ⟨fun h => ?_, .inl ⟨_, rfl, ?_⟩⟩
    · cases complete_within.symm.trans h
    · have ⟨seq, rest, hc⟩ := List.exists_cons_of_ne_nil (f.active.mp ha)
      simp [complete_pending, enterThreshold_pending, hc]

end WorldMotionController

namespace Printer

-- An input of a machine that is left alone, at the time `t` or until the time `t'`: the loop is not
-- disturbed, the executor is not short of room, and the tool stays close to its target.
inductive Fair [Arithmetic Double] : Int → Input → Int → Prop
  | tick (undisturbed : i.Undisturbed)
    (favours : ∀ turn ∈ turns, ∀ d ∈ turn.deliveries, d.Favours) : Fair t (.tick i turns) t
  | target : Fair t .target t
  | error (within : WorldMotionController.Within error) (start : t ≤ t₁) (now : t₁ ≤ t') :
    Fair t (.error error t₁ t') t'
  | toolPose : Fair t .toolPose t
  | odom : Fair t (.odom x y) t

inductive Fairly [Arithmetic Double] : Int → List Input → Int → Prop
  | nil : Fairly t [] t
  | cons (head : Fair t i t') (tail : Fairly t' is t'') : Fairly t (i :: is) t''

inductive Phase
  | begun
  | received
  | dwelling (start : Int)
  | dwelt

-- The rest of a round brings what it has not been through yet, in this order: a target is received,
-- the tool is close to it and still is so after the time of a dwell, and the loop has an iteration
-- in which a completion is received.
inductive Visits : Phase → List Input → Prop
  | skip (rest : Visits phase is) : Visits phase (i :: is)
  | target (rest : Visits .received is) : Visits .begun (.target :: is)
  | enter (rest : Visits (.dwelling start) is) : Visits .received (.error e start now :: is)
  | dwell (time : start + WorldMotionController.completeTime ≤ now) (rest : Visits .dwelt is) :
    Visits (.dwelling start) (.error e start' now :: is)
  | tick (completes : turn.Completes) : Visits .dwelt (.tick i [turn] :: is)

structure Round [Arithmetic Double] (t : Int) (is : List Input) (t' : Int) : Prop where
  fairly : Fairly t is t'
  visits : Visits .begun is

inductive Rounds [Arithmetic Double] : Int → List (List Input) → Prop
  | nil : Rounds t []
  | cons (head : Round t is t') (tail : Rounds t' iss) : Rounds t (is :: iss)

def still (e : Position Double) (t : Int) : List Input :=
  [.target, .error e t t, .error e (t + 500000000) (t + 500000000),
    .tick {} [{ deliveries := [.worldComplete 0] }]]

variable [Arithmetic Double]

end Printer
end Fabrication
