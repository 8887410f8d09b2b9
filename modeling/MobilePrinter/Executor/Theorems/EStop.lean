import MobilePrinter.Executor.Theorems.Moves

namespace Executor

open Transition

-- The event lets an axis move, or announces that one will.
def Event.Drives : Event R → Prop
  | .executing _         => True
  | .actuatorCommand _ _ => True
  | _                    => False

namespace MotionExecutor

variable {R : Type*}

-- The emergency stop is held down after the message, if it is so before it exactly if `held`.
def Input.estopHeld (held : Bool) : Input R → Bool
  | .estop data => data
  | _           => held

-- Every reset among the messages comes while the emergency stop is held down.
def OnlyHeldResets (held : Bool) : List (Input R) → Prop
  | []      => True
  | i :: is => (i = .reset → held = true) ∧ OnlyHeldResets (i.estopHeld held) is

-- The execution neither runs a segment nor takes one on.
def Halted (s : MotionExecutor R) : Prop :=
  s.execState = .fault ∨ s.execState = .aborting

-- The execution is halted as long as the machine is out of its normal state.
def Interlocked (s : MotionExecutor R) : Prop :=
  s.machineState ≠ .normal → s.Halted

variable {s s' : MotionExecutor R} {i : Input R}

theorem Halted.not_idle (h : s.Halted) : s.execState ≠ .idle := by
  cases h <;> simp [*]

theorem Halted.not_running (h : s.Halted) : s.execState ≠ .running := by
  cases h <;> simp [*]

theorem Interlocked.of_running (h : Interlocked s) (hr : s.execState = .running) :
    s.machineState = .normal := by
  by_contra hm
  exact (h hm).not_running hr

variable [Arithmetic R]

namespace Interlocked

theorem boot : Interlocked (boot active velocity : MotionExecutor R) :=
  fun h => absurd rfl h

theorem of_starts (h : Starts stray s s') (hm : s.machineState = .normal) : Interlocked s' := by
  cases h
  case latched          => exact fun _ => .inl rfl
  case drained          => exact fun h => absurd hm h
  case refused          => exact fun h => absurd hm h
  case executes         => exact fun h => absurd hm h

theorem next (h : Interlocked s) (m : Moves s i s') : Interlocked s' := by
  cases m
  case started hm _ _ _ hs   => exact of_starts hs hm
  case completed hr _ _ hs   => exact of_starts hs (h.of_running hr)
  case cleared               => exact fun h => absurd rfl h
  case released              => exact fun h => absurd rfl h
  case stopped               => exact fun _ => .inl rfl
  case aborted               => exact fun _ => .inr rfl
  all_goals exact h

theorem run (e : Run step (MotionExecutor.boot active velocity) is s) : Interlocked s :=
  e.invariant (fun h hs => h.next (step_moves hs)) boot

end Interlocked

-- What holds from a press of the emergency stop on.
structure Blocked (held : Bool) (s : MotionExecutor R) : Prop where
  halted : s.Halted
  estop  : held = true → s.machineState = .estop

theorem Blocked.press (h : Interlocked s) (m : Moves s (.estop true) s') :
    Blocked true s' ∧ Publishes (¬·.Drives) s s' := by
  cases m
  case held he => exact ⟨⟨h (by simp [he]), fun _ => he⟩, .none rfl⟩
  case stopped => exact ⟨⟨.inl rfl, fun _ => rfl⟩, .one rfl nofun⟩

theorem Blocked.next (h : Blocked held s) (hr : i = .reset → held = true) (m : Moves s i s') :
    Blocked (i.estopHeld held) s' ∧ Publishes (¬·.Drives) s s' := by
  have hi := h.halted.not_idle
  have hn := h.halted.not_running
  cases m
  case rejected           => exact ⟨⟨h.halted, h.estop⟩, .one rfl nofun⟩
  case queued             => exact ⟨⟨h.halted, h.estop⟩, .one rfl nofun⟩
  case started hs _ _ _   => exact absurd hs hi
  case measured           => exact ⟨⟨h.halted, h.estop⟩, .none rfl⟩
  case rests              => exact ⟨h, .none rfl⟩
  case moved hs _         => exact absurd hs hn
  case completed hs _ _ _ => exact absurd hs hn
  case kept               => exact ⟨h, .none rfl⟩
  case cleared he         => exact absurd (h.estop (hr rfl)) he
  case overridden         => exact ⟨⟨h.halted, h.estop⟩, .none rfl⟩
  case held he            => exact ⟨⟨h.halted, fun _ => he⟩, .none rfl⟩
  case stopped            => exact ⟨⟨.inl rfl, fun _ => rfl⟩, .one rfl nofun⟩
  case released           => exact ⟨⟨h.halted, nofun⟩, .none rfl⟩
  case ignored            => exact ⟨⟨h.halted, nofun⟩, .none rfl⟩
  case aborted            => exact ⟨⟨.inr rfl, h.estop⟩, .none rfl⟩

theorem Blocked.run (e : Run step s is s') (h : Blocked held s) (hr : OnlyHeldResets held is) :
    Publishes (¬·.Drives) s s' := by
  induction e generalizing held
  case refl => exact .none rfl
  case cons hs _ ih =>
    have ⟨h, hp⟩ := h.next hr.left (step_moves hs)
    exact hp.trans (ih h hr.right)

end MotionExecutor

open MotionExecutor

variable {R : Type*} [Arithmetic R] {s₁ s₂ : MotionExecutor R}

theorem estop_drives_nothing (e₁ : Run step (boot active velocity) is₁ s₁)
    (e₂ : Run step s₁ (.estop true :: is₂) s₂) (hr : OnlyHeldResets true is₂) :
    Publishes (¬·.Drives) s₁ s₂ := by
  cases e₂
  case cons h e =>
    have ⟨h, hp⟩ := Blocked.press (.run e₁) (step_moves h)
    exact hp.trans (h.run e hr)

-- The emergency stop is pressed during a segment, and pressed again after it has been released.
theorem estop_drives_nothing_again :
    ∃ s₁ s₂ : MotionExecutor ℚ, Run step (boot 0 0) [
        .jointState {} zero, mastTo 1 1 1, .control zero] s₁ ∧
      Run step s₁ [
        .estop true, .reset, .estop false, .abort, mastTo 2 1 1, .control zero, .estop true,
        .reset] s₂ ∧
      Publishes (¬·.Drives) s₁ s₂ :=
  have hr : OnlyHeldResets true [
      .reset, .estop false, .abort, mastTo 2 1 1, .control zero, .estop true, .reset] := by
    simp [OnlyHeldResets, Input.estopHeld]
  ⟨_, _, run_foldl, run_foldl, estop_drives_nothing run_foldl run_foldl hr⟩

end Executor
