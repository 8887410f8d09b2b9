import MobilePrinter.Executor.Theorems.Latch

namespace Executor

open Transition

namespace AxisRuntimes

variable {axes : AxisRuntimes}

theorem entry_set : (axes.set name axis).entry = Function.update axes.entry name axis := by
  funext name'
  by_cases h : name' = name
  case pos => rw [h]; simp [entry, set]
  case neg => simp [entry, set, h]

theorem entry_set_entry : (axes.set name (axes.entry name)).entry = axes.entry := by
  rw [entry_set, Function.update_eq_self]

theorem entry_authorize (h : axes.authorize names = (authorized, axes')) :
    axes'.entry = axes.entry := by
  induction names generalizing axes
  case nil => cases h; rfl
  case cons name names ih =>
    simp only [authorize] at h
    split at h
    case isTrue  => cases h; exact entry_set_entry
    case isFalse => exact (ih h).trans entry_set_entry

theorem not_refused_of_authorize (h : axes.authorize names = (true, axes')) :
    ∀ name ∈ names, ¬(axes.entry name).Refused := by
  induction names generalizing axes
  case nil => exact List.forall_mem_nil _
  case cons name names ih =>
    simp only [authorize] at h
    split at h
    case isTrue => cases h
    case isFalse hr =>
      have ih := ih h
      rw [entry_set_entry] at ih
      exact List.forall_mem_cons.mpr ⟨hr, ih⟩

theorem authorize_of_not_refused (h : ∀ name ∈ names, ¬(axes.entry name).Refused) :
    ∃ axes', axes.authorize names = (true, axes') := by
  induction names generalizing axes
  case nil => exact ⟨axes, rfl⟩
  case cons name names ih =>
    have ⟨hr, h⟩ := List.forall_mem_cons.mp h
    rw [authorize, if_neg hr]
    apply ih
    rwa [entry_set_entry]

theorem authorize_iff :
    (axes.authorize names).1 = true ↔ ∀ name ∈ names, ¬(axes.entry name).Refused := by
  constructor
  case mp =>
    intro h
    exact not_refused_of_authorize (Prod.ext h rfl)
  case mpr =>
    intro h
    have ⟨_, h⟩ := authorize_of_not_refused h
    rw [h]

theorem not_refused_arm (h : ¬(axes.entry name).Refused) :
    ¬((axes.arm names).entry name).Refused := by
  induction names generalizing axes
  case nil => exact h
  case cons name' names ih =>
    apply ih
    rw [entry_set]
    by_cases hn : name = name'
    case neg => rwa [Function.update_of_ne hn]
    case pos => rw [hn, Function.update_self]; simp [AxisRuntime.Refused]

theorem entry_arm (h : name ∉ names) : (axes.arm names).entry name = axes.entry name := by
  induction names generalizing axes
  case nil => rfl
  case cons name' names ih =>
    have ⟨hn, h⟩ : name ≠ name' ∧ name ∉ names := by simpa using h
    refine (ih h).trans ?_
    rw [entry_set, Function.update_of_ne hn]

theorem refused_latch (h : (axes.entry name).Refused) :
    ((axes.latch name').entry name).Refused := by
  simp only [latch, entry_set]
  by_cases hn : name = name'
  case pos => rw [hn, Function.update_self]; exact .inr (.inl rfl)
  case neg => rw [Function.update_of_ne hn]; exact h

theorem refused_of_missing (h : axes name = none) : (axes.entry name).Refused := by
  simp [entry, h, AxisRuntime.Refused]

theorem configured_of_initial [Arithmetic R] (h : initial name = some axis) :
    Configured R name := by
  have h : (initial name).isSome := by rw [h]; rfl
  simpa [initial, Configured, axisConfig, axisConfigs, List.lookup_isSome_iff] using h

end AxisRuntimes

variable {R : Type*}

def QueuedSegment.Authorized (seg : QueuedSegment R) (axes : AxisRuntimes) : Prop :=
  ∀ name ∈ seg.jointNames, ¬(axes.entry name).Refused

variable [Arithmetic R]

def Event.OnlyConfigured : Event R → Prop
  | .executing seg => ∀ name ∈ seg.jointNames, Configured R name
  | _              => True

instance : DecidablePred (Event.OnlyConfigured (R := R)) :=
  fun e => match e with
    | .executing seg => inferInstanceAs (Decidable (∀ name ∈ seg.jointNames, Configured R name))
    | .accepted _ | .completed _ | .reset | .rejected .. | .actuatorCommand .. => .isTrue trivial

namespace MotionExecutor

variable {s s' : MotionExecutor R} {i : Input R}

-- No axis without a configuration is authorised or has been moved.
structure OnlyConfigured (s : MotionExecutor R) : Prop where
  refused  : ∀ name axis, ¬Configured R name → s.axisRuntime name = some axis → axis.Refused
  executed : ∀ e ∈ s.published, e.OnlyConfigured

-- The message is a reset that finds an entry of an axis without a configuration.
def Enables (i : Input R) (s : MotionExecutor R) : Prop :=
  Resets i s ∧ ∃ name, ¬Configured R name ∧ s.axisRuntime name ≠ none

theorem refused_iff_entry :
    (∀ name axis, ¬Configured R name → s.axisRuntime name = some axis → axis.Refused) ↔
      ∀ name, ¬Configured R name → (s.axisRuntime.entry name).Refused where
  mp h name hc := by
    cases ha : s.axisRuntime name
    case none      => exact AxisRuntimes.refused_of_missing ha
    case some axis => simpa [AxisRuntimes.entry, ha] using h name axis hc ha
  mpr h name axis hc ha := by
    simpa [AxisRuntimes.entry, ha] using h name hc

namespace OnlyConfigured

theorem boot : OnlyConfigured (boot active velocity : MotionExecutor R) where
  refused _ _ hc ha := absurd (AxisRuntimes.configured_of_initial ha) hc
  executed          := List.forall_mem_nil _

theorem publish (h : OnlyConfigured s) (hp : s'.published = e :: s.published)
    (ha : s'.axisRuntime = s.axisRuntime) (he : e.OnlyConfigured) : OnlyConfigured s' where
  refused  := ha ▸ h.refused
  executed := hp ▸ List.forall_mem_cons.mpr ⟨he, h.executed⟩

theorem authorized (h : OnlyConfigured s) (ha : s.axisRuntime.authorize names = (true, axes)) :
    ∀ name ∈ names, Configured R name := by
  intro name hn
  by_contra hc
  have hr := refused_iff_entry.mp h.refused name hc
  exact AxisRuntimes.not_refused_of_authorize ha name hn hr

theorem starts (h : OnlyConfigured s) (hs : Starts stray s s') : OnlyConfigured s' := by
  have hr := refused_iff_entry.mp h.refused
  cases hs
  case drained => exact ⟨h.refused, h.executed⟩
  case refused ha =>
    refine ⟨refused_iff_entry.mpr ?_, List.forall_mem_cons.mpr ⟨trivial, h.executed⟩⟩
    exact AxisRuntimes.entry_authorize ha ▸ hr
  case latched ha _ =>
    refine ⟨refused_iff_entry.mpr fun name hc => ?_, List.forall_mem_cons.mpr ⟨trivial, h.executed⟩⟩
    exact AxisRuntimes.refused_latch (AxisRuntimes.entry_authorize ha ▸ hr name hc)
  case executes seg _ axes _ ha _ =>
    have hn := h.authorized ha
    refine ⟨refused_iff_entry.mpr fun name hc => ?_, List.forall_mem_cons.mpr ⟨hn, h.executed⟩⟩
    have he : (axes.arm seg.jointNames).entry name = s.axisRuntime.entry name := by
      rw [AxisRuntimes.entry_arm fun hm => hc (hn name hm), AxisRuntimes.entry_authorize ha]
    exact he ▸ hr name hc

-- A reset keeps the invariant exactly if it finds no axis without a configuration.
theorem clearFaults (h : OnlyConfigured s)
    (hn : ∀ name, ¬Configured R name → s.axisRuntime name = none) :
    OnlyConfigured s.clearFaults where
  refused name _ hc ha := by
    have hm : s.axisRuntime.reset name = none := by simp [AxisRuntimes.reset, hn name hc]
    exact nomatch hm.symm.trans ha
  executed := List.forall_mem_cons.mpr ⟨trivial, h.executed⟩

theorem next (h : OnlyConfigured s) (he : ¬Enables i s) (m : Moves s i s') : OnlyConfigured s' := by
  cases m
  case rejected => exact h.publish rfl rfl trivial
  case queued   => exact h.publish rfl rfl trivial
  case moved    => exact h.publish rfl rfl trivial
  case stopped  => exact h.publish rfl rfl trivial
  case started hs =>
    apply starts _ hs
    exact h.publish rfl rfl trivial
  case completed hs =>
    apply starts _ hs
    refine ⟨h.refused, List.forall_mem_cons.mpr ⟨trivial, ?_⟩⟩
    exact List.forall_mem_cons.mpr ⟨trivial, h.executed⟩
  case cleared hm =>
    refine h.clearFaults fun name hc => ?_
    by_contra hn
    exact he ⟨hm, name, hc, hn⟩
  all_goals exact ⟨h.refused, h.executed⟩

theorem not_enables (h : OnlyConfigured s') (m : Moves s i s') : ¬Enables i s := by
  intro ⟨hs, name, hc, hn⟩
  cases m
  case cleared =>
    have ⟨axis, ha⟩ := Option.ne_none_iff_exists'.mp hn
    have hr := h.refused name { axis with hardLimitTriggered := false, state := .idle } hc
      (by simp [MotionExecutor.clearFaults, MotionExecutor.publish, AxisRuntimes.reset, ha])
    simp [AxisRuntime.Refused] at hr
  case kept hm => exact hs hm
  all_goals cases hs

end OnlyConfigured
end MotionExecutor

open MotionExecutor

theorem configured_iff_not_enabled {is : List (Input R)} :
    Always step OnlyConfigured (boot active velocity) is ↔
      Along step (¬Enables · ·) (boot active velocity) is :=
  always_iff_along (I := OnlyConfigured) id (fun h he hs => h.next he (step_moves hs))
    (fun _ h hs => h.not_enables (step_moves hs)) .boot

-- A segment of an axis that does not exist is rejected, and after a reset it is executed.
theorem enabled_by_reset :
    let probe (id : UInt32) : MotionSegment ℚ :=
      { segmentId := id, jointNames := ["probe"], targetPositions := [0], vMax := 1 }
    Reaches step (fun s => ¬∀ e ∈ s.published, e.OnlyConfigured) (boot 0 0 : MotionExecutor ℚ)
      [.jointState {} zero, .segment (probe 1) zero, .reset, .segment (probe 2) zero] := by
  decide +kernel

end Executor
