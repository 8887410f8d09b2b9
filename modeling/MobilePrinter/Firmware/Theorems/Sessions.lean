import MobilePrinter.Firmware.Theorems.Boundary

open Transition

namespace Firmware

-- `Sessions file past` holds if the sessions that were ended by power loss in the states `past`,
-- newest first, have left `file` behind. The power may be lost at any tick boundary.
inductive Sessions : SnapshotFile → List State → Prop
  | none : Sessions none []
  | next (past : Sessions file ss) (boot : boot io file = .ok s₀) (run : Run tick s₀ is s) :
    Sessions s.snapshotFile (s :: ss)

-- The snapshot that reached the disk last, and what had happened in the session before that.
def History.lastPersisted : History → Option (PersistentExecutionSnapshot × History)
  | []                                => none
  | .snapshotPersisted .written s :: h => some (s, h)
  | _ :: h                            => History.lastPersisted h

def History.submissions : History → Nat
  | []                               => 0
  | .motionSubmitted _ .accepted :: h => History.submissions h + 1
  | _ :: h                           => History.submissions h

-- What had happened in the session before the last START that was accepted.
def History.beforeStart : History → History
  | []                                  => []
  | .commandHandled _ .start .accepted :: h => h
  | _ :: h                              => History.beforeStart h

namespace State

-- The number of segments of the last execution that the motion layer has completed. The commands of
-- a session are numbered from one.
def completedSegments (s : State) : Nat :=
  min s.motion.controller.lastCompletedSeq.toNat s.history.submissions -
    s.history.beforeStart.submissions

-- The job is bound for execution.
structure BoundTo (s : State) (id : UInt64) (segs : List Segment) : Prop where
  present  : s.machine.jobPresent = true
  identity : s.machine.jobId = id
  pointer  : ∃ p, s.activeJob.segments = some p ∧ s.heap.deref p = some segs

end State

-- The newest of the sessions that has persisted a snapshot.
def persistedIn : List State → Option (PersistentExecutionSnapshot × History × State)
  | []        => none
  | s :: past =>
    match s.history.lastPersisted with
    | some (snap, h) => some (snap, h, s)
    | none           => persistedIn past

-- The snapshot in the file was persisted for the job that is bound now, and the motion layer had
-- completed the segments before its cursor.
def OffersResume (past : List State) (s : State) : Prop :=
  ∃ snap history last id segs,
    persistedIn past = some (snap, history, last) ∧ s.snapshotFile = some snap ∧
    lastAccepted history = some (id, segs) ∧ s.BoundTo id segs ∧
    snap.cursor ≤ last.completedSegments

-- What the boot that follows the sessions `past` has to make of the snapshot file.
def BootsSafely (past : List State) (s : State) : Prop :=
  (s.machine.system = .paused ∧ s.machine.resumeAvailable = true ∧ OffersResume past s) ∨
  (s.machine.system = .ready ∧ s.snapshotFile = none)

namespace State

-- What the pause path writes passes the checks of the boot path, whatever job it was written for.
def FilePasses (s : State) : Prop :=
  ∀ snap, s.snapshotFile = some snap → snap.Passes

variable {s s' m m' : State} {i : TickInput} {io : FileOutcomes} {r : ExecutionResult}

theorem filePasses_clear (h : ∀ snap, file = some snap → snap.Passes) :
    ∀ snap, clearExecutionSnapshot opened file = some snap → snap.Passes := by
  intro snap hs
  simp only [clearExecutionSnapshot] at hs
  split at hs
  · cases hs
  · exact h snap hs

theorem kept_filePasses : Kept FilePasses i where
  accepted _ h a := by
    cases a
    case clearJob => exact filePasses_clear h
    case recover  => exact filePasses_clear h
    all_goals exact h
  job _ h _      := h
  armed _ h _    := h
  fault _ h _    := h
  run _ h _      := h
  executed _ h _ := h

theorem Pausing.filePasses (a : Pausing s io s') (w : s.WellFormed) (h : s.FilePasses) :
    s'.FilePasses := by
  cases a
  case kept => exact h
  case captured =>
    intro snap hs
    simp only [State.captured, record, persistExecutionSnapshot] at hs
    split at hs
    case h_1 =>
      cases hs
      exact ⟨rfl, rfl, by simp [snapshot, w.jobId], rfl, rfl⟩
    case h_2 => exact h snap hs
    case h_3 => cases hs

theorem Orchestrated.filePasses (o : Orchestrated s io s') (w : s.WellFormed) (h : s.FilePasses) :
    s'.FilePasses := by
  cases o
  case draining a _ =>
    cases a
    case begun => exact filePasses_clear h
    case stale => exact h
  case aborted a _ =>
    cases a
    case begun => exact filePasses_clear h
    case stale => exact h
  case paused a _ _ => exact a.filePasses w h
  case released a   => exact a.filePasses w h
  case restored     => exact filePasses_clear h
  all_goals exact h

theorem tick_filePasses (w : s.WellFormed) (h : s.FilePasses) (ht : tick i s = .ok s') :
    s'.FilePasses :=
  kept_filePasses.tick w h ht fun w o => o.filePasses w

end State

open State

theorem Sessions.passes (h : Sessions file past) : ∀ snap, file = some snap → snap.Passes := by
  induction h
  case none => nofun
  case next file _ io s₀ is s _ hb e ih =>
    have b := boot_boots hb
    have w := b.wellFormed
    have h₀ : s₀.FilePasses := by
      cases b
      case paused => exact ih
      case ready hk =>
        cases hk
        case inl hk => exact hk ▸ ih
        case inr hk => exact hk.left ▸ nofun
    exact WellFormed.invariant tick_filePasses w h₀ e

-- A boot that follows other sessions treats the snapshot file as it has to exactly if there is
-- none.
theorem boots_safely_iff_no_file (h : Sessions file past) (hb : boot io file = .ok s) :
    BootsSafely past s ↔ file = none := by
  cases boot_boots hb
  case ready kept hk =>
    have hk : kept = file := by
      cases hk
      case inl hk => exact hk
      case inr hk =>
        cases file
        case none      => exact hk.left
        case some snap => exact absurd (h.passes snap rfl) (hk.right snap rfl)
    constructor
    case mp =>
      intro hs
      cases hs
      case inl hs => cases hs.left
      case inr hs => exact hk.symm.trans hs.right
    case mpr => exact fun hn => .inr ⟨rfl, hk.trans hn⟩
  case paused ho =>
    refine iff_of_false (fun hs => ?_) ho
    cases hs
    case inr hs => cases hs.left
    case inl hs =>
      have ⟨_, _, _, _, _, _, _, _, hj, _⟩ := hs.right.right
      cases hj.present

theorem boots_safely_iff_no_file_abort :
    ∃ s₀ s s', Booted s₀ ∧ Run tick s₀ [{}, .submit 1 3, .issue 1 1, .issue 2 2, .issue 3 4] s ∧
      boot {} s.snapshotFile = .ok s' ∧ BootsSafely [s] s' := by
  have ⟨s₀, hb, h⟩ : ∃ s₀, boot {} none = .ok s₀ ∧ Reaches tick (·.snapshotFile = none) s₀
      [{}, .submit 1 3, .issue 1 1, .issue 2 2, .issue 3 4] :=
    ⟨_, rfl, by decide +kernel⟩
  have ⟨s, e, hn⟩ := h.run
  have ⟨s', hb'⟩ : ∃ s', boot {} s.snapshotFile = .ok s' := by
    rw [hn]
    exact ⟨_, rfl⟩
  exact ⟨s₀, s, s', ⟨_, _, hb⟩, e, hb', boots_safely_iff_no_file (.next .none hb e) hb' |>.mpr hn⟩

-- The job that was paused is gone behind the power loss, but its RESUME is offered.
theorem boots_safely_fails :
    ¬∀ file past io s, Sessions file past → boot io file = .ok s → BootsSafely past s := by
  intro hc
  have ⟨s₀, hb, h⟩ : ∃ s₀, boot {} none = .ok s₀ ∧
      Reaches tick
        (fun s => Yields (fun s' => s'.machine.system = .paused ∧ s'.machine.jobPresent = false)
          (boot {} s.snapshotFile))
        s₀ [{}, .submit 1 3, .issue 1 1, .issue 2 2] :=
    ⟨_, rfl, by decide +kernel⟩
  have ⟨s, e, hr⟩ := h.run
  have ⟨s', hb', hp, hj⟩ := hr.ok
  cases hc _ [s] {} s' (.next .none hb e) hb'
  case inl h =>
    have ⟨_, _, _, _, _, _, _, _, h, _⟩ := h.right.right
    cases hj.symm.trans h.present
  case inr h => cases hp.symm.trans h.left

end Firmware
