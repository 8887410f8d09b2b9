import MobilePrinter.Firmware.Theorems.Boundary

open Transition

namespace Firmware

inductive Ending
  | finalized (reason : CompletionReason)
  | faulted (code : UInt32)
  deriving DecidableEq, Repr

structure Execution where
  job      : List Segment
  commands : List MotionCommand := []
  ending   : Option Ending      := none
  deriving DecidableEq, Repr

namespace Execution

def submit (x : Execution) (command : MotionCommand) : Execution :=
  if x.ending.isSome then x else { x with commands := x.commands ++ [command] }

-- An execution ends only once.
def finish (x : Execution) (ending : Ending) : Execution :=
  if x.ending.isSome then x else { x with ending := some ending }

-- The commands are those of the job's segments in order, and a NORMAL completion has passed on all
-- of them.
structure InOrder (x : Execution) : Prop where
  isPrefix : x.commands <+: x.job.map Segment.command
  complete : x.ending = some (.finalized .normal) → x.commands = x.job.map Segment.command

instance : Decidable (InOrder x) :=
  decidable_of_iff
    (x.commands <+: x.job.map Segment.command ∧
      (x.ending = some (.finalized .normal) → x.commands = x.job.map Segment.command))
    ⟨fun ⟨h₁, h₂⟩ => ⟨h₁, h₂⟩, fun ⟨h₁, h₂⟩ => ⟨h₁, h₂⟩⟩

structure Done (x : Execution) : Prop where
  ended   : x.ending.isSome
  inOrder : x.InOrder

-- The execution of `job` that has come to `cursor`.
def upTo (job : List Segment) (cursor : Nat) : Execution where
  job      := job
  commands := (job.take cursor).map Segment.command

end Execution

def acceptedSegments (h : History) : List Segment :=
  ((lastAccepted h).map (·.2)).getD []

-- The executions that a history tells of, newest first.
def executions : History → List Execution
  | []                                  => []
  | .commandHandled _ .start .accepted :: h => { job := acceptedSegments h } :: executions h
  | .motionSubmitted command _ :: h     => (executions h).modifyHead (·.submit command)
  | .finalized reason :: h              => (executions h).modifyHead (·.finish (.finalized reason))
  | .faulted code :: h                  => (executions h).modifyHead (·.finish (.faulted code))
  | _ :: h                              => executions h

-- Every command was accepted by the motion controller.
def Event.Accepted : Event → Prop
  | .motionSubmitted _ result => result = .accepted
  | _                         => True

instance : DecidablePred Event.Accepted
  | .motionSubmitted _ result => inferInstanceAs (Decidable (result = .accepted))
  | .commandHandled _ _ _ | .jobAccepted _ _ | .snapshotPersisted _ _ | .snapshotRestored _
  | .abortStarted | .finalized _ | .faulted _ => .isTrue trivial

theorem executions_of_ne_start {command : CommandType} {outcome : CommandOutcome}
    (h : ¬(command = .start ∧ outcome = .accepted)) :
    executions (.commandHandled seq command outcome :: hist) = executions hist := by
  cases command <;> cases outcome <;> first | rfl | exact absurd ⟨rfl, rfl⟩ h

namespace Execution

variable {x : Execution} {xs : List Execution} {job : List Segment} {cursor : Nat} {e : Ending}

theorem Done.finish_eq (d : x.Done) : x.finish e = x := by
  simp [finish, d.ended]

theorem modifyHead_finish_of_done (h : ∀ x ∈ xs, x.Done) : xs.modifyHead (·.finish e) = xs := by
  cases xs
  case nil       => rfl
  case cons x xs => simp [(h x (by simp)).finish_eq]

theorem upTo_isPrefix : (upTo job cursor).commands <+: job.map Segment.command :=
  (List.take_prefix _ _).map _

theorem upTo_inOrder : (upTo job cursor).InOrder where
  isPrefix := upTo_isPrefix
  complete := nofun

-- An execution may end at any time, but NORMAL only behind its last segment.
theorem upTo_finish_done (h : e = .finalized .normal → job.length ≤ cursor) :
    ((upTo job cursor).finish e).Done where
  ended   := rfl
  inOrder := {
    isPrefix := upTo_isPrefix
    complete := fun he => by
      have hl := h (Option.some.inj he)
      simp [finish, upTo, List.take_of_length_le hl] }

theorem upTo_submit {seg : Segment} (h : job[cursor]? = some seg) :
    (upTo job cursor).submit seg.command = upTo job (cursor + 1) := by
  have ht : job.take (cursor + 1) = job.take cursor ++ [seg] := by
    rw [List.take_add_one, h]
    rfl
  simp [submit, upTo, ht]

end Execution

namespace State

def Executing (s : State) : Prop :=
  s.machine.system.active = true ∧ s.machine.jobPresent = true

-- The newest execution has come to the cursor as long as its job executes. All others are done.
structure Tracked (s : State) : Prop where
  live : s.Executing → ∃ past,
    executions s.history = .upTo (acceptedSegments s.history) s.exec.cursor :: past ∧
      ∀ x ∈ past, x.Done
  rest : ¬s.Executing → ∀ x ∈ executions s.history, x.Done

-- A START that is accepted in the tick finds the cursor at zero.
def StartsFresh (i : TickInput) (s : State) : Prop :=
  s.machine.system = .ready → (s.pollCommand i.io i.command).machine.system = .executingPrint →
    s.exec.cursor = 0

-- A RESUME that is carried out in the tick restores the cursor at which the job was paused.
def RestoresPaused (i : TickInput) (s : State) : Prop :=
  s.machine.jobPresent = true → ∀ snap ∈ s.restored? i, snap.cursor = s.exec.cursor

def KeepsPlace (i : TickInput) (s : State) : Prop :=
  s.StartsFresh i ∧ s.RestoresPaused i

instance : Decidable (KeepsPlace i s) :=
  inferInstanceAs (Decidable ((_ → _ → _) ∧ (_ → ∀ _ ∈ _, _)))

variable {s s' m m' : State} {i : TickInput} {io : FileOutcomes} {r : ExecutionResult}

theorem Tracked.inOrder (t : s.Tracked) : ∀ x ∈ executions s.history, x.InOrder := by
  by_cases h : s.Executing
  case neg => exact fun x hx => (t.rest h x hx).inOrder
  case pos =>
    have ⟨past, he, hp⟩ := t.live h
    intro x hx
    rw [he] at hx
    cases hx
    case head    => exact Execution.upTo_inOrder
    case tail hx => exact (hp x hx).inOrder

theorem Tracked.finish (t : s.Tracked)
    (h : s.Executing → e = .finalized .normal →
      (acceptedSegments s.history).length ≤ s.exec.cursor) :
    ∀ x ∈ (executions s.history).modifyHead (·.finish e), x.Done := by
  by_cases hs : s.Executing
  case neg =>
    rw [Execution.modifyHead_finish_of_done (t.rest hs)]
    exact t.rest hs
  case pos =>
    have ⟨past, he, hp⟩ := t.live hs
    rw [he]
    intro x hx
    cases hx
    case head    => exact Execution.upTo_finish_done (h hs)
    case tail hx => exact hp x hx

theorem Bound.acceptedSegments (b : s.Bound segs) : acceptedSegments s.history = segs := by
  simp [Firmware.acceptedSegments, b.accepted]

end State
end Firmware
