import MobilePrinter.Firmware.Theorems.Termination

open Transition

namespace Firmware
namespace State

-- The machine waits for a job, and starts the next one with its first segment.
structure Vacant (s : State) : Prop where
  settled         : s.Settled
  ready           : s.machine.system = .ready
  jobless         : s.machine.jobPresent = false
  cursor          : s.exec.cursor = 0
  abortInProgress : s.exec.abortInProgress = false
  framesLeft      : 1 ≤ s.framesLeft

-- The segments of a job that lies in the ingress region.
def segmentsOf (job : JobIngressIpc) : List Segment :=
  let blob := job.jobBlob.take job.size.toNat
  decodeSegments (segmentCount blob) blob

-- The machine has taken a job and waits for its START.
structure Taken (s : State) (job : JobIngressIpc) (s' : State) : Prop where
  boundary        : s'.Boundary
  settled         : s'.Settled
  ready           : s'.machine.system = .ready
  present         : s'.machine.jobPresent = true
  cursor          : s'.exec.cursor = 0
  abortInProgress : s'.exec.abortInProgress = false
  framesLeft      : 1 ≤ s'.framesLeft
  latched         : s'.lastJobSeq = job.latched
  nonempty        : 0 < s'.activeJob.totalSegments
  history         : s'.history = .jobAccepted s.nextJobId (segmentsOf job) :: s.history

variable {s s' m : State} {i : TickInput} {job : JobIngressIpc} {is : List TickInput}

theorem Vacant.submittable (v : s.Vacant) (w : s.WellFormed) (hf : blob.length ≤ jobMaxSize)
    (hn : segmentSize ≤ blob.length) : s.Submittable blob where
  polled   := v.settled.polled
  allowed  := by simp [v.settled.derived, deriveOperatorActions, v.ready]
  ready    := v.ready
  vacant   := w.stored.trans v.jobless
  size     := hf
  nonempty := hn

theorem tick_command :
    tick i s = tick { i with command := none } (s.pollCommand i.io i.command) :=
  rfl

theorem Taken.start (k : Taken s job s') (hj : j.command = (s'.send 1).command) :
    ∃ m q, m.Boundary ∧ m.machine.system = .executingPrint ∧ m.Finishable ∧
      m.motion = s'.motion ∧ m.remaining = segmentsOf job ∧
      m.history = .commandHandled q .start .accepted :: s'.history ∧
      tick j s' = tick { j with command := none } m := by
  have w := k.boundary.wellFormed
  have hc : s'.exec.cursor < s'.activeJob.totalSegments := k.cursor ▸ k.nonempty
  have hp := pollCommand_start j.io k.settled k.framesLeft k.ready k.present hc w
  have wm : (s'.pollCommand j.io (s'.send 1).command).WellFormed := w.pollCommand
  rw [hp] at wm
  refine ⟨_, s'.lastSeenSeq + 1, ⟨wm, nofun, nofun, nofun, nofun⟩, rfl, .inl ?_, rfl, ?_, rfl, ?_⟩
  · exact ⟨hc, k.abortInProgress, .inl k.cursor⟩
  · change (acceptedSegments s'.history).drop s'.exec.cursor = segmentsOf job
    rw [k.history, k.cursor]
    rfl
  · rw [tick_command, hj, hp]

end State
end Firmware
