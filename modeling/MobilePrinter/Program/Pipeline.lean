import Mathlib.Data.List.Basic
import MobilePrinter.Firmware.Main
import MobilePrinter.Program.MotionLoader

-- The program manager, the supervisor's job service and the firmware over the job ingress region,
-- which both of the former write to, one store after another. A poll of the firmware reads the
-- region at one time.

namespace Program

open Firmware (State TickInput MachineStateIpc jobIpcMagic jobMaxSize Crash)

inductive Assignment
  | byte (index : Nat) (value : UInt8)
  | size (bytes : Nat)
  | ingressComplete
  | sequence
  deriving DecidableEq, Repr

def JobIngressRegion.assign (ipc : JobIngressRegion) : Assignment → JobIngressRegion
  | .byte index value => { ipc with
      jobBlob        := ipc.jobBlob.set index value
      jobBlob_length := by rw [List.length_set, ipc.jobBlob_length] }
  | .size bytes       => { ipc with size := .ofNat bytes }
  | .ingressComplete  => { ipc with ingressComplete := 1 }
  | .sequence         => { ipc with sequence := ipc.sequence + 1 }

def copyBlob (bytes : List UInt8) : List Assignment :=
  bytes.zipIdx.map fun b => .byte b.2 b.1

def MotionLoader.stores (s : MotionLoader) : List Assignment :=
  copyBlob s.programBytes ++ [.size s.programBytes.length, .ingressComplete, .sequence]

-- The stores of `IPCJobWriter::write_job`, which notifies the firmware before it is done. The store
-- to `source`, which nobody reads, is left out.
def writeJob (blob : List UInt8) : List Assignment :=
  copyBlob blob ++ [.size blob.length, .sequence, .ingressComplete]

structure ProgramManager extends MotionLoader where
  startReceived : Bool := false

-- Whether the callback calls `submitJobIPC`, and what it leaves behind.
def ProgramManager.stateCallback (msg : MachineStateIpc) (s : ProgramManager) :
    Bool × ProgramManager :=
  let submits := !s.jobSubmitted && msg.systemState == .ready && !msg.jobLoaded &&
    !s.startReceived && !s.programSegments.isEmpty
  let s := if submits then { s with jobSubmitted := true } else s
  let s :=
    if !s.startReceived && msg.systemState == .executingPrint
    then { s with startReceived := true } else s
  let s :=
    if s.startReceived && msg.systemState == .ready && !msg.jobLoaded
    then { s with startReceived := false, jobSubmitted := false, programSegments := [] } else s
  (submits, s)

structure Submission where
  bytes   : List UInt8
  program : Option (List MotionSegment) := none

-- A write that is under way, with the stores that are left.
structure Write where
  job    : Submission      := { bytes := [] }
  stores : List Assignment := []

-- The firmware has not been notified of the job yet.
def Write.Open (w : Write) : Prop :=
  .sequence ∈ w.stores

instance : DecidablePred Write.Open :=
  fun _ => inferInstanceAs (Decidable (_ ∈ _))

inductive Writer
  | manager
  | supervisor
  deriving DecidableEq, Repr

structure Pipeline where
  firmware    : State
  region      : JobIngressRegion
  manager     : ProgramManager             := {}
  writes      : Writer → Write             := fun _ => {}
  -- What has been loaded, and what the firmware has been notified of, newest first.
  loads       : List (List MotionSegment)  := []
  submissions : List Submission            := []

-- The firmware has crashed, the parser has thrown an exception, or the program manager has written
-- beyond the region.
inductive Failure
  | firmware (c : Crash)
  | parser
  | overflow
  deriving DecidableEq, Repr

namespace Pipeline

inductive Input
  | tick (i : TickInput)
  | store (w : Writer)
  | gcode (file : List (List Char))
  | machineState (msg : MachineStateIpc)
  | jobSubmit (blob : List UInt8)

def setWrite (p : Pipeline) (w : Writer) (write : Write) : Pipeline :=
  { p with writes := Function.update p.writes w write }

-- The next store of a writer.
def store (w : Writer) (p : Pipeline) : Pipeline :=
  match (p.writes w).stores with
  | []          => p
  | a :: stores =>
    let p := { p with
      region      := p.region.assign a
      submissions :=
        if a = Assignment.sequence then (p.writes w).job :: p.submissions else p.submissions }
    p.setWrite w { p.writes w with stores := stores }

def gcode (file : List (List Char)) (p : Pipeline) : Except Failure Pipeline :=
  match p.manager.loadGcode file with
  | none        => .error .parser
  | some loader => .ok { p with
      manager := { loader with startReceived := false }
      loads   := loader.programSegments :: p.loads }

def machineState (msg : MachineStateIpc) (p : Pipeline) : Except Failure Pipeline :=
  let loader   := p.manager.toMotionLoader
  let callback := p.manager.stateCallback msg
  let p        := { p with manager := callback.2 }
  if !callback.1 then
    .ok p
  else if p.region.magic != jobIpcMagic then
    .ok p
  else if loader.programBytes.length > jobMaxSize then
    .error .overflow
  else
    let job := { bytes := loader.programBytes, program := some loader.programSegments }
    .ok (p.setWrite .manager { job := job, stores := loader.stores })

def jobSubmit (blob : List UInt8) (p : Pipeline) : Pipeline :=
  if blob.isEmpty || decide (blob.length > jobMaxSize) then
    p
  else
    p.setWrite .supervisor { job := { bytes := blob }, stores := writeJob blob }

def polls (p : Pipeline) (i : TickInput) : TickInput :=
  { i with job := some p.region.read }

-- A node takes a message when it is done with the one before.
def next (i : Input) (p : Pipeline) : Except Failure Pipeline :=
  match i with
  | .tick i           =>
    match Firmware.tick (p.polls i) p.firmware with
    | .ok firmware => .ok { p with firmware := firmware }
    | .error c     => .error (.firmware c)
  | .store w          => .ok (p.store w)
  | .gcode file       => if (p.writes .manager).stores = [] then p.gcode file else .ok p
  | .machineState msg => if (p.writes .manager).stores = [] then p.machineState msg else .ok p
  | .jobSubmit blob   => .ok (if (p.writes .supervisor).stores = [] then p.jobSubmit blob else p)

end Pipeline
end Program
