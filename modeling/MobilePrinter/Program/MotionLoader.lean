import MobilePrinter.Firmware.JobIngress
import MobilePrinter.Program.GcodeParser

-- `program_manager.cpp`: how a program is loaded from G-code and handed over to the firmware
-- through the job ingress region, and the layout of the records in `ipc/segment.hpp`.

namespace Program

open Firmware (Double jobIpcMagic jobMaxSize JobIngressIpc)

-- `wbp_interfaces::msg::MotionSegment`. A program addresses four axes.
structure MotionSegment where
  segmentId       : UInt32
  targetPositions : List Double
  maxVelocity     : Double
  fourAxes        : 4 ≤ targetPositions.length

-- `wbp_interfaces::Segment`
structure Segment where
  layer        : UInt32
  indexInLayer : UInt32
  x            : Double
  y            : Double
  z            : Double
  extrusion    : Double
  feedrate     : Double
  deriving DecidableEq, Repr

-- The bytes of a number in little endian order.
def leBytes : Nat → Nat → List UInt8
  | 0, _     => []
  | k + 1, n => .ofNat n :: leBytes k (n / 256)

-- The bytes of a `Segment` in memory, which has no padding.
def Segment.bytes (seg : Segment) : List UInt8 :=
  leBytes 4 seg.layer.toNat ++ leBytes 4 seg.indexInLayer.toNat ++
    leBytes 8 seg.x.bits.toNat ++ leBytes 8 seg.y.bits.toNat ++ leBytes 8 seg.z.bits.toNat ++
    leBytes 8 seg.extrusion.bits.toNat ++ leBytes 8 seg.feedrate.bits.toNat

-- `wbp_job_ingress_ipc_t`
structure JobIngressRegion where
  magic           : UInt32
  sequence        : UInt32
  size            : UInt32
  jobBlob         : List UInt8
  ingressComplete : UInt8
  jobBlob_length  : jobBlob.length = jobMaxSize

def JobIngressRegion.read (ipc : JobIngressRegion) : JobIngressIpc where
  magic          := ipc.magic
  sequence       := ipc.sequence
  size           := ipc.size
  jobBlob        := ipc.jobBlob
  jobBlob_length := ipc.jobBlob_length

structure MotionLoader where
  programSegments : List MotionSegment := []
  jobSubmitted    : Bool               := false

namespace MotionLoader

def fwSegment (seg : MotionSegment) : Segment :=
  have _ := seg.fourAxes
  -- assuming order: x y z extrusion
  { layer        := 0
    indexInLayer := seg.segmentId
    x            := seg.targetPositions[0]
    y            := seg.targetPositions[1]
    z            := seg.targetPositions[2]
    extrusion    := seg.targetPositions[3]
    feedrate     := seg.maxVelocity }

def programBytes (s : MotionLoader) : List UInt8 :=
  s.programSegments.flatMap fun seg => (fwSegment seg).bytes

-- `none` stands for a region that is left alone. Otherwise the result is the region and the bytes
-- that `memcpy`, which is not bounded, has written behind `job_blob`.
def submitJobIPC (ipc : Option JobIngressRegion) (s : MotionLoader) :
    Option (JobIngressRegion × List UInt8) :=
  match ipc with
  | none     => none
  | some ipc =>
    if ipc.magic != jobIpcMagic then
      none
    else if s.jobSubmitted then
      none
    else
      let bytes := s.programBytes
      some ({ ipc with
        sequence        := ipc.sequence + 1
        size            := .ofNat bytes.length
        jobBlob         := bytes.take jobMaxSize ++ ipc.jobBlob.drop bytes.length
        ingressComplete := 1
        jobBlob_length  := by have := ipc.jobBlob_length; simp; omega },
        bytes.drop jobMaxSize)

end MotionLoader

-- The fields of a `MotionSegment` that the firmware is not given.
structure PlannedSegment extends MotionSegment where
  jointNames        : List String
  maxAcceleration   : Double
  positionTolerance : Double
  vStart            : Double
  vEnd              : Double
  vMax              : Double

-- What the loop over the lines keeps.
structure Planner where
  cx       : Double              := ⟨0⟩
  cy       : Double              := ⟨0⟩
  cz       : Double              := ⟨0⟩
  ce       : Double              := ⟨0⟩
  cf       : Double              := 0.05 -- default feedrate (m/s)
  id       : UInt32              := 1
  segments : List PlannedSegment := []

namespace Planner

-- The segment that ends at (`cx`, `cy`, `cz`).
def segment (s : Planner) (extrusion : Double) : PlannedSegment where
  segmentId         := s.id
  jointNames        :=
    ["base_to_mast_joint", "carriage_to_tool_joint", "mast_to_carriage_joint", "tool_mount_joint"]
  targetPositions   := [s.cx, s.cy, s.cz, extrusion]
  maxVelocity       := s.cf
  maxAcceleration   := 1.0
  positionTolerance := 0.001
  vMax              := s.cf
  vStart            := (s.segments.getLast?.map (·.vEnd)).getD ⟨0⟩
  vEnd              := s.cf
  fourAxes          := Nat.le_refl 4

def plan (s : Planner) (g : GCodeLine) : Planner :=
  let extrusion := if g.hasE then g.e - s.ce else ⟨0⟩
  let s := { s with
    cx := if g.hasX then g.x else s.cx
    cy := if g.hasY then g.y else s.cy
    cz := if g.hasZ then g.z else s.cz
    ce := if g.hasE then g.e else s.ce
    cf := if g.hasF then g.f / 1000.0 / 60.0 else s.cf } -- mm/min → m/s
  -- skip empty lines
  if !g.hasX && !g.hasY && !g.hasZ then
    s
  else
    { s with id := s.id + 1, segments := s.segments ++ [s.segment extrusion] }

end Planner

-- `none` stands for an exception of the parser, which nothing catches.
def MotionLoader.loadGcode (file : List (List Char)) (s : MotionLoader) : Option MotionLoader :=
  (parseGcode file).map fun lines =>
    { s with
      programSegments := (lines.foldl Planner.plan {}).segments.map (·.toMotionSegment)
      jobSubmitted    := false }

end Program
