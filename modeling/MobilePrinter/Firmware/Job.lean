import MobilePrinter.Library.Heap
import MobilePrinter.Firmware.MachineState

-- Jobs as they are decoded from a submitted blob and kept by the firmware: `segment.hpp`,
-- `job.hpp`, `job_decoder.cpp`, `job_validator.cpp`, `job_hash.cpp`, `job_store.hpp`,
-- `job_ingress_state.hpp` and `job_cleanup.cpp`.

namespace Firmware

structure Segment where
  layer        : UInt32
  indexInLayer : UInt32
  x            : Double
  y            : Double
  z            : Double
  extrusion    : Double
  feedrate     : Double
  deriving DecidableEq, Repr

-- `sizeof(Segment)`
def segmentSize : Nat := 48

def leNat : List UInt8 → Nat
  | []      => 0
  | b :: bs => b.toNat + 256 * leNat bs

def decodeU32 (bytes : List UInt8) (offset : Nat) : UInt32 :=
  UInt32.ofNat (leNat ((bytes.drop offset).take 4))

def decodeDouble (bytes : List UInt8) (offset : Nat) : Double :=
  ⟨UInt64.ofNat (leNat ((bytes.drop offset).take 8))⟩

def decodeSegment (bytes : List UInt8) : Segment where
  layer        := decodeU32 bytes 0
  indexInLayer := decodeU32 bytes 4
  x            := decodeDouble bytes 8
  y            := decodeDouble bytes 16
  z            := decodeDouble bytes 24
  extrusion    := decodeDouble bytes 32
  feedrate     := decodeDouble bytes 40

def decodeSegments : Nat → List UInt8 → List Segment
  | 0, _         => []
  | n + 1, bytes => decodeSegment bytes :: decodeSegments n (bytes.drop segmentSize)

@[simp]
theorem decodeSegments_length : (decodeSegments n bytes).length = n := by
  induction n generalizing bytes <;> simp [decodeSegments, *]

structure Job where
  jobId             : UInt32          := 0
  totalLayers       : UInt32          := 0
  totalSegments     : Nat             := 0
  segments          : Option Heap.Ptr := none
  segmentsExhausted : Bool            := false
  receivedSegments  : Nat             := 0
  ingressCompleted  : Bool            := false
  deriving DecidableEq, Repr

def Job.valid (j : Job) : Bool :=
  j.segments.isSome && decide (0 < j.totalSegments)

-- The number of whole records in a blob, as the `uint32_t` that counts them.
def segmentCount (blob : List UInt8) : Nat :=
  (blob.length / segmentSize) % UInt32.size

-- `none` stands for the exception that is thrown on a blob that is too short.
def decodeJob (blob : List UInt8) (heap : Heap Segment) : Option (Job × Heap Segment) :=
  if blob.length < segmentSize then
    none
  else
    let count := segmentCount blob
    some ({ totalSegments := count, segments := some heap.next },
          heap.alloc (decodeSegments count blob))

structure ValidationResult where
  ok            : Bool
  schemaVersion : UInt32
  reason        : String

def validateJob (job : Job) : ValidationResult :=
  if !job.valid then
    { ok := false, schemaVersion := 0, reason := "invalid_job" }
  else
    { ok := true, schemaVersion := 1, reason := "" }

def computeJobHash (_ : Job) : String :=
  "JOB_HASH_STUB_V1"

structure JobStore where
  job?             : Option Job := none
  jobId            : UInt64     := 0
  jobHash          : String     := ""
  jobSchemaVersion : UInt32     := 0

namespace JobStore

def hasJob (store : JobStore) : Bool :=
  store.job?.isSome

def setJob (job : Job) (jobId : UInt64) (jobHash : String) (schemaVersion : UInt32) : JobStore where
  job?             := some job
  jobId            := jobId
  jobHash          := jobHash
  jobSchemaVersion := schemaVersion

def clear : JobStore := {}

end JobStore

structure JobIngressState where
  jobLoaded     : Bool   := false
  jobId         : UInt64 := 0
  schemaVersion : UInt32 := 0
  jobHash       : String := ""
  lastRejection : String := ""

end Firmware
