import MobilePrinter.Firmware.MachineState
import MobilePrinter.Library.Layout

-- `persistent_state.hpp` and `persistent_state_io.cpp`: a record of the machine in a file, under a
-- checksum.

namespace Firmware

def persistenceMagic : UInt32 := 0x57504250

def persistenceVersion : UInt32 := 1

inductive PersistedStateStatus
  | valid
  | invalid
  | versionMismatch
  | checksumMismatch
  deriving DecidableEq, Repr

structure PersistentJobIdentity where
  jobId   : UInt64 := 0
  jobHash : UInt64 := 0
  deriving DecidableEq, Repr

-- `ExecutionContext` as it lies in memory, with the padding behind the phase.
structure PersistentExecution where
  ownedByExecutor   : Bool   := false
  phase             : UInt8  := 0
  padding           : UInt16 := 0
  cursor            : UInt32 := 0
  unitProgress      : Double := ⟨0⟩
  abortInProgress   : Bool   := false
  armed             : Bool   := false
  completionEmitted : Bool   := false
  abortSent         : Bool   := false
  blockedTicks      : UInt32 := 0
  deriving DecidableEq, Repr

-- The padding is at the end, behind the checksum.
structure PersistentState where
  magic                 : UInt32                := 0
  version               : UInt32                := 0
  job                   : PersistentJobIdentity := {}
  execution             : PersistentExecution   := {}
  printedVolumeChecksum : UInt64                := 0
  crc32                 : UInt32                := 0
  padding               : UInt32                := 0
  deriving DecidableEq, Repr

def Double.layout : Layout Double :=
  Layout.uint64.map Double.mk Double.bits fun _ => rfl

def PersistentJobIdentity.layout : Layout PersistentJobIdentity :=
  (Layout.uint64.pair .uint64).map (fun (jobId, jobHash) => { jobId, jobHash })
    (fun job => (job.jobId, job.jobHash)) fun _ => rfl

def PersistentExecution.layout : Layout PersistentExecution :=
  (Layout.bool.pair <| Layout.uint8.pair <| Layout.uint16.pair <| Layout.uint32.pair <|
    Double.layout.pair <| Layout.bool.pair <| Layout.bool.pair <| Layout.bool.pair <|
    Layout.bool.pair .uint32).map
    (fun (ownedByExecutor, phase, padding, cursor, unitProgress, abortInProgress, armed,
        completionEmitted, abortSent, blockedTicks) =>
      { ownedByExecutor, phase, padding, cursor, unitProgress, abortInProgress, armed,
        completionEmitted, abortSent, blockedTicks })
    (fun ctx => (ctx.ownedByExecutor, ctx.phase, ctx.padding, ctx.cursor, ctx.unitProgress,
      ctx.abortInProgress, ctx.armed, ctx.completionEmitted, ctx.abortSent, ctx.blockedTicks))
    fun _ => rfl

namespace PersistentState

def layout : Layout PersistentState :=
  (Layout.uint32.pair <| Layout.uint32.pair <| PersistentJobIdentity.layout.pair <|
    PersistentExecution.layout.pair <| Layout.uint64.pair <| Layout.uint32.pair .uint32).map
    (fun (magic, version, job, execution, printedVolumeChecksum, crc32, padding) =>
      { magic, version, job, execution, printedVolumeChecksum, crc32, padding })
    (fun s => (s.magic, s.version, s.job, s.execution, s.printedVolumeChecksum, s.crc32, s.padding))
    fun _ => rfl

def crcOffset : Nat := 56

def hashed (image : List UInt8) : List UInt8 :=
  image.take (layout.size - 4)

def setCrc32 (crc : UInt32) (image : List UInt8) : List UInt8 :=
  image.take crcOffset ++ Layout.uint32.bytes crc ++ image.drop (crcOffset + 4)

end PersistentState

def crcPolynomial : UInt32 := 0xEDB88320

def crcBit (crc : UInt32) : UInt32 :=
  if crc &&& 1 != 0 then (crc >>> 1) ^^^ crcPolynomial else crc >>> 1

def crcByte (crc : UInt32) (b : UInt8) : UInt32 :=
  crcBit^[8] (crc ^^^ b.toUInt32)

def crc32 (data : List UInt8) : UInt32 :=
  ~~~(data.foldl crcByte 0xFFFFFFFF)

abbrev PersistentFile := Option (List UInt8)

-- The record that `out` holds afterwards is returned as well. A file that is too short overwrites
-- only the front of it.
def loadPersistentState (opened : Bool) (file : PersistentFile) (out : PersistentState) :
    PersistedStateStatus × PersistentState :=
  match if opened then file else none with
  | none      => (.invalid, out)
  | some file =>
    let image := file ++ (PersistentState.layout.bytes out).drop file.length
    let image := image.take PersistentState.layout.size
    let out   := PersistentState.layout.read image
    if file.length < PersistentState.layout.size then
      (.invalid, out)
    else if out.magic != persistenceMagic then
      (.invalid, out)
    else if out.version != persistenceVersion then
      (.versionMismatch, out)
    else
      let tmp := PersistentState.setCrc32 0 image
      if crc32 (PersistentState.hashed tmp) != out.crc32 then
        (.checksumMismatch, out)
      else
        (.valid, out)

-- The record is written to another file first, so that a failure leaves this one alone.
def storePersistentState (written : Bool) (state : PersistentState) (file : PersistentFile) :
    Bool × PersistentFile :=
  let copy  := { state with magic := persistenceMagic, version := persistenceVersion }
  let image := PersistentState.layout.bytes copy
  let copy  := { copy with crc32 := crc32 (PersistentState.hashed image) }
  if written
  then (true, some (PersistentState.layout.bytes copy))
  else (false, file)

end Firmware
