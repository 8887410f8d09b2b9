import MobilePrinter.Firmware.MachineState

-- The two records of a pause, `pause_snapshot.hpp` in memory and
-- `persistent_execution_snapshot.hpp` on disk, and the operations on the snapshot file.

namespace Firmware

structure PauseSnapshot where
  jobId          : UInt32 := 0
  layer          : UInt32 := 0
  segment        : Nat    := 0
  intraProgress  : Double := ⟨0⟩
  volumeChecksum : UInt32 := 0
  deriving DecidableEq, Repr

def snapshotMagic : UInt32 := 0x57525053

structure PersistentExecutionSnapshot where
  magic            : UInt32      := 0
  bootId           : UInt64      := 0
  jobId            : UInt64      := 0
  systemAtSnapshot : SystemState := .boot
  cursor           : Nat         := 0
  unitProgress     : Double      := ⟨0⟩
  layer            : UInt32      := 0
  segment          : UInt32      := 0
  checksum         : UInt32      := 0
  jobHash          : String      := ""
  jobSchemaVersion : UInt32      := 0
  deriving DecidableEq, Repr

-- The content of the snapshot file, where `none` is a file that is missing, empty or shorter than
-- one record. All of these fail to load.
abbrev SnapshotFile := Option PersistentExecutionSnapshot

-- What becomes of an attempt to write the file: the write succeeds, the file cannot be opened, or
-- the file is truncated but its new content does not reach the disk in full.
inductive WriteOutcome
  | written
  | notOpened
  | torn
  deriving DecidableEq, Repr

-- The outcomes of the file operations of one tick. No tick performs any of them more than once.
structure FileOutcomes where
  persist : WriteOutcome := .written
  load    : Bool         := true
  clear   : Bool         := true

structure FileOutcomes.Succeed (io : FileOutcomes) : Prop where
  persist : io.persist = .written
  load    : io.load = true
  clear   : io.clear = true

def persistExecutionSnapshot
    (outcome : WriteOutcome) (snap : PersistentExecutionSnapshot) (file : SnapshotFile) :
    SnapshotFile :=
  match outcome with
  | .written   => some snap
  | .notOpened => file
  | .torn      => none

def loadExecutionSnapshot (opened : Bool) (file : SnapshotFile) :
    Option PersistentExecutionSnapshot :=
  if opened then file else none

theorem loadExecutionSnapshot_eq_some :
    loadExecutionSnapshot opened file = some snap ↔ opened = true ∧ file = some snap := by
  cases opened <;> simp [loadExecutionSnapshot]

def clearExecutionSnapshot (opened : Bool) (file : SnapshotFile) : SnapshotFile :=
  if opened then none else file

end Firmware
