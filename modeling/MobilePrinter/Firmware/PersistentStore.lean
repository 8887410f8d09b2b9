import MobilePrinter.Library.Disk
import MobilePrinter.Firmware.Persistence

-- `persistent_state_io.cpp`, one system call after another, with whatever can happen to the process
-- and to the machine between two of them.

namespace Firmware

inductive StatePath
  | statePath
  | stateTmp
  deriving DecidableEq, Repr

-- How far a call of `store_persistent_state` has come, with the record that it writes.
inductive StoreStage
  | idle
  | copied (copy : PersistentState)
  | opened (fd : Nat) (copy : PersistentState)
  | written (fd : Nat) (copy : PersistentState)
  | synced (copy : PersistentState)
  deriving DecidableEq, Repr

structure StateStore where
  disk  : Disk StatePath UInt8
  stage : StoreStage := .idle

inductive StoreInput
  -- A call of `store_persistent_state`, and the answers to its system calls.
  | store (state : PersistentState)
  | open (ok : Bool)
  | write (bytes : Nat)
  | fsync (ok : Bool)
  | rename (ok : Bool)
  -- A call of `clear_persistent_state`.
  | clear
  -- The end of the process, and that of the machine.
  | kill
  | cut (undone : Nat) (torn : Nat → List UInt8)

namespace StateStore

def next (s : StateStore) : StoreInput → StateStore
  | .store state =>
    match s.stage with
    | .idle =>
      let copy  := { state with magic := persistenceMagic, version := persistenceVersion }
      let image := PersistentState.layout.bytes copy
      { s with stage := .copied { copy with crc32 := crc32 (PersistentState.hashed image) } }
    | _     => s
  | .open ok =>
    match s.stage with
    | .copied copy =>
      if ok then
        let file := s.disk.create .stateTmp
        { disk := file.2, stage := .opened file.1 copy }
      else
        { s with stage := .idle }
    | _            => s
  | .write bytes =>
    match s.stage with
    | .opened fd copy =>
      let image := PersistentState.layout.bytes copy
      { disk  := s.disk.append fd (image.take bytes)
        stage := if bytes < image.length then .idle else .written fd copy }
    | _               => s
  | .fsync ok =>
    match s.stage with
    -- The result of `fsync` is ignored.
    | .written fd copy =>
      { disk := if ok then s.disk.sync fd else s.disk, stage := .synced copy }
    | _                => s
  | .rename ok =>
    match s.stage with
    | .synced _ =>
      { disk := if ok then s.disk.rename .stateTmp .statePath else s.disk, stage := .idle }
    | _         => s
  | .clear =>
    match s.stage with
    | .idle => { s with disk := s.disk.unlink .statePath }
    | _     => s
  | .kill            => { s with stage := .idle }
  | .cut undone torn => { disk := s.disk.cut undone torn }

-- What the input does to the state that is kept.
def effect (s : StateStore) : StoreInput → Register.Effect (Option (List UInt8))
  | .rename true =>
    match s.stage with
    | .synced copy => .set (some (PersistentState.layout.bytes copy))
    | _            => .none
  | .clear =>
    match s.stage with
    | .idle => .set none
    | _     => .none
  | .cut _ _     => .cut
  | _            => .none

def run (s : StateStore) (is : List StoreInput) : StateStore :=
  is.foldl next s

def effects (s : StateStore) : List StoreInput → List (Register.Effect (Option (List UInt8)))
  | []      => []
  | i :: is => s.effect i :: (s.next i).effects is

-- `load_persistent_state` at this time.
def load (s : StateStore) (out : PersistentState) : PersistedStateStatus × PersistentState :=
  loadPersistentState true (s.disk.read .statePath) out

end StateStore
end Firmware
