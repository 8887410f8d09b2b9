import MobilePrinter.Firmware.Persistence
import MobilePrinter.Library.Crc

namespace Firmware

theorem crcBit_toBitVec (crc : UInt32) :
    (crcBit crc).toBitVec = Crc.shift crcPolynomial.toBitVec crc.toBitVec := by
  have hb : (crc &&& 1 != 0) = crc.toBitVec.getLsbD 0 := by
    rw [Bool.eq_iff_iff]
    simp [← UInt32.toNat_inj, Nat.and_one_is_mod, BitVec.getLsbD]
  simp only [crcBit, Crc.shift, hb]
  split <;> rfl

theorem crcByte_toBitVec (crc : UInt32) (b : UInt8) :
    (crcByte crc b).toBitVec = Crc.feed crcPolynomial.toBitVec crc.toBitVec b :=
  (Function.Semiconj.iterate_right crcBit_toBitVec 8).eq _

theorem foldl_crcByte_toBitVec {crc : UInt32} {data : List UInt8} :
    (data.foldl crcByte crc).toBitVec =
      data.foldl (Crc.feed crcPolynomial.toBitVec) crc.toBitVec := by
  induction data generalizing crc
  case nil          => rfl
  case cons _ _ ih  => rw [List.foldl_cons, List.foldl_cons, ih, crcByte_toBitVec]

theorem crc32_ne {data data' : List UInt8} (h : Crc.Burst 32 data data') :
    crc32 data ≠ crc32 data' := by
  intro he
  have he := congrArg UInt32.toBitVec (UInt32.not_inj.mp he)
  rw [foldl_crcByte_toBitVec, foldl_crcByte_toBitVec] at he
  exact h.check_ne (by decide) (by decide) he

theorem crc32_append_inj {data tail tail' : List UInt8} (h : tail.length = 4)
    (h' : tail'.length = 4) : crc32 (data ++ tail) = crc32 (data ++ tail') ↔ tail = tail' where
  mp he := by
    by_contra hne
    have hb := (Crc.Burst.of_ne (h.trans h'.symm) hne (by rw [h])).append data []
    rw [List.append_nil, List.append_nil] at hb
    exact crc32_ne hb he
  mpr he := by rw [he]

namespace PersistentState

variable {s : PersistentState}

example : layout.size = 64 :=
  rfl

-- The bytes before the checksum.
def front (s : PersistentState) : List UInt8 :=
  Layout.uint32.bytes s.magic ++ Layout.uint32.bytes s.version ++
    PersistentJobIdentity.layout.bytes s.job ++ PersistentExecution.layout.bytes s.execution ++
    Layout.uint64.bytes s.printedVolumeChecksum

theorem front_length : s.front.length = crcOffset := by
  simp only [front, List.length_append, Layout.bytes_length]
  rfl

theorem bytes_eq : layout.bytes s =
    s.front ++ (Layout.uint32.bytes s.crc32 ++ Layout.uint32.bytes s.padding) := by
  simp [layout, front, Layout.map, Layout.pair]

theorem hashed_bytes : hashed (layout.bytes s) = s.front ++ Layout.uint32.bytes s.crc32 := by
  rw [hashed, bytes_eq, ← List.append_assoc]
  refine List.take_left' ?_
  rw [List.length_append, front_length, Layout.bytes_length]
  rfl

theorem setCrc32_bytes : setCrc32 crc (layout.bytes s) = layout.bytes { s with crc32 := crc } := by
  have hf := front_length (s := s)
  have hd : (s.front ++ (Layout.uint32.bytes s.crc32 ++ Layout.uint32.bytes s.padding)).drop
      (crcOffset + 4) = Layout.uint32.bytes s.padding := by
    rw [← List.append_assoc]
    refine List.drop_left' ?_
    rw [List.length_append, hf, Layout.bytes_length]
    rfl
  rw [setCrc32, bytes_eq, bytes_eq, List.take_left' hf, hd, List.append_assoc]
  rfl

structure Keeps (s s' : PersistentState) : Prop where
  job                   : s'.job = s.job
  execution             : s'.execution = s.execution
  printedVolumeChecksum : s'.printedVolumeChecksum = s.printedVolumeChecksum

def stored (s : PersistentState) : PersistentState :=
  let s := { s with magic := persistenceMagic, version := persistenceVersion }
  { s with crc32 := Firmware.crc32 (s.front ++ Layout.uint32.bytes s.crc32) }

theorem store_eq : storePersistentState true s file = (true, some (layout.bytes s.stored)) := by
  simp only [storePersistentState, hashed_bytes]
  rfl

-- The checksum of a record covers the one that it came with, but it is compared with that of a
-- record without one.
theorem checksum_iff :
    Firmware.crc32 (s.stored.front ++ Layout.uint32.bytes 0) = s.stored.crc32 ↔ s.crc32 = 0 := by
  have hc : s.stored.crc32 = Firmware.crc32 (s.stored.front ++ Layout.uint32.bytes s.crc32) := rfl
  rw [hc, crc32_append_inj (Layout.bytes_length _ _) (Layout.bytes_length _ _)]
  constructor
  case mp =>
    intro h
    rw [← Layout.uint32.read_bytes s.crc32 [], ← h, Layout.read_bytes]
  case mpr => intro h; rw [h]

theorem load_bytes {out : PersistentState} (hm : s.magic = persistenceMagic)
    (hv : s.version = persistenceVersion) :
    loadPersistentState true (some (layout.bytes s)) out =
      (if Firmware.crc32 (s.front ++ Layout.uint32.bytes 0) = s.crc32
        then .valid else .checksumMismatch, s) := by
  have hl : (layout.bytes s).length = layout.size := layout.bytes_length s
  have hi : (layout.bytes s ++ (layout.bytes out).drop layout.size).take layout.size =
      layout.bytes s := List.take_left' hl
  have hr : layout.read (layout.bytes s) = s := by
    simpa using layout.read_bytes s []
  have hm : (s.magic != persistenceMagic) = false := by rw [hm, bne_self_eq_false]
  have hv : (s.version != persistenceVersion) = false := by rw [hv, bne_self_eq_false]
  have hf : front { s with crc32 := 0 } = s.front := rfl
  simp only [loadPersistentState, if_true, hl, hi, hr, setCrc32_bytes, hashed_bytes, hm, hv, hf,
    Nat.lt_irrefl, Bool.false_eq_true, if_false]
  by_cases h : Firmware.crc32 (s.front ++ Layout.uint32.bytes 0) = s.crc32
  case pos => rw [if_pos h, if_neg (not_not.mpr h ∘ bne_iff_ne.mp)]
  case neg => rw [if_neg h, if_pos (bne_iff_ne.mpr h)]

theorem load_store (s out : PersistentState) (file : PersistentFile) :
    loadPersistentState true (storePersistentState true s file).2 out =
      (if s.crc32 = 0 then .valid else .checksumMismatch, s.stored) := by
  rw [store_eq, load_bytes rfl rfl]
  simp only [checksum_iff]

end PersistentState

-- A persistent state survives being stored exactly if it comes without a checksum.
theorem persists_iff_crc_zero (s out : PersistentState) (file : PersistentFile) :
    (∃ s', loadPersistentState true (storePersistentState true s file).2 out = (.valid, s') ∧
      s.Keeps s') ↔ s.crc32 = 0 := by
  rw [PersistentState.load_store]
  by_cases h : s.crc32 = 0
  case pos =>
    rw [if_pos h]
    exact iff_of_true ⟨_, rfl, rfl, rfl, rfl⟩ h
  case neg =>
    rw [if_neg h]
    exact iff_of_false nofun h

-- A record that comes with a checksum, as one that has been loaded does.
theorem persists_fails : ¬∀ (s out : PersistentState) (file : PersistentFile),
    ∃ s', loadPersistentState true (storePersistentState true s file).2 out = (.valid, s') ∧
      s.Keeps s' := by
  intro hc
  have ⟨_, h, _⟩ := hc { crc32 := 1 } {} none
  rw [PersistentState.load_store] at h
  cases h

end Firmware
