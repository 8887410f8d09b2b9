import MobilePrinter.Firmware.Theorems.Persistence

namespace Firmware
namespace PersistentState

-- `offsetof(PersistentState, job)`, where the magic number and the version end.
def jobOffset : Nat := 8

variable {image image' : List UInt8} {out : PersistentState}

theorem read_magic (h : 4 ≤ image.length) :
    (layout.read image).magic = Layout.uint32.read (image.take jobOffset) := by
  have hl : Layout.uint32.size ≤ (image.take jobOffset).length :=
    (List.length_take ..).symm ▸ Nat.le_min.mpr ⟨by decide, h⟩
  rw [← Layout.uint32_exact.read_take hl, List.take_take]
  exact (Layout.uint32_exact.read_take h).symm

theorem read_version (h : jobOffset ≤ image.length) :
    (layout.read image).version = Layout.uint32.read ((image.take jobOffset).drop 4) := by
  have hl : Layout.uint32.size ≤ (image.drop 4).length := by
    rw [List.length_drop]
    exact Nat.le_sub_of_add_le h
  rw [List.drop_take]
  exact (Layout.uint32_exact.read_take hl).symm

theorem read_crc32 : (layout.read image).crc32 = Layout.uint32.read (image.drop crcOffset) := by
  simp only [layout, Layout.map, Layout.pair, List.drop_drop]
  rfl

theorem hashed_setCrc32 (h : crcOffset ≤ image.length) :
    hashed (setCrc32 crc image) = image.take crcOffset ++ Layout.uint32.bytes crc := by
  refine List.take_left' ?_
  rw [List.length_append, List.length_take, Nat.min_eq_left h, Layout.bytes_length]
  rfl

theorem load_eq (h : image.length = layout.size) :
    (loadPersistentState true (some image) out).1 =
      if (layout.read image).magic != persistenceMagic then .invalid
      else if (layout.read image).version != persistenceVersion then .versionMismatch
      else if Firmware.crc32 (image.take crcOffset ++ Layout.uint32.bytes 0) !=
        (layout.read image).crc32 then .checksumMismatch
      else .valid := by
  have hi : (image ++ (layout.bytes out).drop layout.size).take layout.size = image :=
    List.take_left' h
  have hc : crcOffset ≤ image.length := h ▸ by decide
  simp only [loadPersistentState, if_true, h, hi, Nat.lt_irrefl, if_false, hashed_setCrc32 hc]
  split <;> [rfl; split] <;> [rfl; split] <;> rfl

theorem load_burst (hv : (loadPersistentState true (some image) out).1 = .valid)
    (hl : image.length = layout.size) (hb : Crc.Burst 32 image image')
    (hf : image'.take jobOffset = image.take jobOffset)
    (hd : image'.drop crcOffset = image.drop crcOffset) :
    (loadPersistentState true (some image') out').1 = .checksumMismatch := by
  have hl' : image'.length = layout.size := hb.length.symm.trans hl
  have hm : (layout.read image').magic = (layout.read image).magic := by
    rw [read_magic (hl' ▸ by decide), read_magic (hl ▸ by decide), hf]
  have hn : (layout.read image').version = (layout.read image).version := by
    rw [read_version (hl' ▸ by decide), read_version (hl ▸ by decide), hf]
  have hc : (layout.read image').crc32 = (layout.read image).crc32 := by
    rw [read_crc32, read_crc32, hd]
  have hne := crc32_ne ((hb.take hd.symm).append [] (Layout.uint32.bytes 0))
  rw [List.nil_append, List.nil_append] at hne
  rw [load_eq hl] at hv
  rw [load_eq hl', hm, hn, hc]
  split at hv
  case isTrue => cases hv
  split at hv
  case isTrue => cases hv
  split at hv
  case isTrue => cases hv
  case isFalse hm hn hc =>
    have hc := not_not.mp (hc ∘ bne_iff_ne.mpr)
    rw [if_neg hm, if_neg hn, if_pos (bne_iff_ne.mpr (hc ▸ hne.symm))]

end PersistentState

-- The checksum detects every burst, and so does the load of a record that one has hit between the
-- version and the checksum.
theorem bursts_detected :
    (∀ m m' : List UInt8, Crc.Burst 32 m m' → crc32 m ≠ crc32 m') ∧
    ∀ (s out : PersistentState) (file : PersistentFile) (image image' : List UInt8),
      s.crc32 = 0 → storePersistentState true s file = (true, some image) →
      Crc.Burst 32 image image' →
      image'.take PersistentState.jobOffset = image.take PersistentState.jobOffset →
      image'.drop PersistentState.crcOffset = image.drop PersistentState.crcOffset →
      (loadPersistentState true (some image') out).1 = .checksumMismatch := by
  refine ⟨fun _ _ => crc32_ne, ?_⟩
  intro s out file image image' hc hs hb hf hd
  have hv := PersistentState.load_store s out file
  rw [hs, if_pos hc] at hv
  rw [PersistentState.store_eq] at hs
  cases hs
  exact PersistentState.load_burst (congrArg Prod.fst hv) (Layout.bytes_length _ _) hb hf hd

-- A job identifier of one in place of the one that has been stored.
theorem bursts_detected_job : crc32 [0, 0, 0, 0] ≠ crc32 [1, 0, 0, 0] ∧
    ∃ image, storePersistentState true {} none = (true, some image) ∧
      (loadPersistentState true (some (image.take 8 ++ [1, 0, 0, 0] ++ image.drop 12)) {}).1 =
        .checksumMismatch := by
  have hb : Crc.Burst 32 [0, 0, 0, 0] [1, 0, 0, 0] :=
    .of_ne rfl (by decide) (by decide)
  refine ⟨bursts_detected.left _ _ hb, _, PersistentState.store_eq, ?_⟩
  generalize hi : PersistentState.layout.bytes (PersistentState.stored {}) = image
  have hj : (image.drop 8).take 4 = [0, 0, 0, 0] := by
    rw [← hi]
    decide +kernel
  have hl : image.length = 64 := hi ▸ PersistentState.layout.bytes_length _
  have hs : image.take 8 ++ [0, 0, 0, 0] ++ image.drop 12 = image := by
    rw [← hj, List.append_assoc, ← List.drop_drop (i := 4) (j := 8), List.take_append_drop,
      List.take_append_drop]
  have hb := hb.append (image.take 8) (image.drop 12)
  rw [hs] at hb
  refine bursts_detected.right {} {} none image _ rfl (hi ▸ PersistentState.store_eq) hb ?_ ?_
  case refine_1 =>
    rw [List.append_assoc]
    exact List.take_left' (by simp [hl, PersistentState.jobOffset])
  case refine_2 => simp [PersistentState.crcOffset, List.drop_append, hl]

end Firmware
