import MobilePrinter.Firmware.Job
import MobilePrinter.Firmware.Persistence

namespace Firmware

variable {blob bytes : List UInt8} {heap heap' : Heap Segment} {job : Job} {segs : List Segment}

def Segment.layout : Layout Segment :=
  (Layout.uint32.pair <| Layout.uint32.pair <| Double.layout.pair <| Double.layout.pair <|
    Double.layout.pair <| Double.layout.pair Double.layout).map
    (fun (layer, indexInLayer, x, y, z, extrusion, feedrate) =>
      { layer, indexInLayer, x, y, z, extrusion, feedrate })
    (fun seg => (seg.layer, seg.indexInLayer, seg.x, seg.y, seg.z, seg.extrusion, seg.feedrate))
    fun _ => rfl

def encodeSegments (segs : List Segment) : List UInt8 :=
  Segment.layout.array segs

def Job.segmentList (job : Job) (heap : Heap Segment) : List Segment :=
  ((job.segments.bind heap.deref).getD []).take job.totalSegments

theorem Double.layout_exact : Double.layout.Exact :=
  Layout.uint64_exact.map fun _ => rfl

namespace Segment

theorem layout_size : layout.size = segmentSize :=
  rfl

theorem layout_exact : layout.Exact :=
  (Layout.uint32_exact.pair <| Layout.uint32_exact.pair <| Double.layout_exact.pair <|
    Double.layout_exact.pair <| Double.layout_exact.pair <| Double.layout_exact.pair
    Double.layout_exact).map fun _ => rfl

end Segment

theorem leNat_eq : leNat bytes = Layout.ofDigits bytes := by
  induction bytes
  case nil           => rfl
  case cons b bs ih  =>
    rw [leNat, ih]
    rfl

theorem decodeU32_eq : decodeU32 bytes offset = Layout.uint32.read (bytes.drop offset) := by
  rw [decodeU32, leNat_eq]
  rfl

theorem decodeDouble_eq : decodeDouble bytes offset = Double.layout.read (bytes.drop offset) := by
  rw [decodeDouble, leNat_eq]
  rfl

theorem decodeSegment_eq : decodeSegment bytes = Segment.layout.read bytes := by
  simp only [decodeSegment, decodeU32_eq, decodeDouble_eq, Segment.layout, Layout.map, Layout.pair,
    List.drop_drop]
  rfl

theorem decodeSegments_eq : decodeSegments n bytes = Segment.layout.readArray n bytes := by
  induction n generalizing bytes
  case zero       => rfl
  case succ n ih  =>
    rw [decodeSegments, ih, decodeSegment_eq]
    rfl

theorem segmentList_decodeJob (h : decodeJob blob heap = some (job, heap')) :
    job.segmentList heap' = Segment.layout.readArray (segmentCount blob) blob := by
  simp only [decodeJob] at h
  split at h
  case isTrue  => cases h
  case isFalse =>
    cases h
    rw [Job.segmentList, Option.bind_some, Heap.deref_alloc_next, Option.getD_some,
      decodeSegments_eq]
    exact List.take_of_length_le Layout.readArray_length.le

theorem decodeJob_eq_none : decodeJob blob heap = none ↔ blob.length < segmentSize := by
  simp only [decodeJob]
  split <;> simp_all

theorem decodeJob_isSome : (decodeJob blob heap).isSome ↔ segmentSize ≤ blob.length := by
  rw [Option.isSome_iff_ne_none, ne_eq, decodeJob_eq_none, Nat.not_lt]

theorem segmentSize_mul_segmentCount_le : segmentSize * segmentCount blob ≤ blob.length :=
  calc segmentSize * segmentCount blob
      ≤ segmentSize * (blob.length / segmentSize) := Nat.mul_le_mul_left _ (Nat.mod_le _ _)
    _ ≤ blob.length := Nat.mul_div_le _ _

-- What does not fill a whole record is lost, and so are the records that cannot be counted.
theorem encodeSegments_decoded (h : decodeJob blob heap = some (job, heap')) :
    encodeSegments (job.segmentList heap') = blob.take (segmentSize * segmentCount blob) := by
  rw [encodeSegments, segmentList_decodeJob h]
  exact Layout.array_readArray Segment.layout_exact segmentSize_mul_segmentCount_le

theorem encodeSegments_length : (encodeSegments segs).length = segmentSize * segs.length :=
  Segment.layout.array_length segs

theorem segmentSize_mul_segmentCount : segmentSize * segmentCount blob = blob.length ↔
    segmentSize ∣ blob.length ∧ blob.length / segmentSize < UInt32.size := by
  rw [segmentCount]
  constructor
  case mp =>
    intro h
    have hd : segmentSize ∣ blob.length := ⟨_, h.symm⟩
    have hc : blob.length / segmentSize % UInt32.size = blob.length / segmentSize := by
      rw [← h, Nat.mul_div_cancel_left _ (by decide), Nat.mod_mod]
    exact ⟨hd, hc ▸ Nat.mod_lt _ (by decide)⟩
  case mpr => intro h; rw [Nat.mod_eq_of_lt h.right, Nat.mul_div_cancel' h.left]

-- The decoder takes a blob exactly if it consists of whole records, and these are encoded as the
-- same blob again.
structure DecodesExactly (blob : List UInt8) (heap : Heap Segment) : Prop where
  accepts   : (decodeJob blob heap).isSome ↔ 0 < blob.length ∧ segmentSize ∣ blob.length
  reencodes : ∀ job heap', decodeJob blob heap = some (job, heap') →
    encodeSegments (job.segmentList heap') = blob

def DecodesBack (segs : List Segment) (heap : Heap Segment) : Prop :=
  ∃ job heap', decodeJob (encodeSegments segs) heap = some (job, heap') ∧
    job.segmentList heap' = segs

theorem decodesExactly_iff : DecodesExactly blob heap ↔ blob.length < segmentSize ∨
    (segmentSize ∣ blob.length ∧ blob.length / segmentSize < UInt32.size) := by
  by_cases hl : blob.length < segmentSize
  case pos =>
    refine iff_of_true ⟨?_, fun job heap' h => ?_⟩ (.inl hl)
    · rw [decodeJob_isSome]
      refine iff_of_false (Nat.not_le.mpr hl) fun h => ?_
      exact absurd (Nat.le_of_dvd h.left h.right) (by omega)
    · cases (decodeJob_eq_none.mpr hl).symm.trans h
  case neg =>
    have hs : (decodeJob blob heap).isSome := decodeJob_isSome.mpr (Nat.not_lt.mp hl)
    have ⟨⟨job, heap'⟩, hd⟩ := Option.isSome_iff_exists.mp hs
    rw [or_iff_right hl, ← segmentSize_mul_segmentCount]
    constructor
    case mp =>
      intro e
      have h := congrArg List.length (encodeSegments_decoded hd)
      rw [e.reencodes _ _ hd, List.length_take] at h
      exact (Nat.min_eq_left segmentSize_mul_segmentCount_le).symm.trans h.symm
    case mpr =>
      intro hc
      refine ⟨iff_of_true hs ⟨by simp only [segmentSize] at hl; omega, _, hc.symm⟩, ?_⟩
      intro _ _ h
      rw [encodeSegments_decoded h, hc, List.take_length]

theorem decodesBack_iff : DecodesBack segs heap ↔ segs ≠ [] ∧ segs.length < UInt32.size := by
  have hl : (encodeSegments segs).length = segmentSize * segs.length := encodeSegments_length
  by_cases hn : segs = []
  case pos =>
    subst hn
    refine iff_of_false ?_ fun h => h.left rfl
    rintro ⟨_, _, h, _⟩
    cases h
  case neg =>
    have hp := List.length_pos_iff.mpr hn
    have hs : (decodeJob (encodeSegments segs) heap).isSome := by
      rw [decodeJob_isSome, hl]
      exact Nat.le_mul_of_pos_right _ hp
    have ⟨⟨job, heap'⟩, hd⟩ := Option.isSome_iff_exists.mp hs
    have hj := segmentList_decodeJob hd
    have hc : segmentCount (encodeSegments segs) = segs.length % UInt32.size := by
      rw [segmentCount, hl, Nat.mul_div_cancel_left _ (by decide)]
    rw [hc] at hj
    rw [and_iff_right_of_imp fun _ => hn]
    constructor
    case mp =>
      intro ⟨_, _, h, hb⟩
      cases hd.symm.trans h
      have h := congrArg List.length (hj.symm.trans hb)
      rw [Layout.readArray_length] at h
      exact h ▸ Nat.mod_lt _ (by decide)
    case mpr =>
      intro h
      rw [Nat.mod_eq_of_lt h] at hj
      refine ⟨job, heap', hd, hj.trans ?_⟩
      simpa only [encodeSegments, List.append_nil] using
        Layout.readArray_array (l := Segment.layout) segs []

-- The decoder is exact on all blobs that are shorter than a record or consist of whole ones, and on
-- the lists of segments that are not empty, as long as the records can be counted.
theorem decodes_iff_whole_records (blob : List UInt8) (segs : List Segment) (heap : Heap Segment) :
    (DecodesExactly blob heap ↔ blob.length < segmentSize ∨
      (segmentSize ∣ blob.length ∧ blob.length / segmentSize < UInt32.size)) ∧
    (DecodesBack segs heap ↔ segs ≠ [] ∧ segs.length < UInt32.size) :=
  ⟨decodesExactly_iff, decodesBack_iff⟩

-- A record that is followed by a byte.
theorem decodes_exactly_fails : ¬∀ blob heap, DecodesExactly blob heap := by
  intro hc
  have h := (hc (List.replicate 49 0) .empty).accepts.mp rfl
  exact absurd h.right (by decide)

end Firmware
