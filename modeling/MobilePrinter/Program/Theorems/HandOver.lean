import Mathlib.Algebra.Group.Nat.Defs
import Mathlib.Data.List.Forall2
import MobilePrinter.Firmware.Main
import MobilePrinter.Firmware.Theorems.Ingress
import MobilePrinter.Program.MotionLoader

namespace Program

open Firmware

@[simp]
theorem leBytes_length : (leBytes k n).length = k := by
  induction k generalizing n <;> simp [leBytes, *]

theorem leNat_leBytes : leNat (leBytes k n) = n % 256 ^ k := by
  induction k generalizing n
  case zero      => simp [leBytes, leNat, Nat.mod_one]
  case succ k ih =>
    rw [leBytes, leNat, ih, Nat.pow_succ', Nat.mod_mul]
    simp

theorem Segment.bytes_length (seg : Segment) : seg.bytes.length = segmentSize := by
  simp [Segment.bytes, segmentSize]

theorem decodeU32_append (h : pre.length ≤ offset) :
    decodeU32 (pre ++ bytes) offset = decodeU32 bytes (offset - pre.length) := by
  simp [decodeU32, List.drop_append, List.drop_of_length_le h]

theorem decodeDouble_append (h : pre.length ≤ offset) :
    decodeDouble (pre ++ bytes) offset = decodeDouble bytes (offset - pre.length) := by
  simp [decodeDouble, List.drop_append, List.drop_of_length_le h]

theorem decodeU32_leBytes (x : UInt32) : decodeU32 (leBytes 4 x.toNat ++ rest) 0 = x := by
  have hx : x.toNat < 256 ^ 4 := x.toNat_lt
  rw [decodeU32, List.drop_zero, List.take_left' leBytes_length, leNat_leBytes,
    Nat.mod_eq_of_lt hx, UInt32.ofNat_toNat]

theorem decodeDouble_leBytes (x : Double) :
    decodeDouble (leBytes 8 x.bits.toNat ++ rest) 0 = x := by
  have hx : x.bits.toNat < 256 ^ 8 := x.bits.toNat_lt
  rw [decodeDouble, List.drop_zero, List.take_left' leBytes_length, leNat_leBytes,
    Nat.mod_eq_of_lt hx, UInt64.ofNat_toNat]

theorem decodeSegment_bytes (seg : Segment) : decodeSegment (seg.bytes ++ rest) =
    ⟨seg.layer, seg.indexInLayer, seg.x, seg.y, seg.z, seg.extrusion, seg.feedrate⟩ := by
  simp [decodeSegment, Segment.bytes, decodeU32_append, decodeDouble_append, decodeU32_leBytes,
    decodeDouble_leBytes]

structure Carries (seg : MotionSegment) (r : Firmware.Segment) : Prop where
  index     : r.indexInLayer = seg.segmentId
  x         : seg.targetPositions[0]? = some r.x
  y         : seg.targetPositions[1]? = some r.y
  z         : seg.targetPositions[2]? = some r.z
  extrusion : seg.targetPositions[3]? = some r.extrusion
  feedrate  : r.feedrate = seg.maxVelocity

-- The firmware is about to take the job that lies in the region.
structure Awaits (f : State) (job : JobIngressIpc) : Prop where
  polled  : f.firstRead = false
  allowed : f.machine.operatorActions.canSubmitJob = true
  ready   : f.machine.system = .ready
  vacant  : f.store.hasJob = false
  fresh   : job.sequence ≠ f.lastJobSeq

-- A firmware that awaits the job accepts it with exactly the segments of the program.
def Arrives (program : List MotionSegment) (job : JobIngressIpc) : Prop :=
  ∀ f : State, Awaits f job → ∃ segments f', f.pollJobIngress (some job) = f' ∧
    f'.history = .jobAccepted f.nextJobId segments :: f.history ∧
    f'.activeJob.segments.bind f'.heap.deref = some segments ∧
    f'.activeJob.totalSegments = program.length ∧ List.Forall₂ Carries program segments

namespace MotionLoader

variable {s : MotionLoader} {ipc : JobIngressRegion}

-- The region is left untouched, or it is written inside `job_blob` and the program arrives.
def Survives (s : MotionLoader) (ipc : Option JobIngressRegion) : Prop :=
  ∀ ipc' spilt, s.submitJobIPC ipc = some (ipc', spilt) →
    spilt = [] ∧ Arrives s.programSegments ipc'.read

def Writes (s : MotionLoader) (ipc : Option JobIngressRegion) : Prop :=
  ∃ region, ipc = some region ∧ region.magic = jobIpcMagic ∧ s.jobSubmitted = false

theorem programBytes_length : s.programBytes.length = segmentSize * s.programSegments.length := by
  simp [programBytes, Segment.bytes_length, List.map_const', Nat.mul_comm]

theorem carries_fwSegment (seg : MotionSegment) (rest : List UInt8) :
    Carries seg (decodeSegment ((fwSegment seg).bytes ++ rest)) := by
  rw [decodeSegment_bytes]
  constructor <;> simp [fwSegment]

theorem decodeSegments_programBytes (program : List MotionSegment) (rest : List UInt8) :
    List.Forall₂ Carries program (decodeSegments program.length
      ((program.flatMap fun seg => (fwSegment seg).bytes) ++ rest)) := by
  induction program
  case nil => exact .nil
  case cons seg program ih =>
    simp only [List.flatMap_cons, List.append_assoc, List.length_cons, decodeSegments]
    rw [List.drop_left' (Segment.bytes_length _)]
    exact .cons (carries_fwSegment seg _) ih

theorem submitJobIPC_writes (hm : ipc.magic = jobIpcMagic) (hj : s.jobSubmitted = false) :
    ∃ ipc', s.submitJobIPC (some ipc) = some (ipc', s.programBytes.drop jobMaxSize) ∧
      ipc'.magic = jobIpcMagic ∧ ipc'.size = .ofNat s.programBytes.length ∧
      ipc'.jobBlob =
        s.programBytes.take jobMaxSize ++ ipc.jobBlob.drop s.programBytes.length := by
  simp only [submitJobIPC, hm, hj]
  exact ⟨_, rfl, rfl, rfl, rfl⟩

theorem submitJobIPC_untouched (h : ¬s.Writes ipc?) : s.submitJobIPC ipc? = none := by
  simp only [submitJobIPC]
  split
  case _ => rfl
  case _ ipc =>
    split
    case isTrue => rfl
    case isFalse hm =>
      split
      case isTrue => rfl
      case isFalse hj => exact absurd ⟨ipc, rfl, by simpa using hm, by simpa using hj⟩ h

theorem fits_of_survives (h : s.Survives ipc?) (hw : s.Writes ipc?) :
    segmentSize * s.programSegments.length ≤ jobMaxSize := by
  have ⟨ipc, hi, hm, hj⟩ := hw
  have ⟨_, hs, _⟩ := submitJobIPC_writes hm hj
  have ⟨he, _⟩ := h _ _ (hi ▸ hs)
  rw [← programBytes_length]
  exact List.drop_eq_nil_iff.mp he

theorem segmentCount_programBytes
    (h : segmentSize * s.programSegments.length ≤ jobMaxSize) :
    segmentCount s.programBytes = s.programSegments.length := by
  rw [segmentCount, programBytes_length]
  simp only [segmentSize, jobMaxSize, UInt32.size] at *
  omega

theorem arrives (hp : s.programSegments ≠ []) (hf : s.programBytes.length ≤ jobMaxSize)
    (hm : ipc.magic = jobIpcMagic) (hs : ipc.size = .ofNat s.programBytes.length)
    (hb : ipc.jobBlob.take s.programBytes.length = s.programBytes) :
    Arrives s.programSegments ipc.read := by
  intro f a
  have hl : ipc.size.toNat = s.programBytes.length := by
    simp only [jobMaxSize] at hf
    rw [hs]
    exact UInt32.toNat_ofNat_of_lt' (by simp only [UInt32.size]; omega)
  have hb : ipc.read.jobBlob.take ipc.read.size.toNat = s.programBytes := by
    change ipc.jobBlob.take ipc.size.toNat = _
    rw [hl, hb]
  have hn : segmentSize ≤ s.programBytes.length := by
    rw [programBytes_length]
    exact Nat.le_mul_of_pos_right _ (List.length_pos_iff.mpr hp)
  have ha : f.Submittable s.programBytes := ⟨a.polled, a.allowed, a.ready, a.vacant, hf, hn⟩
  have ht := State.Ingests.pollJobIngress ⟨hm, a.fresh, hl.trans_le hf, hb.symm ▸ ha⟩
  have hc := segmentCount_programBytes (programBytes_length ▸ hf)
  have hd := decodeSegments_programBytes s.programSegments []
  rw [List.append_nil] at hd
  rw [hb] at ht
  refine ⟨_, _, ht, rfl, ?_, hc, hc ▸ hd⟩
  exact Heap.deref_alloc_next

theorem survives_of_fits (hp : s.programSegments ≠ [])
    (h : s.Writes ipc? → segmentSize * s.programSegments.length ≤ jobMaxSize) :
    s.Survives ipc? := by
  intro ipc' spilt hs
  by_cases hw : s.Writes ipc?
  case neg => rw [submitJobIPC_untouched hw] at hs; cases hs
  case pos =>
    have hf : s.programBytes.length ≤ jobMaxSize := programBytes_length ▸ h hw
    have ⟨ipc, hi, hm, hj⟩ := hw
    have ⟨_, hs', hm, hz, hb⟩ := submitJobIPC_writes hm hj
    cases (hi ▸ hs).symm.trans hs'
    refine ⟨List.drop_eq_nil_iff.mpr hf, arrives hp hf hm hz ?_⟩
    rw [hb, List.take_of_length_le hf, List.take_left' rfl]

end MotionLoader

open MotionLoader

-- A program survives the hand-over exactly if the region is not written or has room for it.
theorem survives_iff_fits (s : MotionLoader) (ipc : Option JobIngressRegion)
    (h : s.programSegments ≠ []) : s.Survives ipc ↔
      (s.Writes ipc → segmentSize * s.programSegments.length ≤ jobMaxSize) :=
  ⟨fits_of_survives, survives_of_fits h⟩

def corner : MotionSegment where
  segmentId       := 1
  targetPositions := [⟨1⟩, ⟨2⟩, ⟨3⟩, ⟨4⟩]
  maxVelocity     := ⟨5⟩
  fourAxes        := by decide

def cleared : JobIngressRegion where
  magic           := jobIpcMagic
  sequence        := 0
  size            := 0
  jobBlob         := List.replicate jobMaxSize 0
  ingressComplete := 0
  jobBlob_length  := List.length_replicate

-- A program of one segment arrives at a firmware that has polled the region once.
theorem survives_iff_fits_corner :
    ∃ ipc f, (MotionLoader.mk [corner] false).submitJobIPC (some cleared) = some (ipc, []) ∧
      Reachable f ∧ Awaits f ipc.read ∧ Arrives [corner] ipc.read := by
  have hs : (MotionLoader.mk [corner] false).Survives (some cleared) :=
    (survives_iff_fits _ _ (List.cons_ne_nil _ _)).mpr fun _ => by decide
  have ⟨f, hb, h⟩ : ∃ f, boot {} none = .ok f ∧
      Transition.Reaches tick (fun f => f.firstRead = false ∧
        f.machine.operatorActions.canSubmitJob = true ∧ f.machine.system = .ready ∧
        f.store.hasJob = false ∧ 1 ≠ f.lastJobSeq) f [{}] :=
    ⟨_, rfl, by decide +kernel⟩
  have ⟨f, e, hp, ha, hr, hv, hn⟩ := h.run
  exact ⟨_, f, rfl, ⟨⟨_, _, hb⟩, e⟩, ⟨hp, ha, hr, hv, hn⟩, (hs _ _ rfl).right⟩

theorem corners_fit (hn : n ≠ 0)
    (h : ∀ (s : MotionLoader) ipc, s.programSegments ≠ [] → s.Survives ipc) :
    segmentSize * n ≤ jobMaxSize := by
  have hc : List.replicate n corner ≠ [] := (List.replicate_eq_nil_iff corner).not.mpr hn
  have hs := h { programSegments := _ } (some cleared) hc
  have hf := fits_of_survives hs ⟨cleared, rfl, rfl, rfl⟩
  rwa [List.length_replicate] at hf

-- 1366 segments take 65568 bytes.
theorem spills_over : ¬∀ (s : MotionLoader) ipc, s.programSegments ≠ [] → s.Survives ipc := by
  intro h
  have hf : segmentSize * 1366 ≤ jobMaxSize := corners_fit nofun h
  exact absurd hf (by decide)

end Program
