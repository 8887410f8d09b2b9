import MobilePrinter.Firmware.JobIngress

namespace Firmware

-- The job that is bound for a blob whose array is allocated at `p`.
def Job.ofBlob (p : Heap.Ptr) (blob : List UInt8) : Job where
  totalSegments     := segmentCount blob
  segments          := some p
  segmentsExhausted := true
  receivedSegments  := segmentCount blob
  ingressCompleted  := true

namespace State

def acceptJob (s : State) (blob : List UInt8) (sequence : UInt32) : State :=
  let job := Job.ofBlob s.heap.next blob
  { s with
    heap       := s.heap.alloc (decodeSegments (segmentCount blob) blob)
    nextJobId  := s.nextJobId + 1
    lastJobSeq := sequence
    store      := .setJob job s.nextJobId (computeJobHash job) 1
    activeJob  := job
    machine    := { s.machine with
      lastCompletionReason := .none
      jobPresent           := true
      jobId                := s.nextJobId
      jobSchemaVersion     := 1
      jobHash              := computeJobHash job
      job                  := { s.machine.job with layer := 0, segment := 0, state := .none } }
    ingress    := {
      jobLoaded     := true
      jobId         := s.nextJobId
      schemaVersion := 1
      jobHash       := computeJobHash job
      lastRejection := "" }
  }.record (.jobAccepted s.nextJobId (decodeSegments (segmentCount blob) blob))

def refuseJob (s : State) (reason : String) (heap : Heap Segment) : State :=
  { s with
    heap    := heap
    machine := { s.machine with lastCompletionReason := .none }
    ingress := { s.ingress with lastRejection := reason } }

-- A blob that is accepted holds at least one whole segment and fits into the ingress region.
structure Submittable (s : State) (blob : List UInt8) : Prop where
  polled   : s.firstRead = false
  allowed  : s.machine.operatorActions.canSubmitJob = true
  ready    : s.machine.system = .ready
  vacant   : s.store.hasJob = false
  size     : blob.length ≤ jobMaxSize
  nonempty : segmentSize ≤ blob.length

-- The poll of the job ingress region binds the job that the region holds.
structure Ingests (s : State) (job : JobIngressIpc) : Prop where
  magic       : job.magic = jobIpcMagic
  fresh       : job.sequence ≠ s.lastJobSeq
  size        : job.size.toNat ≤ jobMaxSize
  submittable : s.Submittable (job.jobBlob.take job.size.toNat)

instance : Decidable (Submittable s blob) :=
  decidable_of_iff
    (s.firstRead = false ∧ s.machine.operatorActions.canSubmitJob = true ∧
      s.machine.system = .ready ∧ s.store.hasJob = false ∧ blob.length ≤ jobMaxSize ∧
      segmentSize ≤ blob.length)
    ⟨fun ⟨h₁, h₂, h₃, h₄, h₅, h₆⟩ => ⟨h₁, h₂, h₃, h₄, h₅, h₆⟩,
      fun ⟨h₁, h₂, h₃, h₄, h₅, h₆⟩ => ⟨h₁, h₂, h₃, h₄, h₅, h₆⟩⟩

instance : Decidable (Ingests s job) :=
  decidable_of_iff
    (job.magic = jobIpcMagic ∧ job.sequence ≠ s.lastJobSeq ∧ job.size.toNat ≤ jobMaxSize ∧
      s.Submittable (job.jobBlob.take job.size.toNat))
    ⟨fun ⟨h₁, h₂, h₃, h₄⟩ => ⟨h₁, h₂, h₃, h₄⟩, fun ⟨h₁, h₂, h₃, h₄⟩ => ⟨h₁, h₂, h₃, h₄⟩⟩

-- The text with which a blob is rejected that fits into the ingress region.
def rejection? (s : State) (blob : List UInt8) : Option String :=
  if s.machine.operatorActions.canSubmitJob = false then
    some "operator_recovery_required"
  else if s.store.hasJob = true then
    some "job_already_present"
  else if s.machine.system ≠ .ready then
    some (if s.machine.system = .recovering then "firmware_recovering" else "firmware_not_idle")
  else if blob.length < segmentSize then
    some "invalid_job_blob"
  else
    none

-- The region holds a job that the poll submits.
structure Offered (s : State) (job : JobIngressIpc) : Prop where
  magic    : job.magic = jobIpcMagic
  nonempty : job.size ≠ 0
  fresh    : job.sequence ≠ s.lastJobSeq
  size     : job.size.toNat ≤ jobMaxSize

instance : Decidable (Offered s job) :=
  decidable_of_iff
    (job.magic = jobIpcMagic ∧ job.size ≠ 0 ∧ job.sequence ≠ s.lastJobSeq ∧
      job.size.toNat ≤ jobMaxSize)
    ⟨fun ⟨h₁, h₂, h₃, h₄⟩ => ⟨h₁, h₂, h₃, h₄⟩, fun ⟨h₁, h₂, h₃, h₄⟩ => ⟨h₁, h₂, h₃, h₄⟩⟩

-- What one poll of the job ingress region can do to the state.
inductive Ingested (s : State) : State → Prop
  | none (polled : s.firstRead = false) : Ingested s s
  | first (h : s.firstRead = true) : Ingested s { s with firstRead := false }
  | rejected (polled : s.firstRead = false) (reason : String) :
    Ingested s (s.refuseJob reason s.heap)
  | accepted (submittable : s.Submittable blob) (sequence : UInt32) :
    Ingested s (s.acceptJob blob sequence)

variable {s s' : State} {blob : List UInt8}

theorem segmentCount_pos (h₁ : segmentSize ≤ blob.length) (h₂ : blob.length ≤ jobMaxSize) :
    0 < segmentCount blob := by
  simp only [segmentCount, segmentSize, jobMaxSize, UInt32.size] at *
  omega

theorem segmentCount_le (h : blob.length ≤ jobMaxSize) :
    segmentCount blob ≤ jobMaxSize / segmentSize := by
  simp only [segmentCount, segmentSize, jobMaxSize, UInt32.size] at *
  omega

theorem validateJob_of_ok {job : Job} (h : (validateJob job).ok = true) :
    validateJob job = { ok := true, schemaVersion := 1, reason := "" } := by
  simp only [validateJob] at h ⊢
  split
  case isTrue hj  => rw [if_pos hj] at h; cases h
  case isFalse    => rfl

-- A submission either is refused, possibly behind the decoder, which leaves the array of the job
-- over, or binds the job.
theorem submitJob_outcome (s : State) (blob : List UInt8) :
    (∃ text array, s.submitJob blob = ({ rejectionReason := text }, s.refuseJob text array)) ∨
    ((s.submitJob blob).1.accepted = true ∧
      (s.submitJob blob).2 = s.acceptJob blob s.lastJobSeq) := by
  simp only [submitJob]
  split
  case isTrue => exact .inl ⟨_, _, rfl⟩
  split
  case isTrue => exact .inl ⟨_, _, rfl⟩
  split
  case isTrue => exact .inl ⟨_, _, rfl⟩
  split
  case h_1 => exact .inl ⟨_, _, rfl⟩
  case h_2 job array hd =>
    split
    case isTrue => exact .inl ⟨_, _, rfl⟩
    split
    case isTrue => exact .inl ⟨_, _, rfl⟩
    case isFalse hv =>
      rw [validateJob_of_ok (by simpa using hv)]
      simp only [decodeJob] at hd
      split at hd
      case isTrue  => cases hd
      case isFalse => cases hd; exact .inr ⟨rfl, rfl⟩

theorem rejection?_eq_none : s.rejection? blob = none ↔
    s.machine.operatorActions.canSubmitJob = true ∧ s.machine.system = .ready ∧
      s.store.hasJob = false ∧ segmentSize ≤ blob.length := by
  simp only [rejection?]
  grind

theorem submitJob_of_rejection (h : s.rejection? blob = some text) :
    s.submitJob blob = ({ rejectionReason := text }, s.refuseJob text s.heap) := by
  simp only [rejection?] at h
  simp only [submitJob]
  split at h
  case isTrue ho =>
    cases h
    simp only [ho, Bool.not_false, if_true]
    rfl
  split at h
  case isTrue ho hv =>
    cases h
    rw [if_neg (by simpa using ho), if_pos hv]
    rfl
  split at h
  case isTrue ho hv hr =>
    cases h
    rw [if_neg (by simpa using ho), if_neg (by simpa using hv), if_pos (by simpa using hr)]
    simp only [beq_iff_eq]
    rfl
  split at h
  case isTrue ho hv hr hl =>
    cases h
    rw [if_neg (by simpa using ho), if_neg (by simpa using hv), if_neg (by simpa using hr)]
    simp only [decodeJob, hl, if_true]
    rfl
  case isFalse => cases h

theorem submitJob_of_acceptable (hs : blob.length ≤ jobMaxSize) (h : s.rejection? blob = none) :
    (s.submitJob blob).1.accepted = true ∧
      ∀ q, { (s.submitJob blob).2 with lastJobSeq := q } = s.acceptJob blob q := by
  have ⟨ho, hr, hv, hn⟩ := rejection?_eq_none.mp h
  have hp := segmentCount_pos hn hs
  have hz : (segmentCount blob == 0) = false := by simp; omega
  simp only [submitJob]
  rw [if_neg (by simpa using ho), if_neg (by simpa using hv), if_neg (by simpa using hr)]
  simp only [decodeJob, Nat.not_lt.mpr hn, hz, validateJob, Job.valid, hp, decide_true,
    Bool.and_true, Option.isSome_some, Bool.not_true, Bool.false_eq_true, ↓reduceIte]
  exact ⟨rfl, fun _ => rfl⟩
theorem pollJobIngress_of_not_offered (hf : s.firstRead = false)
    (h : ∀ job ∈ ipc, ¬s.Offered job) : s.pollJobIngress ipc = s := by
  simp only [pollJobIngress, hf, Bool.false_eq_true, ↓reduceIte]
  split
  case h_1 => rfl
  case h_2 job =>
    have hn := h job rfl
    split
    case isTrue => rfl
    split
    case isTrue => rfl
    split
    case isTrue => rfl
    split
    case isTrue => rfl
    case isFalse hm hz hq hs =>
      refine absurd ⟨by simpa using hm, by simpa using hz, by simpa using hq, ?_⟩ hn
      simp only [Bool.or_eq_true, decide_eq_true_eq, not_or, Nat.not_lt, gt_iff_lt] at hs
      exact hs.right

theorem pollJobIngress_of_offered {job : JobIngressIpc} (hf : s.firstRead = false)
    (h : s.Offered job) :
    s.pollJobIngress (some job) =
      if (s.submitJob (job.jobBlob.take job.size.toNat)).1.accepted
      then { (s.submitJob (job.jobBlob.take job.size.toNat)).2 with lastJobSeq := job.latched }
      else (s.submitJob (job.jobBlob.take job.size.toNat)).2 := by
  simp [pollJobIngress, hf, h.magic, h.nonempty, h.fresh, Nat.not_lt.mpr h.size]

theorem Offered.length {job : JobIngressIpc} (h : s.Offered job) :
    (job.jobBlob.take job.size.toNat).length ≤ jobMaxSize := by
  have hs := h.size
  rw [List.length_take]
  omega

theorem pollJobIngress_of_rejection {job : JobIngressIpc} (hf : s.firstRead = false)
    (h : s.Offered job)
    (hr : s.rejection? (job.jobBlob.take job.size.toNat) = some text) :
    s.pollJobIngress (some job) = s.refuseJob text s.heap := by
  rw [pollJobIngress_of_offered hf h, submitJob_of_rejection hr]
  rfl

theorem Offered.ingests {job : JobIngressIpc} (h : s.Offered job) (hf : s.firstRead = false)
    (hr : s.rejection? (job.jobBlob.take job.size.toNat) = none) : s.Ingests job where
  magic       := h.magic
  fresh       := h.fresh
  size        := h.size
  submittable :=
    have ⟨ho, hs, hv, hn⟩ := rejection?_eq_none.mp hr
    ⟨hf, ho, hs, hv, h.length, hn⟩

theorem Ingests.offered {job : JobIngressIpc} (h : s.Ingests job) : s.Offered job where
  magic    := h.magic
  nonempty := by
    intro hz
    have hn := h.submittable.nonempty
    simp [hz, segmentSize] at hn
  fresh    := h.fresh
  size     := h.size

theorem Ingests.pollJobIngress {job : JobIngressIpc} (h : s.Ingests job) :
    s.pollJobIngress (some job) = s.acceptJob (job.jobBlob.take job.size.toNat) job.latched := by
  have a := h.submittable
  have hr := rejection?_eq_none.mpr ⟨a.allowed, a.ready, a.vacant, a.nonempty⟩
  have ⟨ha, he⟩ := submitJob_of_acceptable a.size hr
  rw [pollJobIngress_of_offered a.polled h.offered, if_pos ha, he]

theorem pollJobIngress_cases (s : State) (ipc : Option JobIngressIpc) :
    (Ingested s (s.pollJobIngress ipc) ∧ (s.pollJobIngress ipc).lastJobSeq = s.lastJobSeq ∧
      (s.pollJobIngress ipc).history = s.history) ∨
    ∃ job, ipc = some job ∧ s.Ingests job ∧
      s.pollJobIngress ipc = s.acceptJob (job.jobBlob.take job.size.toNat) job.latched := by
  cases hf : s.firstRead
  case true =>
    have h : s.pollJobIngress ipc = { s with firstRead := false } := by
      simp [pollJobIngress, hf]
    rw [h]
    exact .inl ⟨.first hf, rfl, rfl⟩
  case false =>
    by_cases ho : ∃ job ∈ ipc, s.Offered job
    case neg =>
      rw [pollJobIngress_of_not_offered hf fun job hj h => ho ⟨job, hj, h⟩]
      exact .inl ⟨.none hf, rfl, rfl⟩
    case pos =>
      obtain ⟨job, rfl, ho⟩ := ho
      cases hr : s.rejection? (job.jobBlob.take job.size.toNat)
      case some text =>
        rw [pollJobIngress_of_rejection hf ho hr]
        exact .inl ⟨.rejected hf text, rfl, rfl⟩
      case none =>
        have hi := ho.ingests hf hr
        exact .inr ⟨job, rfl, hi, hi.pollJobIngress⟩

theorem pollJobIngress_ingested (ipc : Option JobIngressIpc) :
    Ingested s (s.pollJobIngress ipc) := by
  cases pollJobIngress_cases s ipc
  case inl h => exact h.left
  case inr h =>
    have ⟨job, _, hi, h⟩ := h
    rw [h]
    exact .accepted hi.submittable job.latched

theorem Ingested.firstRead (i : Ingested s s') : s'.firstRead = false := by
  cases i
  case none h       => exact h
  case first        => rfl
  case rejected h _ => exact h
  case accepted a _ => exact a.polled

theorem pollJobIngress_ofBlob (a : s.Submittable blob) (hq : q ≠ s.lastJobSeq) :
    s.pollJobIngress (some (.ofBlob q blob a.size)) = s.acceptJob blob q := by
  have hl : (UInt32.ofNat blob.length).toNat = blob.length := by
    have hs := a.size
    simp only [jobMaxSize] at hs
    exact UInt32.toNat_ofNat_of_lt' (by simp only [UInt32.size]; omega)
  have hb : (JobIngressIpc.ofBlob q blob a.size).jobBlob.take
      (JobIngressIpc.ofBlob q blob a.size).size.toNat = blob := by
    simp [JobIngressIpc.ofBlob, hl]
  have h : s.Ingests (.ofBlob q blob a.size) := ⟨rfl, hq, hl.trans_le a.size, hb.symm ▸ a⟩
  have h := h.pollJobIngress
  rwa [hb] at h

theorem Ingested.preserves {P : State → Prop} (hf : P s → P { s with firstRead := false })
    (hr : ∀ reason, P s → P (s.refuseJob reason s.heap))
    (ha : ∀ {blob} q, P s → s.Submittable blob → P (s.acceptJob blob q))
    (i : Ingested s s') (h : P s) : P s' := by
  cases i
  case none         => exact h
  case first        => exact hf h
  case rejected     => exact hr _ h
  case accepted a q => exact ha q h a

end State
end Firmware
