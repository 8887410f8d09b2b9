import MobilePrinter.Firmware.StateMachine

-- `job_ingress.cpp`, `job_id_allocator.cpp` and `poll_job_ingress` of `main.cpp`: the submission of
-- jobs through shared memory.

namespace Firmware

def jobIpcMagic : UInt32 := 0x57424A31

def jobMaxSize : Nat := 65536

-- `wbp_job_ingress_ipc_t`, as one poll reads it. The sequence number is read again when a job has
-- been accepted, and a writer may have bumped it by then.
structure JobIngressIpc where
  magic          : UInt32     := jobIpcMagic
  sequence       : UInt32
  latched        : UInt32     := sequence
  size           : UInt32
  jobBlob        : List UInt8
  jobBlob_length : jobBlob.length = jobMaxSize

-- The bytes of a job followed by zeros, as they lie in a region that was cleared before.
def JobIngressIpc.ofBlob (sequence : UInt32) (blob : List UInt8) (h : blob.length ≤ jobMaxSize) :
    JobIngressIpc where
  sequence       := sequence
  size           := UInt32.ofNat blob.length
  jobBlob        := blob ++ List.replicate (jobMaxSize - blob.length) 0
  jobBlob_length := by simp; omega

structure JobSubmitResult where
  accepted        : Bool   := false
  rejectionReason : String := ""
  jobId           : UInt64 := 0
  jobHash         : String := ""
  deriving DecidableEq, Repr

namespace State

def allocateJobId (s : State) : UInt64 × State :=
  (s.nextJobId, { s with nextJobId := s.nextJobId + 1 })

def rejectJob (s : State) (reason : String) : JobSubmitResult × State :=
  ({ rejectionReason := reason }, { s with ingress := { s.ingress with lastRejection := reason } })

-- Binds a validated job to the store, to `g_active_job`, to the machine state and to the ingress
-- state.
def bindJob (s : State) (job : Job) (schemaVersion : UInt32) : JobSubmitResult × State :=
  let jid  := s.allocateJobId.1
  let s    := s.allocateJobId.2
  let hash := computeJobHash job
  ({ accepted := true, jobId := jid, jobHash := hash },
    { s with
      store     := .setJob job jid hash schemaVersion
      activeJob := { job with
        receivedSegments  := job.totalSegments
        ingressCompleted  := true
        segmentsExhausted := true }
      machine   := { s.machine with
        jobPresent       := true
        jobId            := jid
        jobSchemaVersion := schemaVersion
        jobHash          := hash
        job              := { s.machine.job with layer := 0, segment := 0, state := .none } }
      ingress   := { s.ingress with
        jobLoaded     := true
        jobId         := jid
        schemaVersion := schemaVersion
        jobHash       := hash
        lastRejection := "" } })

def submitJob (s : State) (blob : List UInt8) : JobSubmitResult × State :=
  let s := { s with machine := { s.machine with lastCompletionReason := .none } }
  if !s.machine.operatorActions.canSubmitJob then
    s.rejectJob "operator_recovery_required"
  else if s.store.hasJob then
    s.rejectJob "job_already_present"
  else if s.machine.system != .ready then
    s.rejectJob
      (if s.machine.system == .recovering then "firmware_recovering" else "firmware_not_idle")
  else
    match decodeJob blob s.heap with
    | none             => s.rejectJob "invalid_job_blob"
    | some (job, heap) =>
      -- The decoded array is never deleted if the job is rejected after this point.
      let s := { s with heap := heap }
      if job.totalSegments == 0 then
        s.rejectJob "empty_job"
      else
        let job := { job with
          receivedSegments  := job.totalSegments
          ingressCompleted  := true
          segmentsExhausted := true }
        let v := validateJob job
        if !v.ok then
          s.rejectJob v.reason
        else
          let r := s.bindJob job v.schemaVersion
          (r.1, r.2.record (.jobAccepted r.1.jobId (decodeSegments job.totalSegments blob)))

-- `none` stands for shared memory that could not be mapped.
def pollJobIngress (s : State) (ipc : Option JobIngressIpc) : State :=
  if s.firstRead then
    { s with firstRead := false }
  else
    match ipc with
    | none     => s
    | some ipc =>
      if ipc.magic != jobIpcMagic then
        s
      else if ipc.size == 0 then
        s
      else if ipc.sequence == s.lastJobSeq then
        s
      else if ipc.size == 0 || ipc.size.toNat > jobMaxSize then
        s
      else
        let r := s.submitJob (ipc.jobBlob.take ipc.size.toNat)
        if r.1.accepted then
          { r.2 with lastJobSeq := ipc.latched }
        else
          r.2

end State
end Firmware
