import MobilePrinter.Firmware.Theorems.Prints
import MobilePrinter.Program.Pipeline
import MobilePrinter.Program.Theorems.HandOver

open Transition

namespace Firmware

def Event.acceptedJob? : Event → Option (List Segment)
  | .jobAccepted _ segs => some segs
  | _                   => none

def acceptedJobs (h : History) : List (List Segment) :=
  h.filterMap Event.acceptedJob?

namespace State

variable {s s' : State} {i : TickInput} {io : FileOutcomes} {js : List (List Segment)}

-- The latch of the sequence number, and the jobs that have been accepted.
def Took (latch : UInt32) (jobs : List (List Segment)) (s : State) : Prop :=
  s.lastJobSeq = latch ∧ acceptedJobs s.history = jobs

theorem relayed_took : Relayed (Took q js) i where
  armed _ h _    := h
  fault _ h _    := h
  run _ h _      := h
  executed _ h e :=
    ⟨h.left, e.keeps_history (P := (acceptedJobs · = _)) h.right fun _ _ _ _ => h.right⟩

theorem Accepts.took (a : Accepts s io c s') (h : s.Took q js) : s'.Took q js := by
  cases a <;> exact h

theorem pollCommand_took (h : s.Took q js) : (s.pollCommand io shm).Took q js :=
  (pollCommand_polled shm).preserves (P := Took q js) (fun h => h) (fun h => h)
    (fun h a => a.took h) h

theorem Orchestrated.took (o : Orchestrated s io s') (h : s.Took q js) : s'.Took q js := by
  refine ⟨o.channels.lastJobSeq.trans h.left, Eq.trans ?_ h.right⟩
  cases o
  case draining a _ => cases a <;> rfl
  case aborted a _  => cases a <;> rfl
  case paused a _ _ => cases a <;> rfl
  case released a   => cases a <;> rfl
  all_goals rfl

theorem WellFormed.tick_took (w : s.WellFormed) (ht : Firmware.tick i s = .ok s') :
    s'.Took s.lastJobSeq (acceptedJobs s.history) ∨
    ∃ job, i.job = some job ∧ job.sequence ≠ s.lastJobSeq ∧
      let blob := job.jobBlob.take job.size.toNat
      s'.Took job.latched
        (decodeSegments (segmentCount blob) blob :: acceptedJobs s.history) := by
  have hp : (s.pollCommand i.io i.command).Took s.lastJobSeq (acceptedJobs s.history) :=
    pollCommand_took ⟨rfl, rfl⟩
  cases pollJobIngress_cases (s.pollCommand i.io i.command) i.job
  case inl hi =>
    have ⟨_, hq, hh⟩ := hi
    exact .inl (relayed_took.tick w ⟨hq.trans hp.left, hh ▸ hp.right⟩ ht fun _ o => o.took)
  case inr hi =>
    have ⟨job, hj, hq, hi⟩ := hi
    refine .inr ⟨job, hj, hp.left ▸ hq.fresh, relayed_took.tick w ?_ ht fun _ o => o.took⟩
    rw [hi]
    exact ⟨rfl, congrArg _ hp.right⟩

end State

theorem Booted.took (b : Booted s) : s.Took 0 [] := by
  have ⟨_, b⟩ := b.boots
  cases b <;> exact ⟨rfl, rfl⟩

end Firmware

namespace Program

open Firmware

variable {ipc : JobIngressRegion} {bytes : List UInt8} {a : Assignment} {w : Write}

structure JobIngressRegion.Holds (ipc : JobIngressRegion) (bytes : List UInt8) : Prop where
  size : ipc.size = .ofNat bytes.length
  blob : ipc.jobBlob.take bytes.length = bytes
  fits : bytes.length ≤ jobMaxSize

namespace JobIngressRegion

theorem Holds.toNat_size (h : ipc.Holds bytes) : ipc.size.toNat = bytes.length := by
  have hf := h.fits
  simp only [jobMaxSize] at hf
  rw [h.size]
  exact UInt32.toNat_ofNat_of_lt' (by simp only [UInt32.size]; omega)

theorem Holds.read (h : ipc.Holds bytes) : ipc.read.jobBlob.take ipc.read.size.toNat = bytes := by
  change ipc.jobBlob.take ipc.size.toNat = bytes
  rw [h.toNat_size, h.blob]

theorem Holds.notify (h : ipc.Holds bytes) : (ipc.assign .sequence).Holds bytes :=
  ⟨h.size, h.blob, h.fits⟩

theorem Holds.complete (h : ipc.Holds bytes) : (ipc.assign .ingressComplete).Holds bytes :=
  ⟨h.size, h.blob, h.fits⟩

theorem assign_sequence (h : a ≠ .sequence) : (ipc.assign a).sequence = ipc.sequence := by
  cases a <;> first | rfl | exact absurd rfl h

theorem take_set_append {l : List UInt8} (h : k < l.length) (b : UInt8) (bs : List UInt8) :
    (l.set k b).take (k + 1) ++ bs ++ (l.set k b).drop (k + 1 + bs.length) =
      l.take k ++ b :: bs ++ l.drop (k + (bs.length + 1)) := by
  have ht : (l.set k b).take (k + 1) = l.take k ++ [b] := by
    rw [List.take_add_one, List.take_set_of_le (Nat.le_refl k), List.getElem?_set_self h]
    rfl
  rw [ht, List.drop_set_of_lt (by omega), List.append_assoc, List.append_assoc]
  simp [Nat.add_comm, Nat.add_left_comm]

theorem foldl_bytes {k : Nat} (h : k + bytes.length ≤ jobMaxSize) :
    (((bytes.zipIdx k).map fun b => Assignment.byte b.2 b.1).foldl assign ipc).jobBlob =
      ipc.jobBlob.take k ++ bytes ++ ipc.jobBlob.drop (k + bytes.length) := by
  induction bytes generalizing ipc k
  case nil => simp
  case cons b bytes ih =>
    rw [List.length_cons] at h
    have hk : k < ipc.jobBlob.length := by rw [ipc.jobBlob_length]; omega
    rw [List.zipIdx_cons, List.map_cons, List.foldl_cons, ih (k := k + 1) (by omega)]
    exact take_set_append hk b bytes

theorem foldl_copyBlob (h : bytes.length ≤ jobMaxSize) :
    ((copyBlob bytes).foldl assign ipc).jobBlob = bytes ++ ipc.jobBlob.drop bytes.length := by
  rw [copyBlob, foldl_bytes (k := 0) (by omega), List.take_zero, List.nil_append, Nat.zero_add]

theorem holds_of_copied (h : bytes.length ≤ jobMaxSize) :
    (((copyBlob bytes).foldl assign ipc).assign (.size bytes.length)).Holds bytes where
  size := rfl
  blob := by
    change ((copyBlob bytes).foldl assign ipc).jobBlob.take bytes.length = bytes
    rw [foldl_copyBlob h, List.take_left' rfl]
  fits := h

end JobIngressRegion

inductive Write.Fits (ipc : JobIngressRegion) (w : Write) : Prop
  | open (stores : w.stores = before ++ .sequence :: behind) (first : .sequence ∉ before)
    (rest : ∀ a ∈ behind, a = .ingressComplete)
    (holds : (before.foldl .assign ipc).Holds w.job.bytes) : Write.Fits ipc w
  | closed (rest : ∀ a ∈ w.stores, a = .ingressComplete) : Write.Fits ipc w

theorem not_mem_copyBlob : Assignment.sequence ∉ copyBlob bytes := by
  simp [copyBlob]

theorem Write.Fits.manager {s : MotionLoader} (h : s.programBytes.length ≤ jobMaxSize) :
    Write.Fits ipc { job := ⟨s.programBytes, program⟩, stores := s.stores } := by
  have hs : s.stores =
      (copyBlob s.programBytes ++ [.size s.programBytes.length, .ingressComplete]) ++
        .sequence :: [] := by
    simp [MotionLoader.stores]
  refine .open hs (by simp [not_mem_copyBlob]) nofun ?_
  rw [List.foldl_append]
  exact (JobIngressRegion.holds_of_copied h).complete

theorem Write.Fits.supervisor (h : bytes.length ≤ jobMaxSize) :
    Write.Fits ipc { job := ⟨bytes, program⟩, stores := writeJob bytes } := by
  have hs : writeJob bytes =
      (copyBlob bytes ++ [.size bytes.length]) ++ .sequence :: [.ingressComplete] := by
    simp [writeJob]
  refine .open hs (by simp [not_mem_copyBlob]) (by simp) ?_
  rw [List.foldl_append]
  exact JobIngressRegion.holds_of_copied h

theorem Write.Fits.not_open (h : w.Fits ipc) (hn : ¬w.Open) :
    ∀ a ∈ w.stores, a = .ingressComplete := by
  cases h
  case «open» hs _ _ _ => exact absurd (by simp [Open, hs]) hn
  case closed h        => exact h

theorem Write.Fits.notify (h : w.Fits ipc) (hs : w.stores = .sequence :: rest) :
    (ipc.assign .sequence).Holds w.job.bytes ∧ ∀ a ∈ rest, a = .ingressComplete := by
  cases h
  case closed hr => exact absurd (hr .sequence (hs ▸ List.mem_cons_self)) nofun
  case «open» before _ h hf hr hh =>
    cases before
    case cons a _ =>
      rw [h, List.cons_append, List.cons.injEq] at hs
      exact absurd (hs.left ▸ List.mem_cons_self) hf
    case nil =>
      rw [h, List.nil_append, List.cons.injEq] at hs
      exact ⟨JobIngressRegion.Holds.notify hh, hs.right ▸ hr⟩

-- Any other store makes what is left of the write fit.
theorem Write.Fits.assign (h : w.Fits ipc) (hs : w.stores = a :: rest) (ha : a ≠ .sequence) :
    Write.Fits (ipc.assign a) { w with stores := rest } := by
  cases h
  case closed hr => exact .closed fun b hb => hr b (hs ▸ List.mem_cons_of_mem _ hb)
  case «open» before _ h hf hr hh =>
    cases before
    case nil =>
      rw [h, List.nil_append, List.cons.injEq] at hs
      exact absurd hs.left.symm ha
    case cons b before =>
      rw [h, List.cons_append, List.cons.injEq] at hs
      refine .open hs.right.symm (fun hm => hf (List.mem_cons_of_mem _ hm)) hr ?_
      rw [List.foldl_cons, hs.left] at hh
      exact hh

namespace Pipeline

variable {p p' : Pipeline} {i : Input}

-- What the firmware makes of a submission.
structure Brings (sub : Submission) (job : List Firmware.Segment) : Prop where
  decoded : job = decodeSegments (segmentCount sub.bytes) sub.bytes
  carries : ∀ program ∈ sub.program, List.Forall₂ Carries program job

-- A submission fits into the region, and is made of its program if it has one.
structure Sound (sub : Submission) : Prop where
  fits : sub.bytes.length ≤ jobMaxSize
  made : ∀ program ∈ sub.program,
    sub.bytes = MotionLoader.programBytes { programSegments := program }

-- A poll does not read the region before the job that is written to it is notified, unless there is
-- nothing to be read. The writers take turns.
def Exclusive (i : Input) (p : Pipeline) : Prop :=
  match i with
  | .tick _           => ∀ w, (p.writes w).Open → p.region.sequence = p.firmware.lastJobSeq
  | .machineState msg => (p.manager.stateCallback msg).1 = true → (p.writes .supervisor).stores = []
  | .jobSubmit _      => (p.writes .manager).stores = []
  | _                 => True

-- The programs that have been submitted or are about to be, newest first.
def programs (p : Pipeline) : List (List MotionSegment) :=
  (if (p.writes .manager).Open then (p.writes .manager).job.program.toList else []) ++
    p.submissions.filterMap Submission.program

-- The region has been cleared, and nothing has been written to it.
structure Initial (p : Pipeline) : Prop where
  booted      : Booted p.firmware
  sequence    : p.region.sequence = 0
  manager     : p.manager = {}
  writes      : p.writes = fun _ => {}
  loads       : p.loads = []
  submissions : p.submissions = []

def Taken (p : Pipeline) : Prop :=
  ∃ newer older taken, p.submissions = newer ++ older ∧
    p.firmware.lastJobSeq = .ofNat older.length ∧ taken.Sublist older ∧
    List.Forall₂ Brings taken (acceptedJobs p.firmware.history)

structure Inv (p : Pipeline) : Prop where
  wellFormed : p.firmware.WellFormed
  sequence   : p.region.sequence = .ofNat p.submissions.length
  alone      : ∀ w w', (p.writes w).stores ≠ [] → (p.writes w').stores ≠ [] → w = w'
  fits       : ∀ w, (p.writes w).Fits p.region
  sound      : ∀ w, Sound (p.writes w).job
  plain      : (p.writes .supervisor).job.program = none
  sounds     : ∀ sub ∈ p.submissions, Sound sub
  current    : (∀ w, ¬(p.writes w).Open) → ∀ sub ∈ p.submissions.head?, p.region.Holds sub.bytes
  taken      : p.Taken
  printed    : p.programs.Sublist p.loads
  unsent     : p.manager.jobSubmitted = false → p.manager.programSegments ≠ [] →
    ∃ older, p.loads = p.manager.programSegments :: older ∧ p.programs.Sublist older

theorem Sound.brings {sub : Submission} (h : Sound sub) :
    Brings sub (decodeSegments (segmentCount sub.bytes) sub.bytes) where
  decoded := rfl
  carries := by
    intro program hp
    have hm := h.made program hp
    have hl := MotionLoader.programBytes_length (s := { programSegments := program })
    have hf : segmentSize * program.length ≤ jobMaxSize := hl ▸ hm ▸ h.fits
    have hd := MotionLoader.decodeSegments_programBytes program []
    rw [List.append_nil] at hd
    rw [hm, MotionLoader.segmentCount_programBytes hf]
    exact hd

-- What the firmware takes is the newest submission, as long as it does not read a job that is being
-- written.
theorem Inv.tick (v : p.Inv) {i : TickInput} (hx : p.Exclusive (.tick i))
    (ht : Firmware.tick (p.polls i) p.firmware = .ok f) :
    Inv { p with firmware := f } := by
  refine { v with wellFormed := v.wellFormed.tick ht, taken := ?_ }
  have ⟨newer, older, taken, hs, hq, ht', hb⟩ := v.taken
  cases v.wellFormed.tick_took ht
  case inl h => exact ⟨newer, older, taken, hs, h.left.trans hq, ht', h.right ▸ hb⟩
  case inr h =>
    obtain ⟨job, hj, hne, h⟩ := h
    cases hj
    have hn : p.region.sequence ≠ p.firmware.lastJobSeq := hne
    have hw (w) : ¬(p.writes w).Open := fun ho => hn (hx w ho)
    cases newer
    case nil => exact absurd (v.sequence.trans (hs ▸ hq.symm)) hn
    case cons sub newer =>
      have hh : sub ∈ p.submissions.head? := by rw [hs]; rfl
      have hr := (v.current hw sub hh).read
      have hsub : sub ∈ p.submissions := by rw [hs]; exact List.mem_cons_self
      refine ⟨[], p.submissions, sub :: taken, rfl, h.left.trans v.sequence, ?_, ?_⟩
      · rw [hs]
        exact (ht'.trans (List.sublist_append_right newer older)).cons_cons sub
      · rw [h.right, hr]
        exact .cons (v.sounds sub hsub).brings hb

theorem ofNat_succ (n : Nat) : UInt32.ofNat n + 1 = UInt32.ofNat (n + 1) := by
  rw [UInt32.ofNat_add]
  rfl

theorem store_nil {w : Writer} (hs : (p.writes w).stores = []) : p.store w = p := by
  rw [store, hs]

theorem setWrite_self {w : Writer} {write : Write} : (p.setWrite w write).writes w = write :=
  Function.update_self _ _ _

theorem setWrite_of_ne {w w' : Writer} {write : Write} (h : w' ≠ w) :
    (p.setWrite w write).writes w' = p.writes w' :=
  Function.update_of_ne h _ _

structure Stored (p : Pipeline) (w : Writer) (a : Assignment) (rest : List Assignment)
    (p' : Pipeline) : Prop where
  firmware    : p'.firmware = p.firmware
  region      : p'.region = p.region.assign a
  manager     : p'.manager = p.manager
  loads       : p'.loads = p.loads
  self        : p'.writes w = { p.writes w with stores := rest }
  other       : ∀ w', w' ≠ w → p'.writes w' = p.writes w'
  submissions : p'.submissions =
    if a = .sequence then (p.writes w).job :: p.submissions else p.submissions

theorem store_cons {w : Writer} (hs : (p.writes w).stores = a :: rest) :
    Stored p w a rest (p.store w) := by
  rw [store, hs]
  exact ⟨rfl, rfl, rfl, rfl, setWrite_self, fun _ => setWrite_of_ne, rfl⟩

variable {w : Writer} {a : Assignment} {rest : List Assignment}

theorem Inv.other_stores (v : p.Inv) (hs : (p.writes w).stores = a :: rest) (hw : w' ≠ w) :
    (p.writes w').stores = [] := by
  by_contra hn
  exact hw (v.alone w' w hn (by rw [hs]; exact List.cons_ne_nil _ _))

theorem not_open_of_nil {write : Write} (h : write.stores = []) : ¬write.Open := by
  simp [Write.Open, h]

theorem not_open_of_rest {write : Write} (h : ∀ a ∈ write.stores, a = .ingressComplete) :
    ¬write.Open :=
  fun ho => absurd (h .sequence ho) nofun

theorem Stored.programs (h : Stored p w a rest p') (v : p.Inv)
    (hs : (p.writes w).stores = a :: rest) : p'.programs = p.programs := by
  simp only [Pipeline.programs, h.submissions]
  cases w
  case supervisor =>
    rw [h.other .manager nofun]
    by_cases ha : a = .sequence
    case pos => rw [if_pos ha, List.filterMap_cons_none v.plain]
    case neg => rw [if_neg ha]
  case manager =>
    rw [h.self]
    by_cases ha : a = .sequence
    case neg =>
      have ho : (p.writes .manager).Open ↔
          Write.Open { p.writes .manager with stores := rest } := by
        simp only [Write.Open, hs, List.mem_cons]
        exact or_iff_right (Ne.symm ha)
      simp only [ho, ha, ↓reduceIte]
    case pos =>
      have ho : (p.writes .manager).Open := by
        rw [Write.Open, hs, ha]
        exact List.mem_cons_self
      have hn : ¬Write.Open { p.writes .manager with stores := rest } :=
        not_open_of_rest ((v.fits .manager).notify (ha ▸ hs)).right
      simp only [ho, hn, ha, ↓reduceIte, List.nil_append, List.filterMap_cons]
      cases (p.writes .manager).job.program <;> rfl

theorem Stored.job (h : Stored p w a rest p') (w' : Writer) :
    (p'.writes w').job = (p.writes w').job := by
  by_cases hw : w' = w
  case pos => rw [hw, h.self]
  case neg => rw [h.other w' hw]

theorem Stored.busy (h : Stored p w a rest p') (hs : (p.writes w).stores = a :: rest) {w' : Writer}
    (hn : (p'.writes w').stores ≠ []) : (p.writes w').stores ≠ [] := by
  by_cases hw : w' = w
  case pos => rw [hw, hs]; exact List.cons_ne_nil _ _
  case neg => rwa [h.other w' hw] at hn

theorem Stored.fits (h : Stored p w a rest p') (v : p.Inv) (hs : (p.writes w).stores = a :: rest)
    (w' : Writer) : (p'.writes w').Fits p'.region := by
  by_cases hw : w' = w
  case neg =>
    rw [h.other w' hw]
    refine .closed fun b hb => ?_
    rw [v.other_stores hs hw] at hb
    cases hb
  case pos =>
    subst hw
    rw [h.self, h.region]
    by_cases ha : a = .sequence
    case pos => exact .closed ((v.fits w').notify (ha ▸ hs)).right
    case neg => exact (v.fits w').assign hs ha

theorem Stored.sequence (h : Stored p w a rest p') (v : p.Inv) :
    p'.region.sequence = .ofNat p'.submissions.length := by
  rw [h.region, h.submissions]
  by_cases ha : a = .sequence
  case pos =>
    rw [if_pos ha, ha, List.length_cons, ← ofNat_succ, ← v.sequence]
    rfl
  case neg => rw [if_neg ha, JobIngressRegion.assign_sequence ha, v.sequence]

theorem Stored.sounds (h : Stored p w a rest p') (v : p.Inv) :
    ∀ sub ∈ p'.submissions, Sound sub := by
  rw [h.submissions]
  by_cases ha : a = .sequence
  case pos => rw [if_pos ha]; exact List.forall_mem_cons.mpr ⟨v.sound w, v.sounds⟩
  case neg => rw [if_neg ha]; exact v.sounds

theorem Stored.current (h : Stored p w a rest p') (v : p.Inv) (hs : (p.writes w).stores = a :: rest)
    (hn : ∀ w', ¬(p'.writes w').Open) :
    ∀ sub ∈ p'.submissions.head?, p'.region.Holds sub.bytes := by
  rw [h.submissions, h.region]
  intro sub hsub
  by_cases ha : a = .sequence
  case pos =>
    rw [if_pos ha] at hsub
    cases hsub
    exact ha ▸ ((v.fits w).notify (ha ▸ hs)).left
  case neg =>
    rw [if_neg ha] at hsub
    have hw : ¬(p.writes w).Open := by
      have hw := hn w
      rw [h.self] at hw
      simp only [Write.Open, hs, List.mem_cons, not_or]
      exact ⟨Ne.symm ha, hw⟩
    have ho (w') : ¬(p.writes w').Open := by
      by_cases hw' : w' = w
      case pos => exact hw' ▸ hw
      case neg => exact not_open_of_nil (v.other_stores hs hw')
    have hc : a = .ingressComplete :=
      (v.fits w).not_open hw a (by rw [hs]; exact List.mem_cons_self)
    exact hc ▸ (v.current ho sub hsub).complete

theorem Stored.taken (h : Stored p w a rest p') (v : p.Inv) : p'.Taken := by
  have ⟨newer, older, taken, hm, hq, ht, hb⟩ := v.taken
  rw [← h.firmware] at hq hb
  by_cases ha : a = .sequence
  case pos =>
    refine ⟨(p.writes w).job :: newer, older, taken, ?_, hq, ht, hb⟩
    rw [h.submissions, if_pos ha, hm, List.cons_append]
  case neg =>
    refine ⟨newer, older, taken, ?_, hq, ht, hb⟩
    rw [h.submissions, if_neg ha, hm]

theorem Inv.store (v : p.Inv) : Inv (p.store w) := by
  cases hs : (p.writes w).stores
  case nil => rwa [store_nil hs]
  case cons a rest =>
    have h := store_cons hs
    have hp := h.programs v hs
    exact {
      wellFormed := h.firmware ▸ v.wellFormed
      sequence   := h.sequence v
      alone      := fun _ _ h₁ h₂ => v.alone _ _ (h.busy hs h₁) (h.busy hs h₂)
      fits       := h.fits v hs
      sound      := fun w' => h.job w' ▸ v.sound w'
      plain      := h.job .supervisor ▸ v.plain
      sounds     := h.sounds v
      current    := h.current v hs
      taken      := h.taken v
      printed    := by rw [hp, h.loads]; exact v.printed
      unsent     := by rw [hp, h.loads, h.manager]; exact v.unsent }

theorem Inv.begins (v : p.Inv) {w : Writer} {write : Write}
    (hi : ∀ w', (p.writes w').stores = []) (ho : write.Open) (hf : write.Fits p.region)
    (hs : Sound write.job) (hp : w = .supervisor → write.job.program = none)
    (hl : (p.setWrite w write).programs.Sublist p.loads)
    (hu : p.manager.jobSubmitted = false → p.manager.programSegments ≠ [] →
      ∃ older, p.loads = p.manager.programSegments :: older ∧
        (p.setWrite w write).programs.Sublist older) : Inv (p.setWrite w write) where
  wellFormed := v.wellFormed
  sequence   := v.sequence
  alone      := by
    have h (w') (hn : ((p.setWrite w write).writes w').stores ≠ []) : w' = w := by
      by_contra hw
      rw [setWrite_of_ne hw] at hn
      exact hn (hi w')
    exact fun w₁ w₂ h₁ h₂ => (h w₁ h₁).trans (h w₂ h₂).symm
  fits       := by
    intro w'
    by_cases hw : w' = w
    case pos => rw [hw, setWrite_self]; exact hf
    case neg => rw [setWrite_of_ne hw]; exact v.fits w'
  sound      := by
    intro w'
    by_cases hw : w' = w
    case pos => rw [hw, setWrite_self]; exact hs
    case neg => rw [setWrite_of_ne hw]; exact v.sound w'
  plain      := by
    cases w
    case manager    => rw [setWrite_of_ne (by simp)]; exact v.plain
    case supervisor => rw [setWrite_self]; exact hp rfl
  sounds     := v.sounds
  current    := fun hn => absurd (setWrite_self (p := p) (w := w) ▸ ho) (hn w)
  taken      := v.taken
  printed    := hl
  unsent     := hu

theorem programs_of_idle (hi : (p.writes .manager).stores = []) :
    p.programs = p.submissions.filterMap (·.program) := by
  rw [programs, if_neg (not_open_of_nil hi), List.nil_append]

theorem Inv.jobSubmit (v : p.Inv) (hs : (p.writes .supervisor).stores = [])
    (hm : (p.writes .manager).stores = []) : Inv (p.jobSubmit blob) := by
  rw [Pipeline.jobSubmit]
  split
  case isTrue => exact v
  case isFalse h =>
    have hf : blob.length ≤ jobMaxSize := by
      simp only [Bool.or_eq_true, decide_eq_true_eq, not_or, Nat.not_lt] at h
      exact h.right
    have hp : (p.setWrite .supervisor
        { job := { bytes := blob }, stores := writeJob blob }).programs = p.programs := by
      rw [Pipeline.programs, setWrite_of_ne (by simp)]
      rfl
    refine v.begins (fun w => by cases w <;> assumption) (by simp [Write.Open, writeJob])
      (.supervisor hf) ⟨hf, by simp⟩ (fun _ => rfl) ?_ ?_
    · rw [hp]; exact v.printed
    · rw [hp]; exact v.unsent

theorem Inv.gcode (v : p.Inv) (ht : p.gcode file = .ok p') : p'.Inv := by
  rw [Pipeline.gcode] at ht
  split at ht <;> cases ht
  exact { v with
    printed := v.printed.cons _
    unsent  := fun _ _ => ⟨p.loads, rfl, v.printed⟩ }

-- The callback takes the program for submitted when it submits it, and forgets it when the firmware
-- has printed something.
theorem stateCallback_cases (msg : MachineStateIpc) (s : ProgramManager) :
    ((s.stateCallback msg).1 = true ∧ s.jobSubmitted = false ∧ s.programSegments ≠ [] ∧
      (s.stateCallback msg).2.jobSubmitted = true) ∨
    ((s.stateCallback msg).1 = false ∧
      ((s.stateCallback msg).2.programSegments = [] ∨
        (s.stateCallback msg).2.programSegments = s.programSegments ∧
        (s.stateCallback msg).2.jobSubmitted = s.jobSubmitted)) := by
  grind [ProgramManager.stateCallback]

theorem Inv.machineState (v : p.Inv) (hx : p.Exclusive (.machineState msg))
    (hm : (p.writes .manager).stores = []) (ht : p.machineState msg = .ok p') : p'.Inv := by
  have hv : Inv { p with manager := (p.manager.stateCallback msg).2 } := by
    refine { v with unsent := fun hj hp => ?_ }
    cases stateCallback_cases msg p.manager
    case inl h => exact absurd (hj.symm.trans h.right.right.right) nofun
    case inr h =>
      cases h.right
      case inl h => exact absurd h hp
      case inr h =>
        rw [h.left] at hp ⊢
        exact v.unsent (h.right ▸ hj) hp
  simp only [Pipeline.machineState] at ht
  cases hc : (p.manager.stateCallback msg).1 <;>
    simp only [hc, Bool.not_true, Bool.not_false, Bool.false_eq_true, ↓reduceIte] at ht
  case false => cases ht; exact hv
  case true =>
    have hs : (p.writes .supervisor).stores = [] := hx hc
    have h : p.manager.jobSubmitted = false ∧ p.manager.programSegments ≠ [] ∧
        (p.manager.stateCallback msg).2.jobSubmitted = true := by
      cases stateCallback_cases msg p.manager
      case inl h => exact h.right
      case inr h => exact absurd (hc.symm.trans h.left) nofun
    have ⟨older, hl, hp⟩ := v.unsent h.left h.right.left
    split at ht
    case isTrue => cases ht; exact hv
    split at ht <;> cases ht
    case isFalse hf =>
      have hf := Nat.not_lt.mp hf
      have ho {job : Submission} : Write.Open { job := job, stores := p.manager.stores } := by
        simp [Write.Open, MotionLoader.stores]
      have hi (w : Writer) : (p.writes w).stores = [] := by cases w <;> assumption
      refine hv.begins hi ho (.manager hf) ⟨hf, ?_⟩ (by rintro ⟨⟩) ?_ ?_
      · rintro program ⟨⟩
        rfl
      · rw [Pipeline.programs, setWrite_self, if_pos ho, hl]
        rw [programs_of_idle hm] at hp
        exact hp.cons_cons _
      · exact fun hj => absurd (h.right.right.symm.trans hj) nofun

theorem Inv.next (v : p.Inv) (hx : p.Exclusive i) (ht : Pipeline.next i p = .ok p') : p'.Inv := by
  cases i <;> simp only [Pipeline.next] at ht
  case tick i =>
    split at ht <;> cases ht
    case h_1 f hf => exact v.tick hx hf
  case store w => cases ht; exact v.store
  case gcode file =>
    split at ht
    case isTrue  => exact v.gcode ht
    case isFalse => cases ht; exact v
  case machineState msg =>
    split at ht
    case isTrue h => exact v.machineState hx h ht
    case isFalse  => cases ht; exact v
  case jobSubmit blob =>
    split at ht <;> cases ht
    case isTrue h => exact v.jobSubmit h hx
    case isFalse  => exact v

theorem Initial.inv (h : p.Initial) : p.Inv where
  wellFormed := h.booted.wellFormed
  sequence   := by rw [h.sequence, h.submissions]; rfl
  alone      := by simp [h.writes]
  fits       := fun _ => .closed (by simp [h.writes])
  sound      := by simp only [h.writes]; exact fun _ => ⟨Nat.zero_le _, nofun⟩
  plain      := by rw [h.writes]
  sounds     := by simp [h.submissions]
  current    := by simp [h.submissions]
  taken      := by
    have hb := h.booted.took
    exact ⟨[], [], [], h.submissions, hb.left, .slnil, hb.right ▸ .nil⟩
  printed    := by
    rw [programs_of_idle (by simp [h.writes]), h.submissions]
    exact List.nil_sublist _
  unsent     := by simp [h.manager]

-- The jobs that the firmware accepts are the ones that have been submitted, each at most once, in
-- order, and as they have been written. The programs among them have been loaded from G-code, and
-- each load is submitted at most once.
theorem accepted_jobs_submitted (h : p₀.Initial) (e : Run next p₀ is p)
    (hx : Along next Exclusive p₀ is) : ∃ taken : List Submission,
      taken.Sublist p.submissions ∧
      List.Forall₂ Brings taken (acceptedJobs p.firmware.history) ∧
      (p.submissions.filterMap (·.program)).Sublist p.loads := by
  have v : p.Inv := e.invariant_along (fun v hx hs => v.next hx hs) h.inv hx
  have ⟨newer, older, taken, hs, _, ht, hb⟩ := v.taken
  refine ⟨taken, ?_, hb, ?_⟩
  · rw [hs]
    exact ht.trans (List.sublist_append_right newer older)
  · exact (List.sublist_append_right _ _).trans v.printed

instance Writer.decidableForall {P : Writer → Prop} [DecidablePred P] : Decidable (∀ w, P w) :=
  decidable_of_iff (P .manager ∧ P .supervisor)
    ⟨fun h w => by cases w; exacts [h.left, h.right], fun h => ⟨h _, h _⟩⟩

instance Exclusive.decidable : Decidable (Exclusive i p) :=
  match i with
  | .tick _         => inferInstanceAs (Decidable (∀ w, (p.writes w).Open → _))
  | .machineState _ => inferInstanceAs (Decidable (_ → _))
  | .jobSubmit _    => inferInstanceAs (Decidable (_ = _))
  | .store _        => .isTrue trivial
  | .gcode _        => .isTrue trivial

-- A file of one line is loaded, written to the region store by store, and taken.
theorem accepted_jobs_submitted_line :
    ∃ p₀ p : Pipeline, p₀.Initial ∧ (acceptedJobs p.firmware.history).length = 1 ∧
    ∃ taken : List Submission,
      taken.Sublist p.submissions ∧
      List.Forall₂ Brings taken (acceptedJobs p.firmware.history) ∧
      (p.submissions.filterMap (·.program)).Sublist p.loads := by
  have ⟨f, hb, hx, h⟩ : ∃ f, boot {} none = .ok f ∧
      let is := [.tick {}, .gcode ["G1 X1".toList], .machineState { systemState := .ready }] ++
        List.replicate 51 (.store .manager) ++ [.tick {}]
      Along next Exclusive { firmware := f, region := cleared } is ∧
      Reaches next (fun p => (acceptedJobs p.firmware.history).length = 1)
        { firmware := f, region := cleared } is :=
    ⟨_, rfl, by decide +kernel, by decide +kernel⟩
  have hi : Initial { firmware := f, region := cleared } := ⟨⟨_, _, hb⟩, rfl, rfl, rfl, rfl, rfl⟩
  have ⟨p, e, hn⟩ := h.run
  exact ⟨_, p, hi, hn, accepted_jobs_submitted hi e hx⟩

end Pipeline
end Program
