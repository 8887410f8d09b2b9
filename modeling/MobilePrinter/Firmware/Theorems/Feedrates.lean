import MobilePrinter.Firmware.Theorems.Boundary
import MobilePrinter.Firmware.Theorems.Decoding

open Transition

namespace Firmware

-- `x > 0.0`: the sign is not set, and what is left is neither zero nor a NaN.
def Double.Positive (x : Double) : Prop :=
  0 < x.bits ∧ x.bits ≤ 0x7FF0000000000000

instance : Decidable (Double.Positive x) :=
  inferInstanceAs (Decidable (_ ∧ _))

-- The feedrate of the record at `index`, as it lies in the blob.
def recordFeedrate (blob : List UInt8) (index : Nat) : Double :=
  decodeDouble blob (segmentSize * index + 40)

-- Every record of the blob has a feedrate above zero.
def PositiveFeedrates (blob : List UInt8) : Prop :=
  ∀ index < segmentCount blob, (recordFeedrate blob index).Positive

instance : Decidable (PositiveFeedrates blob) :=
  inferInstanceAs (Decidable (∀ index < _, _))

-- Neither a job that is accepted nor a command that is submitted lacks a feedrate.
def Event.Executable : Event → Prop
  | .jobAccepted _ segs        => ∀ seg ∈ segs, seg.feedrate.Positive
  | .motionSubmitted command _ => command.feedrate.Positive
  | _                          => True

def History.Executable (h : History) : Prop :=
  ∀ e ∈ h, e.Executable

theorem History.Executable.cons {e : Event} {h : History} (hh : h.Executable) (he : e.Executable) :
    History.Executable (e :: h) :=
  List.forall_mem_cons.mpr ⟨he, hh⟩

theorem decodeSegments_getElem? (h : k < n) :
    (decodeSegments n bytes)[k]? = some (decodeSegment (bytes.drop (segmentSize * k))) := by
  rw [decodeSegments_eq, Layout.readArray_getElem? h, decodeSegment_eq, Segment.layout_size]

theorem decodeSegment_feedrate {blob : List UInt8} :
    (decodeSegment (blob.drop (segmentSize * k))).feedrate = recordFeedrate blob k := by
  simp [decodeSegment, recordFeedrate, decodeDouble, List.drop_drop]

theorem decodeSegments_positive {blob : List UInt8} :
    (∀ seg ∈ decodeSegments (segmentCount blob) blob, seg.feedrate.Positive) ↔
      PositiveFeedrates blob := by
  constructor
  case mp =>
    intro h k hk
    have hd : (decodeSegments (segmentCount blob) blob)[k]? =
        some (decodeSegment (blob.drop (segmentSize * k))) := decodeSegments_getElem? hk
    exact decodeSegment_feedrate ▸ h _ (List.mem_of_getElem? hd)
  case mpr =>
    intro h seg hs
    have ⟨k, hk, hd⟩ := List.getElem_of_mem hs
    rw [decodeSegments_length] at hk
    have hd := (List.getElem?_eq_some_iff.mpr ⟨_, hd⟩).symm.trans (decodeSegments_getElem? hk)
    cases hd
    exact decodeSegment_feedrate ▸ h k hk

theorem lastAccepted_mem {h : History} {id : UInt64} (ha : lastAccepted h = some (id, segs)) :
    .jobAccepted id segs ∈ h := by
  fun_induction lastAccepted h
  case case1        => cases ha
  case case2        => cases ha; exact List.mem_cons_self
  case case3 ih     => exact List.mem_cons_of_mem _ (ih ha)

namespace State

-- Every segment of `g_active_job` has a feedrate above zero.
def Executable (s : State) : Prop :=
  ∀ index < s.activeJob.totalSegments,
    ∃ seg, s.activeJob.segment? s.heap index = some seg ∧ seg.feedrate.Positive

-- The job that is bound in the tick, if there is one, has feedrates above zero only.
def BindsPositive (i : TickInput) (s : State) : Prop :=
  ∀ job ∈ i.job, (s.pollCommand i.io i.command).Ingests job →
    PositiveFeedrates (job.jobBlob.take job.size.toNat)

instance : Decidable (BindsPositive i s) :=
  inferInstanceAs (Decidable (∀ job ∈ i.job, _ → _))

variable {s s' : State} {i : TickInput} {io : FileOutcomes} {blob : List UInt8}

theorem executable_acceptJob : (s.acceptJob blob q).Executable ↔ PositiveFeedrates blob := by
  refine forall₂_congr fun k hk => ?_
  have hs : (s.acceptJob blob q).activeJob.segment? (s.acceptJob blob q).heap k =
      some (decodeSegment (blob.drop (segmentSize * k))) := by
    rw [← decodeSegments_getElem? (n := segmentCount blob) hk]
    simp [Job.segment?, acceptJob, Job.ofBlob, record]
  simp [hs, decodeSegment_feedrate]

theorem history_acceptJob (h : s.history.Executable) :
    (s.acceptJob blob q).history.Executable ↔ PositiveFeedrates blob where
  mp ha  := decodeSegments_positive.mp (ha _ List.mem_cons_self)
  mpr hb := h.cons (decodeSegments_positive.mpr hb)

theorem pollCommand_executable (h : s.history.Executable) :
    (s.pollCommand io shm).history.Executable := by
  refine (pollCommand_polled shm).preserves (P := (·.history.Executable)) (fun h => h)
    (fun h => h.cons trivial) (fun h a => ?_) h
  cases a <;> exact h

theorem WellFormed.fed_positive {f : Feed RosMotion} (w : s.WellFormed) (h : s.history.Executable)
    (hr : s.exec.phase = .running) (hf : Feed.Fed s.activeJob s.heap s.feed f seg res) :
    seg.feedrate.Positive := by
  have ⟨segs, b⟩ := w.bound (w.running hr)
  have hs := (b.segment? _).symm.trans hf.segment
  exact h _ (lastAccepted_mem b.accepted) _ (List.mem_of_getElem? hs)

theorem relayed_executable : Relayed (·.history.Executable) i where
  armed _ h _    := h
  fault _ h _    := h.cons trivial
  run _ h _      := h
  executed w h e :=
    e.keeps_history h fun hs _ _ hm => h.cons (w.fed_positive h hs.right.right.left hm)

theorem Orchestrated.executable (o : Orchestrated s io s') (h : s.history.Executable) :
    s'.history.Executable := by
  cases o
  case draining a _ =>
    cases a
    case begun => exact h.cons trivial
    case stale => exact h
  case aborted a _ =>
    cases a
    case begun => exact (h.cons (e := .abortStarted) trivial).cons trivial
    case stale => exact h.cons trivial
  case paused a _ _ =>
    cases a
    case captured => exact h.cons trivial
    case kept     => exact h
  case released a =>
    cases a
    case captured => exact h.cons trivial
    case kept     => exact h
  case lost | restored | completed => exact h.cons trivial
  all_goals exact h

theorem tick_executable_iff (w : s.WellFormed) (h : s.history.Executable)
    (ht : tick i s = .ok s') : s'.history.Executable ↔ s.BindsPositive i := by
  have hp : (s.pollCommand i.io i.command).history.Executable := pollCommand_executable h
  constructor
  case mp =>
    intro h' job hj hi
    let s₀ := (s.pollCommand i.io i.command).pollJobIngress i.job
    have hk : Kept (s₀.history <:+ ·.history) i := kept_history
    have hh := hk.toCarried.relayed.tick w (List.suffix_refl _) ht fun _ o hs => hs.trans o.history
    simp only [s₀, Option.mem_def.mp hj, hi.pollJobIngress] at hh
    exact (history_acceptJob hp).mp fun e he => h' e (hh.subset he)
  case mpr =>
    intro hb
    refine relayed_executable.tick w ?_ ht fun _ o => o.executable
    cases pollJobIngress_cases (s.pollCommand i.io i.command) i.job
    case inl hi =>
      rw [hi.right.right]
      exact hp
    case inr hi =>
      have ⟨job, hj, hi, ha⟩ := hi
      rw [ha]
      exact (history_acceptJob hp).mpr (hb job hj hi)

theorem executable_submitJob (h : (s.submitJob blob).1.accepted = true) :
    (s.submitJob blob).2.Executable ↔ PositiveFeedrates blob := by
  cases submitJob_outcome s blob
  case inl hr =>
    have ⟨_, _, hr⟩ := hr
    rw [hr] at h
    cases h
  case inr ha =>
    rw [ha.right]
    exact executable_acceptJob

end State

open State

-- The segments of an accepted job can be executed exactly if all of its records have a feedrate
-- above zero, and a run passes on commands of that kind only exactly if this holds of each job that
-- it binds.
theorem executable_iff_positive_feedrates (s : State) (blob : List UInt8) (s₀ : State)
    (is : List TickInput) :
    ((s.submitJob blob).1.accepted = true →
      ((s.submitJob blob).2.Executable ↔ PositiveFeedrates blob)) ∧
    (Booted s₀ →
      (Always tick (·.history.Executable) s₀ is ↔ Along tick BindsPositive s₀ is)) := by
  refine ⟨executable_submitJob, fun b => ?_⟩
  refine always_iff_along (I := fun s => s.WellFormed ∧ s.history.Executable) (·.right)
    ?step ?back ?boot
  case step =>
    exact fun h hp ht => ⟨h.left.tick ht, (tick_executable_iff h.left h.right ht).mpr hp⟩
  case back => exact fun h hq ht => (tick_executable_iff h.left h.right ht).mp hq
  case boot =>
    refine ⟨b.wellFormed, ?_⟩
    have ⟨_, b⟩ := b.boots
    cases b <;> exact nofun

-- One segment with a feedrate of 1.0.
def unitBlob : List UInt8 :=
  List.replicate 46 0 ++ [0xF0, 0x3F]

theorem executable_iff_positive_feedrates_unit :
    (∃ s : State, (s.submitJob unitBlob).1.accepted = true ∧
      (s.submitJob unitBlob).2.Executable) ∧
    ∃ s₀, Booted s₀ ∧ Always tick (·.history.Executable) s₀
      [{}, { job := some (.ofBlob 1 unitBlob (by decide)) }, .issue 1 1, {}, {}] := by
  have ⟨s₀, hb, h⟩ : ∃ s₀, boot {} none = .ok s₀ ∧ Along tick BindsPositive s₀
      [{}, { job := some (.ofBlob 1 unitBlob (by decide)) }, .issue 1 1, {}, {}] :=
    ⟨_, rfl, by decide +kernel⟩
  have ⟨s, ha⟩ : ∃ s : State, (s.submitJob unitBlob).1.accepted = true :=
    ⟨{ machine := { system := .ready, operatorActions := { canSubmitJob := true } } }, rfl⟩
  have hx := executable_iff_positive_feedrates s unitBlob s₀
    [{}, { job := some (.ofBlob 1 unitBlob (by decide)) }, .issue 1 1, {}, {}]
  exact ⟨⟨s, ha, (hx.left ha).mpr (by decide)⟩, s₀, ⟨_, _, hb⟩, (hx.right ⟨_, _, hb⟩).mpr h⟩

-- A segment whose bytes are all zero is submitted.
theorem executable_fails : ¬∀ s, Reachable s → ∀ command result,
    .motionSubmitted command result ∈ s.history → command.feedrate.Positive := by
  intro hc
  have ⟨s₀, hb, h⟩ : ∃ s₀, boot {} none = .ok s₀ ∧
      Transition.Reaches tick (fun s => .motionSubmitted
        { intent := .travel, x := ⟨0⟩, y := ⟨0⟩, z := ⟨0⟩, feedrate := ⟨0⟩, extrusion := ⟨0⟩ }
        .accepted ∈ s.history) s₀ [{}, .submit 1 1, .issue 1 1, {}] :=
    ⟨_, rfl, by decide +kernel⟩
  have ⟨s, e, hm⟩ := h.run
  exact absurd (hc s ⟨⟨_, _, hb⟩, e⟩ _ _ hm) (by decide)

end Firmware
