import MobilePrinter.Firmware.Theorems.Feedrates
import MobilePrinter.Firmware.Theorems.Lifecycle
import MobilePrinter.Firmware.Theorems.Printout
import MobilePrinter.Program.Theorems.Pipeline
import MobilePrinter.Program.Theorems.Planning

open Transition

namespace Program

open Firmware

-- The command carries out a line of G-code that moves the tool. Its target is the position behind
-- the line, but its feedrate and its extrusion follow only from words on lines that move the tool.
structure Performs (m : Move) (c : MotionCommand) : Prop where
  target    : (Position.mk c.x c.y c.z).Near (position readWords (m.before ++ [m.line]))
  feedrate  : c.feedrate = Program.feedrate readWords (movingLines m.before ++ [m.line])
  extrusion : c.extrusion =
    extrusionOf (readWords m.line) (absoluteE readWords (movingLines m.before))

theorem Carries.fwSegment {seg : MotionSegment} {r : Firmware.Segment} (h : Carries seg r) :
    r.x = (MotionLoader.fwSegment seg).x ∧ r.y = (MotionLoader.fwSegment seg).y ∧
      r.z = (MotionLoader.fwSegment seg).z ∧
      r.extrusion = (MotionLoader.fwSegment seg).extrusion := by
  have hl := seg.fourAxes
  have h₀ := List.getElem?_eq_some_iff.mp h.x
  have h₁ := List.getElem?_eq_some_iff.mp h.y
  have h₂ := List.getElem?_eq_some_iff.mp h.z
  have h₃ := List.getElem?_eq_some_iff.mp h.extrusion
  exact ⟨h₀.choose_spec.symm, h₁.choose_spec.symm, h₂.choose_spec.symm, h₃.choose_spec.symm⟩

theorem Executes.performs {m : Move} {seg : MotionSegment} {r : Firmware.Segment}
    (h : Executes m seg) (hc : Carries seg r) : Performs m r.command := by
  have ⟨hx, hy, hz, he⟩ := hc.fwSegment
  refine ⟨?_, hc.feedrate.trans h.feedrate, he.trans h.extrusion⟩
  have ht : Position.mk r.x r.y r.z = seg.target := by
    rw [hx, hy, hz]
    rfl
  exact ht ▸ h.target

theorem performs_of_executes {ms : List Move} {program : List MotionSegment}
    {job : List Firmware.Segment} (h : List.Forall₂ Executes ms program)
    (hc : List.Forall₂ Carries program job) :
    List.Forall₂ Performs ms (job.map Segment.command) := by
  induction h generalizing job
  case nil =>
    cases hc
    exact .nil
  case cons he _ ih =>
    cases hc
    case cons hc hcs => exact .cons (he.performs hc) (ih hcs)

namespace Pipeline

variable {p p₀ p' : Pipeline} {i : Input} {is : List Input} {c : MotionCommand} {res : MotionResult}
  {older : History}

-- Where the programs and the jobs come from.
structure Sent (is : List Input) (p : Pipeline) : Prop where
  loads       : ∀ program ∈ p.loads, ∃ file, .gcode file ∈ is ∧
    List.Forall₂ Executes (moves [] file) program
  writing     : ∀ w, (p.writes w).Open → (p.writes w).job.program = none →
    .jobSubmit (p.writes w).job.bytes ∈ is
  submissions : ∀ sub ∈ p.submissions, sub.program = none → .jobSubmit sub.bytes ∈ is

namespace Sent

theorem concat (h : Sent is p) : Sent (is ++ [i]) p where
  loads program hp       :=
    have ⟨file, hf, he⟩ := h.loads program hp
    ⟨file, List.mem_append_left _ hf, he⟩
  writing w ho hn        := List.mem_append_left _ (h.writing w ho hn)
  submissions sub hs hn  := List.mem_append_left _ (h.submissions sub hs hn)

theorem store (h : Sent is p) (w : Writer) : Sent is (p.store w) := by
  cases hs : (p.writes w).stores
  case nil => rwa [store_nil hs]
  case cons a rest =>
    have hd := store_cons hs
    generalize p.store w = p' at hd
    have hw {w'} (ho : (p'.writes w').Open) : (p.writes w').Open := by
      by_cases hw : w' = w
      case neg => rwa [hd.other w' hw] at ho
      case pos =>
        subst hw
        rw [hd.self] at ho
        rw [Write.Open, hs]
        exact List.mem_cons_of_mem _ ho
    refine ⟨hd.loads ▸ h.loads, fun w' ho hn => ?_, ?_⟩
    · rw [hd.job] at hn ⊢
      exact h.writing w' (hw ho) hn
    · rw [hd.submissions]
      split
      case isFalse => exact h.submissions
      case isTrue ha =>
        have ho : (p.writes w).Open := by
          rw [Write.Open, hs, ha]
          exact List.mem_cons_self
        exact List.forall_mem_cons.mpr ⟨h.writing w ho, h.submissions⟩

theorem setWrite (h : Sent is p) {w : Writer} {write : Write}
    (hw : write.job.program = none → .jobSubmit write.job.bytes ∈ is) :
    Sent is (p.setWrite w write) where
  loads           := h.loads
  writing w' ho hn := by
    by_cases he : w' = w
    case pos =>
      rw [he, setWrite_self] at hn ⊢
      exact hw hn
    case neg =>
      rw [setWrite_of_ne he] at ho hn ⊢
      exact h.writing w' ho hn
  submissions     := h.submissions

theorem gcode (h : Sent is p) (ht : p.gcode file = .ok p') : Sent (is ++ [.gcode file]) p' := by
  rw [Pipeline.gcode] at ht
  split at ht <;> cases ht
  case h_2 hl =>
    have hf : Input.gcode file ∈ is ++ [.gcode file] := by simp
    exact { h.concat with
      loads := List.forall_mem_cons.mpr ⟨⟨file, hf, loadGcode_executes hl⟩, h.concat.loads⟩ }

theorem machineState (h : Sent is p) (ht : p.machineState msg = .ok p') : Sent is p' := by
  have h' : Sent is { p with manager := (p.manager.stateCallback msg).2 } := { h with }
  simp only [Pipeline.machineState] at ht
  split at ht
  case isTrue => cases ht; exact h'
  split at ht
  case isTrue => cases ht; exact h'
  split at ht <;> cases ht
  apply h'.setWrite
  intro hn
  cases hn

theorem jobSubmit (h : Sent is p) : Sent (is ++ [.jobSubmit blob]) (p.jobSubmit blob) := by
  rw [Pipeline.jobSubmit]
  split
  case isTrue  => exact h.concat
  case isFalse => exact h.concat.setWrite fun _ => by simp

theorem next (h : Sent is p) (ht : Pipeline.next i p = .ok p') : Sent (is ++ [i]) p' := by
  cases i <;> simp only [Pipeline.next] at ht
  case tick =>
    split at ht <;> cases ht
    exact { h.concat with }
  case store w => cases ht; exact h.concat.store w
  case gcode =>
    split at ht
    case isTrue  => exact h.gcode ht
    case isFalse => cases ht; exact h.concat
  case machineState =>
    split at ht
    case isTrue  => exact h.concat.machineState ht
    case isFalse => cases ht; exact h.concat
  case jobSubmit =>
    split at ht <;> cases ht
    case isTrue  => exact h.jobSubmit
    case isFalse => exact h.concat

theorem initial (h : p.Initial) : Sent [] p where
  loads       := by simp [h.loads]
  writing     := by simp [h.writes, Write.Open]
  submissions := by simp [h.submissions]

end Sent

theorem next_firmware (ht : next i p = .ok p') :
    p'.firmware = p.firmware ∨ ∃ i, tick i p.firmware = .ok p'.firmware := by
  cases i <;> simp only [Pipeline.next] at ht
  case tick i =>
    split at ht <;> cases ht
    case h_1 hf => exact .inr ⟨_, hf⟩
  case store w =>
    cases ht
    cases hs : (p.writes w).stores
    case nil  => rw [store_nil hs]; exact .inl rfl
    case cons => exact .inl (store_cons hs).firmware
  case gcode =>
    split at ht
    case isTrue =>
      rw [Pipeline.gcode] at ht
      split at ht <;> cases ht
      exact .inl rfl
    case isFalse => cases ht; exact .inl rfl
  case machineState =>
    split at ht
    case isTrue =>
      simp only [Pipeline.machineState] at ht
      repeat' split at ht
      all_goals cases ht
      all_goals exact .inl rfl
    case isFalse => cases ht; exact .inl rfl
  case jobSubmit =>
    cases ht
    simp only [Pipeline.jobSubmit]
    repeat' split
    all_goals exact .inl rfl

theorem Initial.reachable (h : p₀.Initial) (e : Run next p₀ is p) : Reachable p.firmware := by
  refine e.invariant (I := fun p => Reachable p.firmware) ?_ (.intro h.booted .refl)
  intro i p p' hr ht
  cases next_firmware ht
  case inl hf => rwa [hf]
  case inr hf =>
    have ⟨_, hf⟩ := hf
    cases hr
    case intro b e => exact .intro b (e.concat hf)

-- Whatever moves the machine has been asked for: it performs a move of a G-code file, or it is a
-- record of a job that the supervisor has been given.
theorem moves_asked (h : p₀.Initial) (e : Run next p₀ is p) (hx : Along next Exclusive p₀ is)
    (hm : .motionSubmitted c res :: older <:+ p.firmware.history) :
    (∃ file m, .gcode file ∈ is ∧ m ∈ moves [] file ∧ Performs m c) ∨
    (∃ blob, .jobSubmit blob ∈ is ∧
      c ∈ (decodeSegments (segmentCount blob) blob).map Segment.command) := by
  have v : p.Inv := e.invariant_along (fun v hx hs => v.next hx hs) h.inv hx
  have hs : Sent is p := e.history (fun _ h ht => h.next ht) (.initial h)
  have ⟨_, segs, hl, hc⟩ := ((h.reachable e).driven hm).mem
  have hj : segs ∈ acceptedJobs p.firmware.history :=
    List.mem_filterMap.mpr ⟨_, hm.subset (List.mem_cons_of_mem _ (lastAccepted_mem hl)), rfl⟩
  have ⟨newer, older, taken, ho, _, ht, hb⟩ := v.taken
  have ⟨sub, hsub, hbr⟩ := hb.exists_of_mem_right hj
  have hsub : sub ∈ p.submissions := ho ▸ List.mem_append_right _ (ht.subset hsub)
  cases hp : sub.program
  case none =>
    rw [hbr.decoded] at hc
    exact .inr ⟨_, hs.submissions sub hsub hp, hc⟩
  case some program =>
    have hl : program ∈ p.loads :=
      v.printed.subset (List.mem_append_right _ (List.mem_filterMap.mpr ⟨sub, hsub, hp⟩))
    have ⟨file, hf, he⟩ := hs.loads program hl
    have ⟨m, hm, hpm⟩ := (performs_of_executes he (hbr.carries program hp)).exists_of_mem_right hc
    exact .inl ⟨file, m, hf, hm, hpm⟩

-- The machine moves to (1, 0, 0) because the first of two lines says so.
theorem moves_asked_line : ∃ (p₀ p : Pipeline) (is : List Input) (c : MotionCommand)
    (older : History), p₀.Initial ∧ Run next p₀ is p ∧
    p.firmware.history = .motionSubmitted c .accepted :: older ∧
    ((∃ file m, .gcode file ∈ is ∧ m ∈ moves [] file ∧ Performs m c) ∨
    (∃ blob, .jobSubmit blob ∈ is ∧
      c ∈ (decodeSegments (segmentCount blob) blob).map Segment.command)) := by
  let c : MotionCommand :=
    { intent := .travel, x := 1.0, y := ⟨0⟩, z := ⟨0⟩, feedrate := 0.05, extrusion := ⟨0⟩ }
  have ⟨f, hb, hx, h⟩ : ∃ f, boot {} none = .ok f ∧
      let is := [.tick {}, .gcode ["G1 X1".toList, "G1 X2".toList],
        .machineState { systemState := .ready }] ++ List.replicate 99 (.store .manager) ++
        [.tick {}, .tick (.issue 1 1)]
      Along next Exclusive { firmware := f, region := cleared } is ∧
      Reaches next (·.firmware.history.head? = some (.motionSubmitted c .accepted))
        { firmware := f, region := cleared } is :=
    ⟨_, rfl, by decide +kernel, by decide +kernel⟩
  have hi : Initial { firmware := f, region := cleared } := ⟨⟨_, _, hb⟩, rfl, rfl, rfl, rfl, rfl⟩
  have ⟨p, e, hn⟩ := h.run
  have ⟨older, hh⟩ := List.head?_eq_some_iff.mp hn
  have hm : .motionSubmitted c .accepted :: older <:+ p.firmware.history := by simp [hh]
  exact ⟨_, p, _, c, older, hi, e, hh, moves_asked hi e hx hm⟩

-- No job is being written, and the firmware waits for the next one.
structure Resting (p : Pipeline) : Prop where
  idle    : ∀ w, (p.writes w).stores = []
  magic   : p.region.magic = jobIpcMagic
  latched : p.region.sequence = p.firmware.lastJobSeq
  vacant  : p.firmware.Vacant

def Admits : Input → Pipeline → Prop
  | .tick i, p => p.firmware.Admits i
  | _, _       => False

instance : Decidable (Admits i p) :=
  match i with
  | .tick i         => inferInstanceAs (Decidable (p.firmware.Admits i))
  | .store _        => .isFalse nofun
  | .gcode _        => .isFalse nofun
  | .machineState _ => .isFalse nofun
  | .jobSubmit _    => .isFalse nofun

theorem run_stores {w : Writer} {l : List Assignment} (hs : (p.writes w).stores = l) :
    ∃ p', Run next p (List.replicate l.length (.store w)) p' ∧ p'.firmware = p.firmware ∧
      p'.region = l.foldl .assign p.region := by
  induction l generalizing p
  case nil => exact ⟨p, .refl, rfl, rfl⟩
  case cons a l ih =>
    have hd := store_cons hs
    have ⟨p', e, hf, hr⟩ := ih (p := p.store w) (by rw [hd.self])
    refine ⟨p', .cons rfl e, hf.trans hd.firmware, ?_⟩
    rw [hr, hd.region]
    rfl

theorem assign_magic (l : List Assignment) (ipc : JobIngressRegion) :
    (l.foldl .assign ipc).magic = ipc.magic := by
  induction l generalizing ipc
  case nil => rfl
  case cons a l ih =>
    rw [List.foldl_cons, ih]
    cases a <;> rfl

theorem assign_sequence {l : List Assignment} (h : .sequence ∉ l) (ipc : JobIngressRegion) :
    (l.foldl .assign ipc).sequence = ipc.sequence := by
  induction l generalizing ipc
  case nil => rfl
  case cons a l ih =>
    rw [List.mem_cons, not_or] at h
    rw [List.foldl_cons, ih h.right, JobIngressRegion.assign_sequence (Ne.symm h.left)]

theorem stores_hold {s : MotionLoader} {ipc : JobIngressRegion}
    (hf : s.programBytes.length ≤ jobMaxSize) :
    (s.stores.foldl .assign ipc).Holds s.programBytes ∧
      (s.stores.foldl .assign ipc).sequence = ipc.sequence + 1 := by
  rw [MotionLoader.stores, List.foldl_append]
  refine ⟨(JobIngressRegion.holds_of_copied hf).complete.notify, ?_⟩
  change ((copyBlob s.programBytes).foldl .assign ipc).sequence + 1 = _
  rw [assign_sequence not_mem_copyBlob]

theorem Resting.submits (h : p.Resting) {loader : MotionLoader}
    (hl : p.manager.loadGcode file = some loader) (hn : loader.programSegments ≠ [])
    (hf : segmentSize * loader.programSegments.length ≤ jobMaxSize)
    (hr : msg.systemState = .ready) (hj : msg.jobLoaded = false) :
    ∃ p', Run next p ([.gcode file, .machineState msg] ++
        List.replicate (segmentSize * loader.programSegments.length + 3) (.store .manager)) p' ∧
      p'.firmware = p.firmware ∧ p'.region.Holds loader.programBytes ∧
      p'.region.magic = jobIpcMagic ∧ p'.region.sequence = p.region.sequence + 1 := by
  have hb : loader.programBytes.length ≤ jobMaxSize := MotionLoader.programBytes_length ▸ hf
  have hs : loader.jobSubmitted = false := by
    obtain ⟨_, _, he⟩ := Option.map_eq_some_iff.mp hl
    rw [← he]
  let p₁ : Pipeline := { p with
    manager := { loader with startReceived := false }
    loads   := loader.programSegments :: p.loads }
  have h₁ : next (.gcode file) p = .ok p₁ := by
    rw [Pipeline.next, if_pos (h.idle .manager), Pipeline.gcode, hl]
  have hc : (p₁.manager.stateCallback msg).1 = true := by
    simp [ProgramManager.stateCallback, p₁, hs, hr, hj, hn]
  let job : Submission := { bytes := loader.programBytes, program := some loader.programSegments }
  let p₂ : Pipeline := Pipeline.setWrite
    { p₁ with manager := (p₁.manager.stateCallback msg).2 } .manager ⟨job, loader.stores⟩
  have h₂ : next (.machineState msg) p₁ = .ok p₂ := by
    have hm : (p₁.region.magic != jobIpcMagic) = false := bne_eq_false_iff_eq.mpr h.magic
    have hz : ¬p₁.manager.programBytes.length > jobMaxSize := Nat.not_lt.mpr hb
    rw [Pipeline.next, if_pos (h.idle .manager)]
    simp only [Pipeline.machineState, hc, Bool.not_true, Bool.false_eq_true, ↓reduceIte, hm, hz]
    rfl
  have hw : (p₂.writes .manager).stores = loader.stores := by
    rw [setWrite_self]
  obtain ⟨p₃, e, hfw, hrg⟩ := run_stores hw
  have hlen : loader.stores.length = segmentSize * loader.programSegments.length + 3 := by
    simp [MotionLoader.stores, copyBlob, MotionLoader.programBytes_length]
  obtain ⟨hh, hq⟩ : (loader.stores.foldl .assign p.region).Holds loader.programBytes ∧
      (loader.stores.foldl .assign p.region).sequence = p.region.sequence + 1 := stores_hold hb
  refine ⟨p₃, .cons h₁ (.cons h₂ (hlen ▸ e)), hfw, ?_, ?_, ?_⟩
  · rw [hrg]
    exact hh
  · rw [hrg, assign_magic]
    exact h.magic
  · rw [hrg]
    exact hq

end Pipeline
end Program
