import MobilePrinter.Firmware.PersistentStore
import MobilePrinter.Firmware.Theorems.Persistence

namespace Firmware

-- The bytes of a record that may have been stored, or those that were there first.
def Persisted (first : Option (List UInt8)) (A : PersistentState → Prop)
    (v : Option (List UInt8)) : Prop :=
  v = first ∨ v = none ∨
    ∃ state, A state ∧ v = some (PersistentState.layout.bytes state.stored)

-- What the disk holds at a stage of `store_persistent_state`. It stores one of the states of `A`.
def StoreStage.Fits (A : PersistentState → Prop) (d : Disk StatePath UInt8) : StoreStage → Prop
  | .idle            => True
  | .copied copy     => ∃ state, A state ∧ copy = state.stored
  | .opened fd copy  =>
    (∃ state, A state ∧ copy = state.stored) ∧ d.names .stateTmp = some fd ∧
      (d.files fd).data = []
  | .written fd copy =>
    (∃ state, A state ∧ copy = state.stored) ∧ d.names .stateTmp = some fd ∧
      (d.files fd).data = PersistentState.layout.bytes copy
  | .synced copy     =>
    (∃ state, A state ∧ copy = state.stored) ∧ ∃ fd, d.names .stateTmp = some fd ∧
      d.files fd = ⟨PersistentState.layout.bytes copy, true⟩

-- The disk holds the register, whose values have all been stored.
structure StateStore.Keeps (first : Option (List UInt8)) (A : PersistentState → Prop)
    (s : StateStore) (r : Register (Option (List UInt8))) : Prop where
  holds  : s.disk.Holds .statePath .stateTmp r
  stage  : s.stage.Fits A s.disk
  values : ∀ v ∈ r.value :: r.past, Persisted first A v

-- No store is under way, and the disk holds nothing but `first`.
structure StateStore.Fresh (s : StateStore) (first : Option (List UInt8)) : Prop where
  idle  : s.stage = .idle
  holds : s.disk.Holds .statePath .stateTmp { value := first }

-- What is asked of the environment: only the states of `A` are stored, and a file that has been
-- synced is on the disk.
structure StoreInput.Sound (A : PersistentState → Prop) (i : StoreInput) : Prop where
  stored : ∀ state, i = .store state → A state
  synced : i ≠ .fsync false

namespace StateStore

variable {s : StateStore} {r : Register (Option (List UInt8))} {first : Option (List UInt8)}
  {A : PersistentState → Prop} {i : StoreInput} {is : List StoreInput}

section

variable {d : Disk StatePath UInt8} {copy : PersistentState} {fd : Nat}

theorem paths_ne : StatePath.statePath ≠ .stateTmp := by
  decide

theorem Keeps.copied (k : Keeps first A ⟨d, .idle⟩ r) (ha : A state) :
    (next ⟨d, .idle⟩ (.store state)).Keeps first A r where
  holds  := k.holds
  stage  := by
    refine ⟨state, ha, ?_⟩
    simp only [PersistentState.hashed_bytes]
    rfl
  values := k.values

theorem Keeps.opened (k : Keeps first A ⟨d, .copied copy⟩ r) :
    Keeps first A ⟨(d.create .stateTmp).2, .opened (d.create .stateTmp).1 copy⟩ r where
  holds  := (k.holds.create paths_ne).left
  stage  := by
    have ⟨_, hn, hf⟩ := k.holds.create paths_ne
    exact ⟨k.stage, hn, congrArg File.data hf⟩
  values := k.values

theorem Keeps.append (k : Keeps first A ⟨d, .opened fd copy⟩ r) (bs : List UInt8) :
    (d.append fd bs).Holds .statePath .stateTmp r ∧ (d.append fd bs).names .stateTmp = some fd ∧
      ((d.append fd bs).files fd).data = bs := by
  have ⟨_, hn, hf⟩ := k.stage
  refine ⟨k.holds.setFile (k.holds.scratch fd hn), hn, ?_⟩
  simp only [Disk.append, Disk.setFile, Function.update_self]
  rw [show (d.files fd).data = [] from hf, List.nil_append]

theorem Keeps.synced (k : Keeps first A ⟨d, .written fd copy⟩ r) :
    Keeps first A ⟨d.sync fd, .synced copy⟩ r where
  holds  := k.holds.setFile (k.holds.scratch fd k.stage.right.left)
  stage  := by
    have ⟨hc, hn, hf⟩ := k.stage
    refine ⟨hc, fd, hn, ?_⟩
    simp only [Disk.sync, Disk.setFile, Function.update_self]
    rw [show (d.files fd).data = _ from hf]
  values := k.values

theorem Keeps.renamed (k : Keeps first A ⟨d, .synced copy⟩ r) :
    Keeps first A ⟨d.rename .stateTmp .statePath, .idle⟩
      { value := some (PersistentState.layout.bytes copy), past := r.value :: r.past } := by
  have ⟨⟨state, ha, hc⟩, fd, hn, hf⟩ := k.stage
  have hs : (d.files fd).synced = true := by rw [hf]
  have hb : (d.files fd).data = PersistentState.layout.bytes copy := by rw [hf]
  have hd := k.holds.rename paths_ne hn hs
  rw [hb] at hd
  have hp : Persisted first A (some (PersistentState.layout.bytes copy)) :=
    .inr (.inr ⟨state, ha, by rw [hc]⟩)
  exact ⟨hd, trivial, List.forall_mem_cons.mpr ⟨hp, k.values⟩⟩

end

theorem Keeps.next (k : s.Keeps first A r) (h : i.Sound A) :
    ∃ r', Register.Step (s.effect i) r r' ∧ (s.next i).Keeps first A r' := by
  have ⟨d, stage⟩ := s
  cases i
  case store state =>
    cases stage
    case idle => exact ⟨r, .none, k.copied (h.stored state rfl)⟩
    all_goals exact ⟨r, .none, k⟩
  case «open» ok =>
    cases stage
    case copied =>
      cases ok
      case false => exact ⟨r, .none, k.holds, trivial, k.values⟩
      case true  => exact ⟨r, .none, k.opened⟩
    all_goals exact ⟨r, .none, k⟩
  case write bytes =>
    cases stage
    case opened fd copy =>
      have ⟨hd, hn, hf⟩ := k.append ((PersistentState.layout.bytes copy).take bytes)
      refine ⟨r, .none, hd, ?_, k.values⟩
      by_cases hl : bytes < (PersistentState.layout.bytes copy).length
      case pos =>
        simp only [StateStore.next, if_pos hl]
        trivial
      case neg =>
        simp only [StateStore.next, if_neg hl]
        exact ⟨k.stage.left, hn, hf.trans (List.take_of_length_le (Nat.not_lt.mp hl))⟩
    all_goals exact ⟨r, .none, k⟩
  case fsync ok =>
    cases ok
    case false => exact absurd rfl h.synced
    case true =>
      cases stage
      case written => exact ⟨r, .none, k.synced⟩
      all_goals exact ⟨r, .none, k⟩
  case rename ok =>
    cases ok
    case false =>
      cases stage
      case synced => exact ⟨r, .none, k.holds, trivial, k.values⟩
      all_goals exact ⟨r, .none, k⟩
    case true =>
      cases stage
      case synced => exact ⟨_, .set, k.renamed⟩
      all_goals exact ⟨r, .none, k⟩
  case clear =>
    cases stage
    case idle =>
      exact ⟨_, .set, k.holds.unlink paths_ne, trivial,
        List.forall_mem_cons.mpr ⟨.inr (.inl rfl), k.values⟩⟩
    all_goals exact ⟨r, .none, k⟩
  case kill => exact ⟨r, .none, k.holds, trivial, k.values⟩
  case cut undone torn =>
    have ⟨v, hm, hc⟩ := k.holds.cut undone torn
    exact ⟨_, .cut hm, hc, trivial, List.forall_mem_singleton.mpr (k.values v hm)⟩

theorem Keeps.run (k : s.Keeps first A r) (h : ∀ i ∈ is, i.Sound A) :
    ∃ r', Register.Run (s.effects is) r r' ∧ (s.run is).Keeps first A r' := by
  induction is generalizing s r
  case nil => exact ⟨r, .refl, k⟩
  case cons i is ih =>
    rw [List.forall_mem_cons] at h
    have ⟨r₁, hs, k₁⟩ := k.next h.left
    have ⟨r₂, hr, k₂⟩ := ih k₁ h.right
    exact ⟨r₂, .cons hs hr, k₂⟩

end StateStore

theorem Persisted.load {f : PersistentFile} (h : Persisted first A f) :
    f = first ∨ f = none ∨ ∃ state, A state ∧ ∀ out, loadPersistentState true f out =
      (if state.crc32 = 0 then .valid else .checksumMismatch, state.stored) := by
  obtain h | h | ⟨state, ha, h⟩ := h
  · exact .inl h
  · exact .inr (.inl h)
  · refine .inr (.inr ⟨state, ha, fun out => ?_⟩)
    rw [← PersistentState.load_store state out none, PersistentState.store_eq, h]

-- At any time, whatever has failed and been cut off before, the file of the persistent state holds
-- what an atomic cell would hold: the last record that was moved there, or an earlier one if a
-- power cut has undone that. It is never torn, and what is loaded from it has been stored as a
-- whole.
theorem persistent_state_atomic {s : StateStore} {first : Option (List UInt8)} (h : s.Fresh first)
    (hi : ∀ i ∈ is, i ≠ .fsync false) :
    ∃ r, Register.Run (s.effects is) { value := first } r ∧
      (s.run is).disk.read .statePath = r.value ∧
      (r.value = first ∨ r.value = none ∨ ∃ state, .store state ∈ is ∧ ∀ out, (s.run is).load out =
        (if state.crc32 = 0 then .valid else .checksumMismatch, state.stored)) := by
  have k : s.Keeps first (.store · ∈ is) { value := first } :=
    ⟨h.holds, by rw [h.idle]; trivial, List.forall_mem_singleton.mpr (.inl rfl)⟩
  have ⟨r, hr, k'⟩ := k.run fun i hm => ⟨fun _ he => he ▸ hm, hi i hm⟩
  refine ⟨r, hr, k'.holds.value, ?_⟩
  have hv := (k'.values r.value List.mem_cons_self).load
  simp only [StateStore.load, k'.holds.value]
  exact hv

-- The power is cut while a second record is written, and the move of the first one is undone.
theorem persistent_state_atomic_cut :
    ∃ (s : StateStore) (is : List StoreInput) (r : Register (Option (List UInt8))),
      .cut 1 (fun _ => []) ∈ is ∧ Register.Run (s.effects is) { value := none } r ∧
        (s.run is).disk.read .statePath = r.value := by
  let d : Disk StatePath UInt8 :=
    { files := fun _ => ⟨[], true⟩, fresh := 0, names := fun _ => none }
  have h : StateStore.Fresh { disk := d } none := by
    refine ⟨rfl, rfl, nofun, ?_, ?_, ?_, nofun⟩
    all_goals exact List.forall_mem_singleton.mpr nofun
  have hi : ∀ i ∈ [StoreInput.store {}, .open true, .write 64, .fsync true, .rename true, .store {},
      .open true, .write 10, .cut 1 fun _ => []], i ≠ .fsync false := by
    simp
  have ⟨r, hr, hv, _⟩ := persistent_state_atomic h hi
  exact ⟨_, _, r, by simp, hr, hv⟩

end Firmware
