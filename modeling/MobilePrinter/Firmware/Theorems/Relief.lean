import MobilePrinter.Firmware.Theorems.Volume
import MobilePrinter.Library.Relief

namespace Firmware

open PrintedVolume PrintedVolume.Full Relief Transition

variable {R : Type}

-- What a print leaves behind: the volume holds its height as a float.
def Print.deposit (narrow : R → R) (p : Print R) : (UInt32 × UInt32) × R :=
  ((p.x, p.y), narrow p.z)

namespace CommandExecutor

variable [LinearOrder R]

-- The prints that a run performs, newest first and in front of those before the run.
def prints (narrow : R → R) :
    CommandExecutor R → List (Input R) → List (Print R) → List (Print R)
  | _, [], ps      => ps
  | s, i :: is, ps =>
    match step narrow i s with
    | .ok s'   => prints narrow s' is ((s.print? narrow i).toList ++ ps)
    | .error _ => ps

end CommandExecutor

namespace PrintedVolume.Full

variable {v v' : Full R}

theorem Fits.idx_inj (h : v.Fits m n) (hx : x < m) (hx' : x' < m)
    (he : v.idx x y = v.idx x' y') : x = x' ∧ y = y' := by
  rw [idx, idx, h.sx] at he
  rw [UInt32.lt_iff_toNat_lt] at hx hx'
  have hr : x.toNat = x'.toNat := by
    have hm := congrArg (· % m.toNat) he
    simpa only [Nat.mul_add_mod', Nat.mod_eq_of_lt hx, Nat.mod_eq_of_lt hx'] using hm
  rw [hr, Nat.add_right_cancel_iff] at he
  exact ⟨UInt32.toNat_inj.mp hr, UInt32.toNat_inj.mp (Nat.eq_of_mul_eq_mul_right (by omega) he)⟩

theorem Fits.idx_surj (h : v.Fits m n) (hk : k < v.height.length) :
    ∃ x y, x < m ∧ y < n ∧ v.idx x y = k := by
  rw [h.length, h.sx, h.sy, UInt32.toNat_mul, Nat.mod_eq_of_lt h.cells] at hk
  have hm : 0 < m.toNat := Nat.pos_of_mul_pos_right (Nat.zero_lt_of_lt hk)
  have hx : k % m.toNat < m.toNat := Nat.mod_lt k hm
  have hy : k / m.toNat < n.toNat := Nat.div_lt_of_lt_mul hk
  have hx' : (UInt32.ofNat (k % m.toNat)).toNat = k % m.toNat :=
    UInt32.toNat_ofNat_of_lt' (hx.trans m.toNat_lt)
  have hy' : (UInt32.ofNat (k / m.toNat)).toNat = k / m.toNat :=
    UInt32.toNat_ofNat_of_lt' (hy.trans n.toNat_lt)
  refine ⟨.ofNat (k % m.toNat), .ofNat (k / m.toNat), ?_, ?_, ?_⟩
  case refine_1 => rwa [UInt32.lt_iff_toNat_lt, hx']
  case refine_2 => rwa [UInt32.lt_iff_toNat_lt, hy']
  case refine_3 =>
    rw [idx, h.sx, hx', hy', Nat.mul_comm]
    exact Nat.div_add_mod k m.toNat

variable [LinearOrder R] [Zero R] {narrow : R → R} {ps : List (Print R)} {p : Print R}

def column (narrow : R → R) (ps : List (Print R)) (x y : UInt32) : R :=
  top 0 (ps.map (Print.deposit narrow)) (x, y)

-- The volume holds the relief of the prints. It counts the ones that have raised it, and each one
-- was above its column.
structure Built (narrow : R → R) (m n : UInt32) (ps : List (Print R)) (v : Full R) : Prop
    extends v.Fits m n where
  heights  : ∀ x < m, ∀ y < n, v.maxHeight x y = some (column narrow ps x y)
  checksum : v.volumeChecksum = .ofNat (raises 0 (ps.map (Print.deposit narrow)))
  above    : ps.Pairwise fun new old => new.x = old.x → new.y = old.y → narrow old.z < new.z
  ground   : ∀ p ∈ ps, 0 < p.z

namespace Built

theorem construct (hc : m.toNat * n.toNat < 2 ^ 32) :
    (Full.construct m n : Full R).Built narrow m n [] where
  toFits   := .construct hc
  heights  := by
    intro x hx y hy
    have hi := (Fits.construct (R := R) hc).idx_lt hx hy
    exact (List.getElem?_replicate).trans (if_pos hi)
  checksum := rfl
  above    := .nil
  ground   := by simp

theorem above_cons (b : v.Built narrow m n ps) (hz : column narrow ps p.x p.y < p.z) :
    (p :: ps).Pairwise (fun new old => new.x = old.x → new.y = old.y → narrow old.z < new.z) ∧
    ∀ q ∈ p :: ps, 0 < q.z := by
  have ⟨hg, hd⟩ := top_lt_iff.mp hz
  constructor
  case left =>
    refine .cons (fun q hq hx hy => ?_) b.above
    exact hd (q.deposit narrow) (List.mem_map_of_mem hq) (by rw [Print.deposit, hx, hy])
  case right => exact List.forall_mem_cons.mpr ⟨hg, b.ground⟩

theorem print (b : v.Built narrow m n ps) (hx : p.x < m) (hy : p.y < n)
    (hz : column narrow ps p.x p.y < p.z) :
    Built narrow m n (p :: ps) (if column narrow ps p.x p.y < narrow p.z
      then v.raise p.x p.y (narrow p.z) else v) := by
  have ⟨ha, hg⟩ := b.above_cons hz
  have hc (x y : UInt32) : column narrow (p :: ps) x y =
      if (x, y) = (p.x, p.y) then max (column narrow ps x y) (narrow p.z)
      else column narrow ps x y := rfl
  have hr : raises 0 ((p :: ps).map (Print.deposit narrow)) =
      if column narrow ps p.x p.y < narrow p.z
      then raises 0 (ps.map (Print.deposit narrow)) + 1
      else raises 0 (ps.map (Print.deposit narrow)) := rfl
  split
  case isTrue h =>
    refine ⟨b.toFits.raise, ?_, ?_, ha, hg⟩
    case refine_1 =>
      intro x hx' y hy'
      rw [hc]
      split
      case isTrue he =>
        cases he
        rw [max_eq_right h.le]
        exact List.getElem?_set_self (maxHeight_eq_some_iff.mp ⟨_, b.heights _ hx _ hy⟩)
      case isFalse he =>
        rw [← b.heights x hx' y hy']
        refine List.getElem?_set_ne fun hi => he ?_
        have ⟨hx, hy⟩ := b.idx_inj hx hx' hi
        rw [hx, hy]
    case refine_2 =>
      rw [hr, if_pos h, UInt32.ofNat_add, ← b.checksum]
      rfl
  case isFalse h =>
    refine ⟨b.toFits, ?_, ?_, ha, hg⟩
    case refine_1 =>
      intro x hx' y hy'
      rw [hc]
      split
      case isTrue he =>
        cases he
        rw [max_eq_left (not_lt.mp h)]
        exact b.heights _ hx _ hy
      case isFalse => exact b.heights x hx' y hy'
    case refine_2 =>
      rw [hr, if_neg h]
      exact b.checksum

theorem lateralSafe_iff (b : v.Built narrow m n ps) :
    v.lateralSafe z = true ↔ ∀ x < m, ∀ y < n, column narrow ps x y < z := by
  rw [lateralSafe, List.all_eq_true]
  constructor
  case mp =>
    intro h x hx y hy
    have hl := h _ (List.mem_of_getElem? (b.heights x hx y hy))
    simpa using hl
  case mpr =>
    intro h r hr
    obtain ⟨k, hk, rfl⟩ := List.mem_iff_getElem.mp hr
    obtain ⟨x, y, hx, hy, rfl⟩ := b.idx_surj hk
    have he := b.heights x hx y hy
    rw [maxHeight, List.getElem?_eq_getElem hk, Option.some_inj] at he
    simpa [he] using h x hx y hy

end Built
end PrintedVolume.Full

namespace CommandExecutor

variable [LinearOrder R] {narrow : R → R} {s s' : CommandExecutor R} {ps : List (Print R)}

section Grid

variable [Zero R]

theorem built_of_step (b : s.volume.Built narrow m n ps) (hg : OnGrid m n i)
    (h : step narrow i s = .ok s') :
    s'.volume.Built narrow m n ((s.print? narrow i).toList ++ ps) := by
  cases print_of_step h
  case inl hp =>
    rw [hp.left, hp.right]
    exact b
  case inr hp =>
    obtain ⟨p, h₀, hp, hm, hz, ⟨seg, rfl⟩, hv⟩ := hp
    obtain rfl := Option.some.inj (hm.symm.trans (b.heights _ hg.left _ hg.right))
    rw [hp, hv]
    exact b.print hg.left hg.right hz

theorem built_of_run (e : Run (step narrow) s is s') (hg : ∀ i ∈ is, OnGrid m n i)
    (b : s.volume.Built narrow m n ps) :
    s'.volume.Built narrow m n (prints narrow s is ps) := by
  induction e generalizing ps
  case refl           => exact b
  case cons hs _ ih =>
    have ⟨hi, hg⟩ := List.forall_mem_cons.mp hg
    rw [prints, hs]
    exact ih hg (built_of_step b hi hs)

theorem step_of_grid (b : s.volume.Built narrow m n ps) (hg : OnGrid m n i) :
    ∃ s', step narrow i s = .ok s' := by
  cases i
  case pause | resume | other => exact ⟨_, rfl⟩
  case execute cmd =>
    cases cmd
    case printSegment seg x y z =>
      simp only [step, execute_printSegment, b.heights x hg.left y hg.right]
      split
      case isTrue  => exact ⟨_, rfl⟩
      case isFalse => split <;> exact ⟨_, rfl⟩
    all_goals
      simp only [step, execute]
      split
      case isTrue  => exact ⟨_, rfl⟩
      case isFalse => split <;> exact ⟨_, rfl⟩

-- On the grid nothing is accessed that is not there, and the volume is the relief of the segments
-- that have been executed. The travel rule for lateral moves reads it as that.
theorem relief_of_run {state : MachineState} {ctx : ExecutionContext}
    (hc : m.toNat * n.toNat < 2 ^ 32) (hg : ∀ i ∈ is, OnGrid m n i)
    (e : Run (step narrow) (.construct state m n ctx) is s) :
    s.volume.Built narrow m n (prints narrow (.construct state m n ctx) is []) ∧
    (∀ st z, SafeTravelRules.canLateral narrow st s.volume.toPrintedVolume z = true ↔
      st.safety.state = .ok ∧ ∀ x < m, ∀ y < n,
        column narrow (prints narrow (.construct state m n ctx) is []) x y < narrow z) ∧
    ∀ i, OnGrid m n i → ∃ s', step narrow i s = .ok s' := by
  have b := built_of_run e hg (.construct hc)
  refine ⟨b, fun st z => ?_, fun i hi => step_of_grid b hi⟩
  rw [SafeTravelRules.canLateral, Bool.and_eq_true, beq_iff_eq, b.lateralSafe_iff]

-- The heights are cut to even ones, so that the second segment is executed and raises nothing.
def even (z : Int) : Int :=
  2 * (z / 2)

def twice : List (Input Int) :=
  [.execute (.printSegment 1 0 1 3), .execute (.printSegment 2 0 1 3)]

theorem relief_of_run_twice : ∃ s : CommandExecutor Int,
    Run (step even) (.construct {} 2 2 {}) twice s ∧ s.volume.maxHeight 0 1 = some 2 ∧
    s.volume.Built even 2 2 (prints even (.construct {} 2 2 {}) twice []) ∧
    ∀ i, OnGrid 2 2 i → ∃ s', step even i s = .ok s' := by
  have h : Reaches (step even) (·.volume.maxHeight 0 1 = some 2)
      (.construct {} 2 2 {} : CommandExecutor Int) twice := by decide +kernel
  obtain ⟨s, e, hm⟩ := h.run
  have hg : ∀ i ∈ twice, OnGrid 2 2 i := by simp [twice, OnGrid]
  have hr := relief_of_run (by decide) hg e
  exact ⟨s, e, hm, hr.left, hr.right.right⟩

end Grid

section Checksum

-- The volume has been raised `k` times since.
structure Grown (v v' : Full R) (k : Nat) : Prop where
  lifts    : v.Lifts v'
  checksum : v'.volumeChecksum = v.volumeChecksum + .ofNat k
  still    : k = 0 → v' = v
  higher   : k ≠ 0 → v'.height ≠ v.height

theorem Grown.refl {v : Full R} : Grown v v 0 where
  lifts    := .refl
  checksum := (UInt32.add_zero _).symm
  still    := fun _ => rfl
  higher   := absurd rfl

theorem Grown.raise {v v' : Full R} (g : Grown v v' k) (hm : v'.maxHeight x y = some h)
    (hz : h < z) : Grown v (v'.raise x y z) (k + 1) where
  lifts    := g.lifts.trans (lifts_raise hm hz)
  checksum := by
    rw [UInt32.ofNat_add, ← UInt32.add_assoc, ← g.checksum]
    rfl
  still    := nofun
  higher   := by
    intro _ he
    have hr : (v'.raise x y z).height[v'.idx x y]? = some z :=
      List.getElem?_set_self (maxHeight_eq_some_iff.mp ⟨h, hm⟩)
    obtain ⟨h', hl, hh⟩ := g.lifts _ _ (he ▸ hr)
    obtain rfl := Option.some.inj (hm.symm.trans hh)
    exact absurd hz (not_lt.mpr hl)

theorem grown_of_run (e : Run (step narrow) s is s') :
    ∃ k, k ≤ is.length ∧ Grown s.volume s'.volume k := by
  refine e.history (I := fun is s' => ∃ k, k ≤ is.length ∧ Grown s.volume s'.volume k) ?_ ?_
  case refine_1 =>
    intro is i s₁ s₂ _ ⟨k, hk, g⟩ hs
    rw [List.length_append, List.length_singleton]
    cases print_of_step hs
    case inl hp => exact ⟨k, Nat.le_succ_of_le hk, hp.right ▸ g⟩
    case inr hp =>
      obtain ⟨p, h, _, hm, _, _, hv⟩ := hp
      rw [hv]
      split
      case isTrue hz => exact ⟨k + 1, Nat.succ_le_succ hk, g.raise hm hz⟩
      case isFalse   => exact ⟨k, Nat.le_succ_of_le hk, g⟩
  case refine_2 => exact ⟨0, Nat.le_refl 0, .refl⟩

-- A snapshot is resumed from if and only if nothing has been printed in between, as long as fewer
-- commands have been executed than there are checksums.
theorem resume_iff_unprinted (e : Run (step narrow) s is s') (hl : is.length < 2 ^ 32) :
    (s'.resume s.pause.1).1 = true ↔ s'.volume.height = s.volume.height := by
  obtain ⟨k, hk, g⟩ := grown_of_run e
  have hr : (s'.resume s.pause.1).1 = true ↔
      s.volume.volumeChecksum = s'.volume.volumeChecksum := by
    simp only [resume, pause, apply_ite Prod.fst, bne_iff_ne, ne_eq, ite_not]
    simp
  have h₀ : s.volume.volumeChecksum = s'.volume.volumeChecksum ↔ k = 0 := by
    have hk : k < UInt32.size := Nat.lt_of_le_of_lt hk hl
    rw [g.checksum, ← UInt32.toNat_inj, UInt32.toNat_add, UInt32.toNat_ofNat_of_lt' hk]
    have hc := s.volume.volumeChecksum.toNat_lt
    omega
  rw [hr, h₀]
  constructor
  case mp  => exact fun hk => by rw [g.still hk]
  case mpr => exact fun he => by_contra fun hk => g.higher hk he

theorem resume_iff_unprinted_twice : ∃ s : CommandExecutor Int,
    Run (step even) (.construct {} 2 2 {}) twice s ∧ twice.length < 2 ^ 32 ∧
    ((s.resume (CommandExecutor.construct {} 2 2 {} : CommandExecutor Int).pause.1).1 = true ↔
      s.volume.height = [0, 0, 0, 0]) := by
  have h : Reaches (step even) (·.volume.maxHeight 0 1 = some 2)
      (.construct {} 2 2 {} : CommandExecutor Int) twice := by decide +kernel
  obtain ⟨s, e, _⟩ := h.run
  exact ⟨s, e, by decide, resume_iff_unprinted e (by decide)⟩

end Checksum

end CommandExecutor
end Firmware
