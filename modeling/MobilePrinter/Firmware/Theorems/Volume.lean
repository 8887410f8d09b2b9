import Mathlib.Algebra.Order.Ring.Int
import MobilePrinter.Firmware.CommandExecutor

namespace Firmware

open Transition

variable {R : Type}

namespace PrintedVolume

structure Full.Sized (v : Full R) : Prop where
  length : v.height.length = (v.sx * v.sy).toNat

def Full.raise (x y : UInt32) (z : R) (v : Full R) : Full R :=
  { v with
    height         := v.height.set (v.idx x y) z
    volumeChecksum := v.volumeChecksum + 1 }

variable {v v' v'' : Full R}

theorem Full.Sized.construct [Zero R] : (Full.construct width depth : Full R).Sized where
  length := List.length_replicate

theorem Full.Sized.raise (h : v.Sized) : (v.raise x y z).Sized where
  length := List.length_set.trans h.length

theorem maxHeight_eq_some_iff :
    (∃ h, v.maxHeight x y = some h) ↔ v.idx x y < v.height.length where
  mp h  := (List.getElem?_eq_some_iff.mp h.choose_spec).choose
  mpr h := ⟨_, List.getElem?_eq_getElem h⟩

-- A volume of `m` by `n` cells, which are few enough.
structure Full.Fits (m n : UInt32) (v : Full R) : Prop extends v.Sized where
  sx    : v.sx = m
  sy    : v.sy = n
  cells : m.toNat * n.toNat < 2 ^ 32

theorem Full.Fits.construct [Zero R] (h : m.toNat * n.toNat < 2 ^ 32) :
    (Full.construct m n : Full R).Fits m n :=
  { Full.Sized.construct with sx := rfl, sy := rfl, cells := h }

theorem Full.Fits.raise (h : v.Fits m n) : (v.raise x y z).Fits m n :=
  { h.toSized.raise with sx := h.sx, sy := h.sy, cells := h.cells }

theorem Full.Fits.idx_lt (h : v.Fits m n) (hx : x < m) (hy : y < n) :
    v.idx x y < (v.sx * v.sy).toNat := by
  rw [h.sx, h.sy, UInt32.toNat_mul, Nat.mod_eq_of_lt h.cells]
  calc v.idx x y
      = y.toNat * m.toNat + x.toNat   := by rw [idx, h.sx]
    _ < y.toNat * m.toNat + m.toNat   := Nat.add_lt_add_left (UInt32.lt_iff_toNat_lt.mp hx) _
    _ = (y.toNat + 1) * m.toNat       := (Nat.succ_mul _ _).symm
    _ ≤ n.toNat * m.toNat             := Nat.mul_le_mul_right _ (UInt32.lt_iff_toNat_lt.mp hy)
    _ = m.toNat * n.toNat             := Nat.mul_comm _ _

variable [LinearOrder R]

-- No height of the volume is lower in the other one.
def Full.Lifts (v v' : Full R) : Prop :=
  ∀ (k : Nat) (h : R), v.height[k]? = some h → ∃ h', h ≤ h' ∧ v'.height[k]? = some h'

-- The cell at `x` and `y` has been raised to `z`, and nothing else.
structure Full.Raised (x y : UInt32) (z : R) (v v' : Full R) : Prop where
  column   : x < v.sx
  row      : y < v.sy
  inside   : v.idx x y < v.height.length
  above    : ∀ h, v.maxHeight x y = some h → h < z
  height   : v'.maxHeight x y = some z
  others   : ∀ k, k ≠ v.idx x y → v'.height[k]? = v.height[k]?
  width    : v'.sx = v.sx
  depth    : v'.sy = v.sy
  checksum : v'.volumeChecksum = v.volumeChecksum + 1

namespace Full

theorem Lifts.refl : v.Lifts v :=
  fun _ h hk => ⟨h, le_rfl, hk⟩

theorem Lifts.trans (l : v.Lifts v') (l' : v'.Lifts v'') : v.Lifts v'' := by
  intro k h hk
  have ⟨h', hle, hk⟩ := l k h hk
  have ⟨h'', hle', hk⟩ := l' k h' hk
  exact ⟨h'', hle.trans hle', hk⟩

theorem lifts_raise (hm : v.maxHeight x y = some h) (hz : h < z) : v.Lifts (v.raise x y z) := by
  intro k h' hk
  by_cases he : k = v.idx x y
  case neg => exact ⟨h', le_rfl, (List.getElem?_set_ne (Ne.symm he)).trans hk⟩
  case pos =>
    subst he
    have he : h = h' := Option.some.inj (hm.symm.trans hk)
    exact ⟨z, he ▸ hz.le, List.getElem?_set_self (maxHeight_eq_some_iff.mp ⟨h, hm⟩)⟩

theorem raised_raise_iff (hm : v.maxHeight x y = some h) (hz : h < z) :
    v.Raised x y z (v.raise x y z) ↔ x < v.sx ∧ y < v.sy where
  mp r := ⟨r.column, r.row⟩
  mpr hg := by
    have hi := maxHeight_eq_some_iff.mp ⟨h, hm⟩
    exact {
      column   := hg.left
      row      := hg.right
      inside   := hi
      above    := fun _ h' => Option.some.inj (hm.symm.trans h') ▸ hz
      height   := List.getElem?_set_self hi
      others   := fun k hk => List.getElem?_set_ne hk.symm
      width    := rfl
      depth    := rfl
      checksum := rfl
    }

end Full
end PrintedVolume

structure Print (R : Type) where
  x : UInt32
  y : UInt32
  z : R

namespace CommandExecutor

open PrintedVolume PrintedVolume.Full

variable [LinearOrder R]

-- The print that an input performs, if it performs one.
def print? (narrow : R → R) (s : CommandExecutor R) : Input R → Option (Print R)
  | .execute (.printSegment seg x y z) =>
    match s.execute narrow (.printSegment seg x y z) with
    | .ok (.executed, _) => some { x, y, z }
    | _                  => none
  | _                                  => none

-- Either a segment is blocked, or it raises its own cell. The other inputs leave the volume alone.
def Raises : Input R → CommandExecutor R → Prop
  | .execute (.printSegment seg x y z), s =>
    Yields (fun (r, s') => s.volume.Lifts s'.volume ∧
      (r = .blocked ∧ s'.volume = s.volume ∨ r = .executed ∧ s.volume.Raised x y z s'.volume))
      (s.execute id (.printSegment seg x y z))
  | i, s => Yields (fun s' => s'.volume = s.volume) (s.step id i)

def OnGrid (m n : UInt32) : Input R → Prop
  | .execute (.printSegment _ x y _) => x < m ∧ y < n
  | _                                => True

-- A segment that is not blocked up front has an index within the number of cells, and it lies on
-- the grid unless it lies below the cell of that index.
def Within : Input R → CommandExecutor R → Prop
  | .execute (.printSegment _ x y z), s =>
    s.ctx.phase = .paused ∨ s.state.safety.state ≠ .ok ∨
      s.volume.idx x y < (s.volume.sx * s.volume.sy).toNat ∧
        (x < s.volume.sx ∧ y < s.volume.sy ∨ ∀ h, s.volume.maxHeight x y = some h → z ≤ h)
  | _, _ => True

variable {narrow : R → R} {s s' : CommandExecutor R}

theorem execute_printSegment : s.execute narrow (.printSegment seg x y z) =
    if s.ctx.phase = .paused ∨ s.state.safety.state ≠ .ok then .ok (.blocked, s)
    else match s.volume.maxHeight x y with
      | none   => .error .badAccess
      | some h =>
        if h < z then
          .ok (.executed, { s with
            volume := if h < narrow z then s.volume.raise x y (narrow z) else s.volume
            state  := { s.state with job := { s.state.job with segment := seg } } })
        else .ok (.blocked, s) := by
  by_cases hp : s.ctx.phase = .paused
  case pos => simp [execute, hp]
  by_cases hs : s.state.safety.state = .ok
  case neg => simp [execute, printSegment, SafeTravelRules.canDescend, hp, hs]
  cases hm : s.volume.maxHeight x y
  case none => simp [execute, printSegment, SafeTravelRules.canDescend, hp, hs, hm]
  case some h =>
    by_cases hz : h < z
    case neg => simp [execute, printSegment, SafeTravelRules.canDescend, hp, hs, hm, hz]
    case pos =>
      by_cases hn : h < narrow z
      all_goals
        simp [execute, printSegment, SafeTravelRules.canDescend, commit, hp, hs, hm, hz, hn,
          Except.map]
      rfl

theorem print_of_step (h : step narrow i s = .ok s') :
    s.print? narrow i = none ∧ s'.volume = s.volume ∨
    ∃ p h, s.print? narrow i = some p ∧ s.volume.maxHeight p.x p.y = some h ∧ h < p.z ∧
      (∃ seg, i = .execute (.printSegment seg p.x p.y p.z)) ∧
      s'.volume = if h < narrow p.z then s.volume.raise p.x p.y (narrow p.z) else s.volume := by
  cases i
  case pause | other => cases h; exact .inl ⟨rfl, rfl⟩
  case resume snap =>
    cases h
    refine .inl ⟨rfl, ?_⟩
    simp only [resume]
    split <;> rfl
  case execute cmd =>
    obtain ⟨⟨r, s₁⟩, he, rfl⟩ := map_eq_ok.mp h
    cases cmd
    case jobStart | setLayer | jobEnd =>
      refine .inl ⟨rfl, ?_⟩
      simp only [execute] at he
      split at he
      case isTrue   => cases he; rfl
      case isFalse  => split at he <;> cases he <;> rfl
    case printSegment seg x y z =>
      have hp : s.print? narrow (.execute (.printSegment seg x y z)) =
          if r = .executed then some { x, y, z } else none := by
        simp only [print?, he]
        cases r <;> rfl
      rw [execute_printSegment] at he
      split at he
      case isTrue => cases he; exact .inl ⟨hp, rfl⟩
      case isFalse =>
        cases hm : s.volume.maxHeight x y <;> simp only [hm, reduceCtorEq] at he
        case some h₀ =>
          split at he
          case isTrue hz  => cases he; exact .inr ⟨_, h₀, hp, hm, hz, ⟨seg, rfl⟩, rfl⟩
          case isFalse    => cases he; exact .inl ⟨hp, rfl⟩

theorem volume_of_step (h : s.step narrow i = .ok s') : s'.volume = s.volume ∨
    ∃ x y z, s'.volume = s.volume.raise x y z := by
  obtain ⟨_, hv⟩ | ⟨p, _, _, _, _, _, hv⟩ := print_of_step h
  case inl => exact .inl hv
  case inr =>
    rw [hv]
    split
    case isTrue   => exact .inr ⟨_, _, _, rfl⟩
    case isFalse  => exact .inl rfl

theorem sized_of_step (hs : s.volume.Sized) (h : s.step narrow i = .ok s') : s'.volume.Sized := by
  obtain he | ⟨_, _, _, he⟩ := volume_of_step h
  case inl => exact he ▸ hs
  case inr => exact he ▸ hs.raise

theorem fits_of_step (hf : s.volume.Fits m n) (h : s.step narrow i = .ok s') :
    s'.volume.Fits m n := by
  obtain he | ⟨_, _, _, he⟩ := volume_of_step h
  case inl => exact he ▸ hf
  case inr => exact he ▸ hf.raise

theorem raises_printSegment_iff (hs : s.volume.Sized) :
    Raises (.execute (.printSegment seg x y z)) s ↔
      Within (.execute (.printSegment seg x y z)) s := by
  simp only [Raises, Within, execute_printSegment, id_eq]
  by_cases hb : s.ctx.phase = .paused ∨ s.state.safety.state ≠ .ok
  case pos =>
    rw [if_pos hb]
    exact iff_of_true ⟨.refl, .inl ⟨rfl, rfl⟩⟩ (hb.imp_right .inl)
  case neg =>
    rw [if_neg hb, ← or_assoc, or_iff_right hb, ← hs.length]
    cases hm : s.volume.maxHeight x y
    case none =>
      have hi : ¬s.volume.idx x y < s.volume.height.length := by
        rw [← maxHeight_eq_some_iff, hm]
        nofun
      exact iff_of_false id (hi ·.left)
    case some h =>
      have hi := maxHeight_eq_some_iff.mp ⟨h, hm⟩
      by_cases hz : h < z
      case pos =>
        have hl : ¬∀ h', some h = some h' → z ≤ h' := fun hc => (hc h rfl).not_gt hz
        simp only [if_pos hz, Yields, lifts_raise hm hz, reduceCtorEq, hi, hl, true_and, false_and,
          false_or, or_false]
        exact raised_raise_iff hm hz
      case neg =>
        simp only [if_neg hz]
        refine iff_of_true ⟨.refl, .inl ⟨rfl, rfl⟩⟩ ⟨hi, .inr fun h' h => ?_⟩
        cases h
        exact not_lt.mp hz

theorem raises_iff_within (hs : s.volume.Sized) : Raises i s ↔ Within i s := by
  cases i
  case pause | other => exact iff_of_true rfl trivial
  case resume snap =>
    refine iff_of_true ?_ trivial
    simp only [Raises, step, resume]
    split <;> rfl
  case execute cmd =>
    cases cmd
    case printSegment => exact raises_printSegment_iff hs
    case jobStart | setLayer | jobEnd =>
      refine iff_of_true ?_ trivial
      simp only [Raises, step, execute]
      split <;> [rfl; split] <;> rfl

theorem within_of_grid (hf : s.volume.Fits m n) (hg : OnGrid m n i) : Within i s := by
  cases i
  case pause | resume | other => trivial
  case execute cmd =>
    cases cmd
    case jobStart | setLayer | jobEnd => trivial
    case printSegment =>
      have hs : s.volume.sx = m ∧ s.volume.sy = n := ⟨hf.sx, hf.sy⟩
      exact .inr (.inr ⟨hf.idx_lt hg.left hg.right, .inl (by rwa [hs.left, hs.right])⟩)

end CommandExecutor

open CommandExecutor

theorem raises_on_grid [LinearOrder R] [Zero R] {state : MachineState} {ctx : ExecutionContext}
    {is : List (CommandExecutor.Input R)} (hc : m.toNat * n.toNat < 2 ^ 32)
    (hg : ∀ i ∈ is, OnGrid m n i) : Throughout (step id) Raises (.construct state m n ctx) is := by
  refine .of_inputs (I := (·.volume.Fits m n)) (fun h hi => ?_) fits_of_step hg (.construct hc)
  exact (raises_iff_within h.toSized).mpr (within_of_grid h hi)

theorem raises_throughout_iff [LinearOrder R] [Zero R] {state : MachineState} {sx sy : UInt32}
    {ctx : ExecutionContext} {is : List (CommandExecutor.Input R)} :
    Throughout (step id) Raises (.construct state sx sy ctx) is ↔
      Throughout (step id) Within (.construct state sx sy ctx) is :=
  throughout_congr (I := (·.volume.Sized)) raises_iff_within sized_of_step .construct

-- On a grid of two by two cells, the cell behind the first row is the first one of the second row.
theorem raises_elsewhere :
    ¬Throughout (step id) Raises (.construct {} 2 2 {} : CommandExecutor Int)
      [.execute (.printSegment 0 2 0 1)] ∧
    Reaches (step id) (·.volume.maxHeight 0 1 = some 1)
      (.construct {} 2 2 {} : CommandExecutor Int) [.execute (.printSegment 0 2 0 1)] := by
  constructor
  case left =>
    intro h
    obtain ⟨hr, _⟩ | ⟨_, hr⟩ := h.left.right
    case inl => cases hr
    case inr => exact absurd hr.column (by decide)
  case right => decide +kernel

end Firmware
