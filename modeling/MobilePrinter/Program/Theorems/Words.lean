import MobilePrinter.Program.Toolpath

namespace Firmware.Double

variable {a a' b b' : Double}

def Finite (a : Double) : Prop :=
  Binary64.Finite a.bits

theorem Finite.zero : Finite ⟨0⟩ :=
  of_decide_eq_true (p := Binary64.magnitude 0 < Binary64.infinity) rfl

theorem Finite.eq_self (h : a.Finite) : a.eq a = true :=
  Binary64.Finite.eq_self h

theorem Finite.sub_self (h : a.Finite) : a - a = ⟨0⟩ :=
  congrArg Double.mk (Binary64.sub_self h)

-- The same number, or the same bit pattern of a NaN.
def Close (a b : Double) : Prop :=
  a = b ∨ a.eq b = true

theorem eq_comm (h : a.eq b = true) : b.eq a = true :=
  Binary64.eq_comm h

theorem eq_trans (h : a.eq b = true) (h' : b.eq a' = true) : a.eq a' = true :=
  Binary64.eq_trans h h'

namespace Close

theorem refl : Close a a :=
  .inl rfl

theorem symm (h : Close a b) : Close b a :=
  h.imp Eq.symm eq_comm

theorem trans (h : Close a b) (h' : Close b b') : Close a b' := by
  cases h
  case inl h => exact h ▸ h'
  case inr h =>
    cases h'
    case inl h' => exact .inr (h' ▸ h)
    case inr h' => exact .inr (eq_trans h h')

theorem eq_of_eq (h : Close a b) (h' : Close a' b') (ha : a.eq a' = true) : b.eq b' = true := by
  have hb : b.eq a' = true := by
    cases h
    case inl h => exact h ▸ ha
    case inr h => exact eq_trans (eq_comm h) ha
  cases h'
  case inl h' => exact h' ▸ hb
  case inr h' => exact eq_trans hb h'

theorem eq_iff (h : Close a b) (h' : Close a' b') : a.eq a' = true ↔ b.eq b' = true :=
  ⟨h.eq_of_eq h', h.symm.eq_of_eq h'.symm⟩

theorem eq_of_finite (h : Close a b) (hb : b.Finite) : a.eq b = true := by
  cases h
  case inl h => exact h ▸ hb.eq_self
  case inr h => exact h

theorem getD (h : Close a b) (o : Option Double) : Close (o.getD a) (o.getD b) := by
  cases o
  case none   => exact h
  case some _ => exact refl

end Close
end Firmware.Double

namespace Program

open Firmware (Double)

section
variable {l : Char} {ws vs : List (List Char)} {x : Double}

theorem mem_letters : l ∈ letters ↔ l = 'X' ∨ l = 'Y' ∨ l = 'Z' ∨ l = 'E' ∨ l = 'F' := by
  simp only [letters, List.mem_cons, List.not_mem_nil, or_false]

theorem namesAxis_iff_named : NamesAxis ws ↔ (named 'X' ws).isSome = true ∨
    (named 'Y' ws).isSome = true ∨ (named 'Z' ws).isSome = true := by
  simp only [NamesAxis, List.mem_cons, List.not_mem_nil, or_false, exists_eq_or_imp,
    exists_eq_left]

theorem named_append : named l (ws ++ vs) = (named l vs).or (named l ws) := by
  rw [named, List.filterMap_append, List.getLast?_append]
  rfl

theorem named_cons {w : List Char} : named l (w :: ws) = (named l ws).or (number l w) := by
  rw [← List.singleton_append, named_append]
  congr 1
  simp only [named, List.filterMap_cons, List.filterMap_nil]
  cases number l w <;> rfl

theorem named_mem (h : named l ws = some x) :
    ∃ w ∈ ws, w.head? = some l ∧ stod w.tail = some x := by
  have ⟨w, hw, hx⟩ := List.mem_filterMap.mp (List.mem_of_getLast? h)
  have hl : w.head? = some l := by
    by_contra hn
    rw [number, if_neg hn] at hx
    cases hx
  rw [number, if_pos hl] at hx
  exact ⟨w, hw, hl, hx⟩

theorem named_eq_none {w : List Char} (h : named l ws = none) (hw : w ∈ ws)
    (hl : w.head? = some l) : stod w.tail = none := by
  have hn := List.filterMap_eq_nil_iff.mp (List.getLast?_eq_none_iff.mp h) w hw
  rwa [number, if_pos hl] at hn

theorem stod_finite {s : List Char} (h : Strtod.isDecimal s = true) (hx : stod s = some x) :
    x.Finite := by
  have ⟨b, hb, hx⟩ := Option.map_eq_some_iff.mp hx
  exact hx ▸ Strtod.stod_finite h hb

theorem named_finite (h : ∀ w ∈ ws, Lettered w → Strtod.isDecimal w.tail) (hl : l ∈ letters)
    {a : Double} (ha : a.Finite) : ((named l ws).getD a).Finite := by
  cases hn : named l ws
  case none => exact ha
  case some x =>
    have ⟨w, hw, hh, hx⟩ := named_mem hn
    exact stod_finite (h w hw ⟨l, hl, hh⟩) hx

end

namespace Position

variable {p p' q q' : Position}

structure Near (p q : Position) : Prop where
  x : p.x.Close q.x
  y : p.y.Close q.y
  z : p.z.Close q.z

theorem move_of_not_namesAxis {ws : List (List Char)} (h : ¬NamesAxis ws) : p.move ws = p := by
  simp only [namesAxis_iff_named, not_or, Bool.not_eq_true, Option.isSome_eq_false_iff,
    Option.isNone_iff_eq_none] at h
  simp only [Position.move, h, Option.getD_none]

structure Finite (p : Position) : Prop where
  x : p.x.Finite
  y : p.y.Finite
  z : p.z.Finite

theorem Finite.move {ws : List (List Char)} (h : p.Finite)
    (hw : ∀ w ∈ ws, Lettered w → Strtod.isDecimal w.tail) : (p.move ws).Finite where
  x := named_finite hw (by decide) h.x
  y := named_finite hw (by decide) h.y
  z := named_finite hw (by decide) h.z

namespace Near

theorem refl : Near p p :=
  ⟨.refl, .refl, .refl⟩

theorem symm (h : Near p q) : Near q p :=
  ⟨h.x.symm, h.y.symm, h.z.symm⟩

theorem trans (h : Near p q) (h' : Near q q') : Near p q' :=
  ⟨h.x.trans h'.x, h.y.trans h'.y, h.z.trans h'.z⟩

theorem move (h : Near p q) (ws : List (List Char)) : Near (p.move ws) (q.move ws) :=
  ⟨h.x.getD _, h.y.getD _, h.z.getD _⟩

theorem same_of_finite (h : Near p q) (hq : q.Finite) : p.Same q :=
  ⟨h.x.eq_of_finite hq.x, h.y.eq_of_finite hq.y, h.z.eq_of_finite hq.z⟩

theorem same_iff (h : Near p q) (h' : Near p' q') : p.Same p' ↔ q.Same q' :=
  and_congr (h.x.eq_iff h'.x) <| and_congr (h.y.eq_iff h'.y) (h.z.eq_iff h'.z)

theorem differs_iff (h : Near p q) (h' : Near p' q') : p.Differs p' ↔ q.Differs q' :=
  not_congr (h.same_iff h')

end Near

theorem Same.symm (h : p.Same q) : q.Same p :=
  ⟨Double.eq_comm h.left, Double.eq_comm h.right.left, Double.eq_comm h.right.right⟩

theorem Same.near (h : p.Same q) : Near p q :=
  ⟨.inr h.left, .inr h.right.left, .inr h.right.right⟩

theorem near_of_not_differs (h : ¬p.Differs q) : Near p q :=
  (not_not.mp h).near

end Position

-- How the words of a line change the feedrate and the absolute extrusion, and what they extrude.
def feedrateOf (ws : List (List Char)) (cf : Double) : Double :=
  match named 'F' ws with
  | none   => cf
  | some f => f / 1000.0 / 60.0

def extrusionOf (ws : List (List Char)) (ce : Double) : Double :=
  match named 'E' ws with
  | none   => ⟨0⟩
  | some e => e - ce

section
variable {words : List Char → List (List Char)} {lines : List (List Char)} {line : List Char}

theorem position_concat :
    position words (lines ++ [line]) = (position words lines).move (words line) := by
  rw [position, List.foldl_append]
  rfl

theorem inForce_concat :
    inForce words l (lines ++ [line]) = (named l (words line)).or (inForce words l lines) := by
  rw [inForce, List.flatMap_append, named_append, List.flatMap_singleton]
  rfl

theorem feedrate_concat :
    feedrate words (lines ++ [line]) = feedrateOf (words line) (feedrate words lines) := by
  rw [feedrate, inForce_concat, feedrateOf]
  cases named 'F' (words line) <;> rfl

theorem absoluteE_concat :
    absoluteE words (lines ++ [line]) = (named 'E' (words line)).getD (absoluteE words lines) := by
  rw [absoluteE, inForce_concat]
  cases named 'E' (words line) <;> rfl

end

end Program
