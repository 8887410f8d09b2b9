import MobilePrinter.Program.Theorems.Planning

namespace Program

open Firmware (Double)

variable {file lines : List (List Char)} {line : List Char} {l : Char} {m : Move}
  {seg : MotionSegment} {s s' : MotionLoader} {ws : List (List Char)}

-- What the words of the file say of the segment of a move.
structure Modal (m : Move) (seg : MotionSegment) : Prop where
  feedrate  : seg.feedrate.eq (feedrate codeWords (m.before ++ [m.line])) = true
  extrusion : seg.extrusion.eq
    (absoluteE codeWords (m.before ++ [m.line]) - absoluteE codeWords m.before) = true

-- The words on the lines that move the tool, as the parser takes them, give the same feedrate as
-- all words of the file, and for an E word the same extrusion.
structure Undisturbed (m : Move) : Prop where
  feedrate  : (feedrate readWords (movingLines m.before ++ [m.line])).eq
    (feedrate codeWords (m.before ++ [m.line])) = true
  extrusion : ∀ e, named 'E' (readWords m.line) = some e →
    (e - absoluteE readWords (movingLines m.before)).eq
      (absoluteE codeWords (m.before ++ [m.line]) - absoluteE codeWords m.before) = true

instance : Decidable (Modal m seg) :=
  decidable_of_iff (_ ∧ _)
    ⟨fun h => ⟨h.left, h.right⟩, fun h => ⟨h.feedrate, h.extrusion⟩⟩

-- The parser takes every word of a line for a word, though maybe for a longer one.
theorem readWords_of_codeWords {w : List Char} (h : w ∈ codeWords line) :
    ∃ v ∈ readWords line, w <+: v := by
  rw [readWords]
  split
  case isTrue hc =>
    have ⟨rest, hl⟩ := List.head?_eq_some_iff.mp hc
    rw [hl] at h
    cases h
  case isFalse =>
    rw [← List.takeWhile_append_dropWhile (p := fun c => decide (c ≠ ';')) (l := line)]
    exact Strtod.words_prefix h

theorem named_codeWords (hr : ∀ w ∈ readWords line, Lettered w → (stod w.tail).isSome = true)
    (hl : l ∈ letters) (h : named l (readWords line) = none) : named l (codeWords line) = none := by
  by_contra hn
  have ⟨x, hx⟩ := Option.ne_none_iff_exists'.mp hn
  have ⟨w, hw, hh, _⟩ := named_mem hx
  have ⟨v, hv, t, ht⟩ := readWords_of_codeWords hw
  have hv' : v.head? = some l := by
    rw [← ht, List.head?_append, hh]
    rfl
  have hs := hr v hv ⟨l, hl, hv'⟩
  rw [named_eq_none h hv hv'] at hs
  cases hs

theorem absoluteE_finite (h : WellFormed lines) : (absoluteE codeWords lines).Finite := by
  refine named_finite ?_ (by decide) .zero
  intro w hw
  obtain ⟨line, hl, hw⟩ := List.mem_flatMap.mp hw
  exact h line hl w hw

theorem modal_iff (hx : Executes m seg) (hw : WellFormed m.before)
    (hr : ∀ w ∈ readWords m.line, Lettered w → (stod w.tail).isSome = true) :
    Modal m seg ↔ Undisturbed m := by
  constructor
  case mp =>
    intro h
    refine ⟨hx.feedrate ▸ h.feedrate, ?_⟩
    intro e he
    have h := h.extrusion
    rwa [hx.extrusion, extrusionOf, he] at h
  case mpr =>
    intro h
    refine ⟨hx.feedrate ▸ h.feedrate, ?_⟩
    rw [hx.extrusion, extrusionOf]
    cases hn : named 'E' (readWords m.line)
    case some e => exact h.extrusion e hn
    case none =>
      have hc := named_codeWords hr (by decide) hn
      rw [absoluteE_concat, hc, Option.getD_none, (absoluteE_finite hw).sub_self]
      exact Double.Finite.zero.eq_self

-- Words on the other lines are lost, or charged to a later move.
theorem loadGcode_modal_iff (hw : WellFormed file) (h : s.loadGcode file = some s') :
    List.Forall₂ Modal (moves [] file) s'.programSegments ↔
      ∀ m ∈ moves [] file, Undisturbed m := by
  have hr : InRange readWords file := loadGcode_isSome.mp (Option.isSome_of_mem h)
  refine (loadGcode_executes h).iff_forall fun m hm seg hx => ?_
  have ⟨rest, hf⟩ := mem_moves hm
  rw [List.nil_append] at hf
  subst hf
  have ⟨hb, _⟩ := List.forall_mem_append.mp hw
  have ⟨_, hr⟩ := List.forall_mem_append.mp hr
  exact modal_iff hx hb (List.forall_mem_cons.mp hr).left

theorem loadGcode_modal_iff_prime :
    let file := ["G1 X0.1 E5 F1200 ; prime".toList, "G1 X0.2 E7".toList]
    ∃ s', (({} : MotionLoader).loadGcode file) = some s' ∧
      List.Forall₂ Modal (moves [] file) s'.programSegments ∧
      ∀ m ∈ moves [] file, Undisturbed m := by
  intro file
  have hw : WellFormed file := by unfold WellFormed; decide +kernel
  have hs : (({} : MotionLoader).loadGcode file).any (fun s' =>
      decide (List.Forall₂ Modal (moves [] file) s'.programSegments)) = true := by decide +kernel
  have ⟨s', hs, hm⟩ := Option.any_eq_true _ _ |>.mp hs
  have hm := of_decide_eq_true hm
  exact ⟨s', hs, hm, (loadGcode_modal_iff hw hs).mp hm⟩

-- A feedrate on a line of its own is lost.
theorem loadGcode_modal_fails :
    ¬∀ file, WellFormed file → ∀ s s' : MotionLoader, s.loadGcode file = some s' →
      List.Forall₂ Modal (moves [] file) s'.programSegments := by
  intro h
  let file := ["F120".toList, "G1 X1".toList]
  have hw : WellFormed file := by unfold WellFormed; decide +kernel
  have hs : (({} : MotionLoader).loadGcode file).any (fun s' =>
      decide ¬List.Forall₂ Modal (moves [] file) s'.programSegments) = true := by decide +kernel
  have ⟨s', hs, hm⟩ := Option.any_eq_true _ _ |>.mp hs
  exact of_decide_eq_true hm (h file hw {} s' hs)

end Program
