import Mathlib.Data.List.TakeWhile
import MobilePrinter.Program.Theorems.Planning

namespace Program

open Firmware (Double)

variable {words words' : List Char → List (List Char)} {before file lines : List (List Char)}
  {line : List Char} {m : Move} {a p : Position} {s s' : MotionLoader}

def Move.target (m : Move) : Position :=
  position readWords (m.before ++ [m.line])

-- The file compares a point with the one before, and `destutter'` with the last one that is kept.
-- They are equal as numbers.
theorem destutter_points (h : a.Near (position readWords before)) :
    (points readWords (position readWords before) file).destutter' Position.Differs a =
      a :: (moves before file).map Move.target := by
  induction file generalizing before a
  case nil => rfl
  case cons line file ih =>
    rw [points, moves, ← position_concat]
    by_cases ha : NamesAxis (readWords line)
    case pos =>
      have hd : a.Differs (position readWords (before ++ [line])) ↔ Moves before line := by
        rw [h.differs_iff .refl, Moves, and_iff_right ha]
      rw [if_pos ha]
      by_cases hm : Moves before line
      case pos => rw [List.destutter'_cons_pos _ (hd.mpr hm), if_pos hm, ih .refl]; rfl
      case neg =>
        have hn := hd.not.mpr hm
        rw [List.destutter'_cons_neg _ hn, if_neg hm, ih (Position.near_of_not_differs hn)]
    case neg =>
      have hp : position readWords (before ++ [line]) = position readWords before := by
        rw [position_concat, Position.move_of_not_namesAxis ha]
      have hm : ¬Moves before line := fun hm => ha hm.left
      rw [if_neg ha, if_neg hm]
      exact ih (hp ▸ h)

theorem points_congr (h : ∀ line ∈ lines, words line = words' line) :
    points words p lines = points words' p lines := by
  induction lines generalizing p
  case nil => rfl
  case cons line lines ih =>
    have ⟨hl, h⟩ := List.forall_mem_cons.mp h
    simp only [points, hl, ih h]

theorem codeWords_eq (h : line.head? = some ';' ∨ ';' ∉ line) :
    codeWords line = readWords line := by
  by_cases hc : line.head? = some ';'
  case pos =>
    have ⟨rest, hl⟩ := List.head?_eq_some_iff.mp hc
    rw [readWords, if_pos hc, hl]
    rfl
  case neg =>
    have hn : line.takeWhile (· ≠ ';') = line := by
      rw [List.takeWhile_eq_self_iff]
      intro c hl
      exact decide_eq_true fun he => (h.resolve_left hc) (he ▸ hl)
    rw [codeWords, readWords, if_neg hc, hn]

theorem toolpath_eq (h : NoInlineComments file) :
    toolpath codeWords file = (moves [] file).map Move.target := by
  have hp : points codeWords {} file = points readWords (position readWords []) file :=
    points_congr fun line hl => codeWords_eq (h line hl)
  have hd : (points readWords (position readWords []) file).destutter' Position.Differs {} =
      {} :: (moves [] file).map Move.target := destutter_points .refl
  rw [toolpath, hp]
  exact congrArg List.tail hd

theorem points_finite (hp : p.Finite) (h : WellFormed lines) :
    ∀ q ∈ points codeWords p lines, q.Finite := by
  induction lines generalizing p
  case nil => exact fun _ hq => absurd hq List.not_mem_nil
  case cons line lines ih =>
    have ⟨hl, h⟩ := List.forall_mem_cons.mp h
    have hm := hp.move hl
    rw [points]
    split
    case isTrue  => exact List.forall_mem_cons.mpr ⟨hm, ih hm h⟩
    case isFalse => exact ih hm h

theorem toolpath_finite (h : WellFormed file) : ∀ q ∈ toolpath codeWords file, q.Finite := by
  intro q hq
  have hq := (List.destutter'_sublist _ _ _).mem (List.mem_of_mem_tail hq)
  have hz : Position.Finite {} := ⟨.zero, .zero, .zero⟩
  cases List.mem_cons.mp hq
  case inl hq => exact hq ▸ hz
  case inr hq => exact points_finite hz h q hq

theorem loadGcode_near (hc : NoInlineComments file) (h : s.loadGcode file = some s') :
    List.Forall₂ (fun p seg => p.Near seg.target) (toolpath codeWords file) s'.programSegments := by
  rw [toolpath_eq hc, List.forall₂_map_left_iff]
  exact (loadGcode_executes h).imp fun _ _ hx => hx.target.symm

theorem toolpath_isChain : (toolpath codeWords file).IsChain Position.Differs :=
  (List.isChain_destutter' _ _ _).tail

theorem inRange_iff (hc : NoInlineComments file) :
    InRange codeWords file ↔ InRange readWords file := by
  refine forall₂_congr fun line hl => ?_
  rw [codeWords_eq (hc line hl)]

-- The segment ids are `uint32_t`.
theorem loadGcode_toolpath (hc : NoInlineComments file) (hw : WellFormed file) :
    ((s.loadGcode file).isSome = true ↔ InRange codeWords file) ∧
    ∀ s', s.loadGcode file = some s' →
      List.Forall₂ (fun p seg => Position.Same p seg.target)
        (toolpath codeWords file) s'.programSegments ∧
      s'.programSegments.map (·.segmentId.toNat) =
        (List.range' 1 s'.programSegments.length).map (· % 2 ^ 32) ∧
      (s'.programSegments.map (·.target)).IsChain Position.Differs := by
  refine ⟨loadGcode_isSome.trans (inRange_iff hc).symm, ?_⟩
  intro s' h
  have hn := loadGcode_near hc h
  refine ⟨?_, ?_, ?_⟩
  · refine ((List.forall₂_and_left _ _).mpr ⟨toolpath_finite hw, hn⟩).imp fun p seg hp => ?_
    exact (hp.right.symm.same_of_finite hp.left).symm
  · have hi := congrArg (List.map UInt32.toNat) (loadGcode_ids h)
    rw [List.map_map, List.map_map] at hi
    refine hi.trans (List.map_congr_left fun n _ => ?_)
    exact UInt32.toNat_ofNat
  · rw [List.isChain_map]
    exact hn.isChain (fun _ _ _ _ hp hq hd => (hp.differs_iff hq).mp hd) toolpath_isChain

theorem loadGcode_toolpath_square :
    let file := ["; a corner".toList, "G1 X1 Y1 Z0.5".toList, "E3 X1".toList, "G1 Y0".toList]
    (({} : MotionLoader).loadGcode file).isSome = true ∧ ∀ s',
      ({} : MotionLoader).loadGcode file = some s' →
        List.Forall₂ (fun p seg => Position.Same p seg.target)
          (toolpath codeWords file) s'.programSegments ∧
        s'.programSegments.map (·.segmentId.toNat) =
          (List.range' 1 s'.programSegments.length).map (· % 2 ^ 32) ∧
        (s'.programSegments.map (·.target)).IsChain Position.Differs := by
  intro file
  have hc : NoInlineComments file := by unfold NoInlineComments; decide +kernel
  have hw : WellFormed file := by unfold WellFormed; decide +kernel
  have hr : InRange codeWords file := by unfold InRange; decide +kernel
  have h := loadGcode_toolpath (s := {}) hc hw
  exact ⟨h.left.mpr hr, h.right⟩

def zigzag (n : Nat) : List (List Char) :=
  (List.replicate n ["X1".toList, "X0".toList]).flatten

theorem forall_zigzag {P : List Char → Prop} (hto : P "X1".toList) (hfro : P "X0".toList) :
    ∀ line ∈ zigzag n, P line := by
  intro line h
  have ⟨pair, hp, hl⟩ := List.mem_flatten.mp h
  rw [(List.mem_replicate.mp hp).right, List.mem_pair] at hl
  cases hl
  case inl hl => exact hl ▸ hto
  case inr hl => exact hl ▸ hfro

theorem moves_zigzag (h : position readWords before = {}) :
    (moves before (zigzag n)).length = 2 * n := by
  induction n generalizing before
  case zero => rfl
  case succ n ih =>
    have hto : Moves before "X1".toList := by
      rw [Moves, position_concat, h]
      decide +kernel
    have hfro : Moves (before ++ ["X1".toList]) "X0".toList := by
      simp only [Moves, position_concat, h]
      decide +kernel
    have hp : position readWords (before ++ ["X1".toList] ++ ["X0".toList]) = {} := by
      rw [position_concat, position_concat, h]
      decide +kernel
    have hz : zigzag (n + 1) = "X1".toList :: "X0".toList :: zigzag n := rfl
    rw [hz, moves, if_pos hto, moves, if_pos hfro, List.length_cons, List.length_cons, ih hp,
      Nat.mul_succ]

-- The id after `2 ^ 32 - 1` is zero.
theorem loadGcode_numbered_fails :
    ¬∀ file, NoInlineComments file → WellFormed file → ∀ s s' : MotionLoader,
      s.loadGcode file = some s' →
        List.Forall₂ (fun p seg => Position.Same p seg.target)
          (toolpath codeWords file) s'.programSegments ∧
        s'.programSegments.map (·.segmentId.toNat) =
          List.range' 1 s'.programSegments.length ∧
        (s'.programSegments.map (·.target)).IsChain Position.Differs := by
  intro h
  let file := zigzag (2 ^ 31)
  have hc : NoInlineComments file := forall_zigzag (by decide) (by decide)
  have hw : WellFormed file := forall_zigzag (by decide +kernel) (by decide +kernel)
  have hr : InRange readWords file := forall_zigzag (by decide +kernel) (by decide +kernel)
  have ⟨s', hs⟩ := Option.isSome_iff_exists.mp (loadGcode_isSome (s := {}).mpr hr)
  have hn : s'.programSegments.length = 2 ^ 32 :=
    (loadGcode_executes hs).length_eq.symm.trans (moves_zigzag rfl)
  have hi : 2 ^ 32 ∈ s'.programSegments.map (·.segmentId.toNat) := by
    rw [(h file hc hw {} s' hs).right.left, hn, List.mem_range'_1]
    decide
  have ⟨seg, _, hl⟩ := List.mem_map.mp hi
  exact absurd hl (Nat.ne_of_lt seg.segmentId.toNat_lt)

end Program
