import MobilePrinter.Library.Lists
import MobilePrinter.Program.Theorems.Reading

namespace Program

open Firmware (Double)

variable {before file lines : List (List Char)} {line : List Char} {m : Move}

theorem moves_concat : moves before (file ++ [line]) = moves before file ++
    if Moves (before ++ file) line then [⟨before ++ file, line⟩] else [] := by
  induction file generalizing before
  case nil =>
    rw [List.append_nil]
    rfl
  case cons l file ih =>
    rw [List.cons_append, moves, moves, ih, List.append_assoc, List.singleton_append]
    split
    case isTrue  => rfl
    case isFalse => rfl

theorem moves_concat_of_moves (h : Moves lines line) :
    moves [] (lines ++ [line]) = moves [] lines ++ [⟨lines, line⟩] := by
  rw [moves_concat, List.nil_append, if_pos h]

theorem moves_concat_of_stays (h : ¬Moves lines line) :
    moves [] (lines ++ [line]) = moves [] lines := by
  rw [moves_concat, List.nil_append, if_neg h, List.append_nil]

theorem mem_moves (h : m ∈ moves before file) :
    ∃ rest, before ++ file = m.before ++ m.line :: rest := by
  induction file generalizing before
  case nil => cases h
  case cons l file ih =>
    have hl : m = ⟨before, l⟩ ∨ m ∈ moves (before ++ [l]) file := by
      rw [moves] at h
      split at h
      case isTrue  => exact List.mem_cons.mp h
      case isFalse => exact .inr h
    cases hl
    case inl h => exact ⟨file, by rw [h]⟩
    case inr h =>
      have ⟨rest, hr⟩ := ih h
      exact ⟨rest, by rw [← hr, List.append_assoc, List.singleton_append]⟩

-- The segment of a move. Its target is the position behind the line, but the feedrate and the
-- extrusion follow only from words on lines that move the tool.
structure Executes (m : Move) (seg : MotionSegment) : Prop where
  target    : seg.target.Near (position readWords (m.before ++ [m.line]))
  feedrate  : seg.feedrate = feedrate readWords (movingLines m.before ++ [m.line])
  extrusion : seg.extrusion =
    extrusionOf (readWords m.line) (absoluteE readWords (movingLines m.before))

def Parser.planner (s : Parser) : Planner :=
  s.lines.foldl Planner.plan {}

-- The state of both passes behind some lines of the file.
structure Follows (lines : List (List Char)) (s : Parser) : Prop where
  near      : s.last.Near (position readWords lines)
  last      : s.planner.last = s.last
  feedrate  : s.planner.cf = feedrate readWords (movingLines lines)
  absoluteE : s.planner.ce = absoluteE readWords (movingLines lines)
  id        : s.planner.id = .ofNat (s.planner.segments.length + 1)
  ids       : s.planner.segments.map (·.segmentId) =
    (List.range' 1 s.planner.segments.length).map UInt32.ofNat
  executes  : List.Forall₂ Executes (moves [] lines) (s.planner.segments.map (·.toMotionSegment))

namespace Follows

variable {s s' : Parser}

theorem nil : Follows [] {} where
  near      := .refl
  last      := rfl
  feedrate  := rfl
  absoluteE := rfl
  id        := rfl
  ids       := rfl
  executes  := .nil

theorem moves_iff (h : Follows lines s) : Moves lines line ↔
    NamesAxis (readWords line) ∧ s.last.Differs (s.last.move (readWords line)) := by
  rw [Moves, position_concat, h.near.differs_iff (h.near.move _)]

theorem stays (h : Follows lines s) (hm : ¬Moves lines line) : Follows (lines ++ [line]) s := by
  have hl : movingLines (lines ++ [line]) = movingLines lines := by
    rw [movingLines, moves_concat_of_stays hm]
    rfl
  have hn : s.last.Near (s.last.move (readWords line)) := by
    by_cases ha : NamesAxis (readWords line)
    case pos => exact Position.near_of_not_differs fun hd => hm (h.moves_iff.mpr ⟨ha, hd⟩)
    case neg => rw [Position.move_of_not_namesAxis ha]; exact .refl
  exact {
    near      := by rw [position_concat]; exact hn.trans (h.near.move _)
    last      := h.last
    feedrate  := by rw [hl, h.feedrate]
    absoluteE := by rw [hl, h.absoluteE]
    id        := h.id
    ids       := h.ids
    executes  := by rw [moves_concat_of_stays hm]; exact h.executes }

theorem step (h : Follows lines s) (hs : s.parseLine line = some s') :
    Follows (lines ++ [line]) s' := by
  by_cases hm : Moves lines line
  case neg => exact Parser.parseLine_stays hs (h.moves_iff.not.mp hm) ▸ h.stays hm
  case pos =>
    have ⟨ha, hd⟩ := h.moves_iff.mp hm
    have ⟨g, hp⟩ := Parser.parseLine_pushes hs ha hd
    have hg : s'.planner = s.planner.plan g := by
      rw [Parser.planner, hp.lines, List.foldl_append]
      rfl
    have ⟨seg, hl⟩ := Planner.plan_plans (l := s.planner) hp.holds ha
    rw [← hg] at hl
    have hm' : movingLines (lines ++ [line]) = movingLines lines ++ [line] := by
      rw [movingLines, moves_concat_of_moves hm, List.map_append]
      rfl
    have hf : s'.planner.cf = Program.feedrate readWords (movingLines lines ++ [line]) := by
      rw [hl.feedrate, h.feedrate, feedrate_concat]
    have hp' : s'.planner.last = s'.last := by
      rw [hl.last, h.last, hp.last]
    have hn : s'.last.Near (position readWords (lines ++ [line])) := by
      rw [hp.last, position_concat]
      exact h.near.move _
    have hx : Executes ⟨lines, line⟩ seg.toMotionSegment := {
      target    := by rw [hl.target, hp']; exact hn
      feedrate  := hl.speed.trans hf
      extrusion := by rw [hl.extrusion, h.absoluteE] }
    exact {
      near      := hn
      last      := hp'
      feedrate  := by rw [hf, hm']
      absoluteE := by rw [hl.absoluteE, h.absoluteE, hm', absoluteE_concat]
      id        := by
        rw [hl.id, h.id, hl.segments, List.length_append, List.length_singleton]
        exact (UInt32.ofNat_add _ 1).symm
      ids       := by
        rw [hl.segments, List.map_append, h.ids, List.length_append, List.length_singleton,
          List.range'_concat, List.map_append]
        simp [hl.segmentId, h.id, Nat.add_comm]
      executes  := by
        rw [moves_concat_of_moves hm, hl.segments, List.map_append]
        exact List.rel_append h.executes (.cons hx .nil) }

theorem run (h : Follows lines s) (hs : file.foldlM Parser.parseLine s = some s') :
    Follows (lines ++ file) s' := by
  induction file generalizing lines s
  case nil =>
    cases hs
    rwa [List.append_nil]
  case cons line file ih =>
    have ⟨s₁, hs₁, hs⟩ := Option.bind_eq_some_iff.mp hs
    have hr := ih (h.step hs₁) hs
    rwa [List.append_assoc, List.singleton_append] at hr

end Follows

variable {s s' : MotionLoader}

theorem loadGcode_follows (h : s.loadGcode file = some s') :
    ∃ p, Follows file p ∧ s'.programSegments = p.planner.segments.map (·.toMotionSegment) := by
  rw [MotionLoader.loadGcode, parseGcode, Option.map_map, Option.map_eq_some_iff] at h
  have ⟨p, hp, hs⟩ := h
  exact ⟨p, Follows.nil.run hp, hs ▸ rfl⟩

theorem loadGcode_executes (h : s.loadGcode file = some s') :
    List.Forall₂ Executes (moves [] file) s'.programSegments := by
  have ⟨p, hp, hs⟩ := loadGcode_follows h
  exact hs ▸ hp.executes

theorem loadGcode_ids (h : s.loadGcode file = some s') : s'.programSegments.map (·.segmentId) =
    (List.range' 1 s'.programSegments.length).map UInt32.ofNat := by
  have ⟨p, hp, hs⟩ := loadGcode_follows h
  rw [hs, List.length_map, List.map_map]
  exact hp.ids

theorem parseLine_isSome {p : Parser} : (p.parseLine line).isSome = true ↔
    ∀ w ∈ readWords line, Lettered w → (stod w.tail).isSome = true := by
  rw [Parser.parseLine_words, Option.isSome_map]
  exact List.isSome_foldlM fun _ _ => GCodeLine.readToken_isSome

theorem parseGcode_isSome : (parseGcode file).isSome = true ↔ InRange readWords file := by
  rw [parseGcode, Option.isSome_map]
  exact List.isSome_foldlM fun _ _ => parseLine_isSome

theorem loadGcode_isSome : (s.loadGcode file).isSome = true ↔ InRange readWords file := by
  rw [MotionLoader.loadGcode, Option.isSome_map]
  exact parseGcode_isSome

end Program
