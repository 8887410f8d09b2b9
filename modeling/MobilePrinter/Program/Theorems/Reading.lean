import MobilePrinter.Program.MotionLoader
import MobilePrinter.Program.Theorems.Words

namespace Program

open Firmware (Double)

namespace GCodeLine

variable {g g' : GCodeLine} {l : Char} {w : List Char} {ws : List (List Char)}

def number (g : GCodeLine) : Char → Option Double
  | 'X' => if g.hasX then some g.x else none
  | 'Y' => if g.hasY then some g.y else none
  | 'Z' => if g.hasZ then some g.z else none
  | 'E' => if g.hasE then some g.e else none
  | 'F' => if g.hasF then some g.f else none
  | _   => none

def position (g : GCodeLine) : Position :=
  ⟨g.x, g.y, g.z⟩

theorem head_ne (hl : l ∈ letters) (hx : ∀ s, w ≠ 'X' :: s) (hy : ∀ s, w ≠ 'Y' :: s)
    (hz : ∀ s, w ≠ 'Z' :: s) (he : ∀ s, w ≠ 'E' :: s) (hf : ∀ s, w ≠ 'F' :: s) :
    w.head? ≠ some l := by
  intro hw
  have ⟨s, hs⟩ := List.head?_eq_some_iff.mp hw
  obtain rfl | rfl | rfl | rfl | rfl := mem_letters.mp hl
  case inl             => exact hx s hs
  case inr.inl         => exact hy s hs
  case inr.inr.inl     => exact hz s hs
  case inr.inr.inr.inl => exact he s hs
  case inr.inr.inr.inr => exact hf s hs

theorem readToken_isSome :
    (g.readToken w).isSome = true ↔ (Lettered w → (stod w.tail).isSome = true) := by
  unfold readToken
  split
  case h_6 hx hy hz he hf =>
    refine iff_of_true rfl ?_
    rintro ⟨l, hl, hw⟩
    exact absurd hw (head_ne hl hx hy hz he hf)
  all_goals simp [Lettered, mem_letters]

def Holds (g : GCodeLine) (ws : List (List Char)) : Prop :=
  ∀ l ∈ letters, g.number l = named l ws

theorem readToken_number (h : g.readToken w = some g') (hl : l ∈ letters) :
    g'.number l = (Program.number l w).or (g.number l) := by
  unfold readToken at h
  split at h
  case h_6 hx hy hz he hf =>
    cases h
    rw [Program.number, if_neg (head_ne hl hx hy hz he hf), Option.none_or]
  all_goals
    obtain ⟨x, hx, rfl⟩ := Option.map_eq_some_iff.mp h
    obtain rfl | rfl | rfl | rfl | rfl := mem_letters.mp hl <;> simp [number, Program.number, hx]

theorem readTokens_number (h : ws.foldlM readToken g = some g') (hl : l ∈ letters) :
    g'.number l = (named l ws).or (g.number l) := by
  induction ws generalizing g
  case nil =>
    cases h
    rfl
  case cons w ws ih =>
    have ⟨g₁, hg, h⟩ := Option.bind_eq_some_iff.mp h
    rw [ih h, readToken_number hg hl, named_cons, Option.or_assoc]

theorem readTokens_holds (h : ws.foldlM readToken {} = some g) : g.Holds ws := by
  intro l hl
  have hn : number {} l = none := by
    obtain rfl | rfl | rfl | rfl | rfl := mem_letters.mp hl <;> rfl
  rw [readTokens_number h hl, hn, Option.or_none]

theorem Holds.axes (h : g.Holds ws) :
    g.number 'X' = named 'X' ws ∧ g.number 'Y' = named 'Y' ws ∧ g.number 'Z' = named 'Z' ws :=
  ⟨h _ (by decide), h _ (by decide), h _ (by decide)⟩

end GCodeLine

namespace Parser

variable {s s' : Parser} {g : GCodeLine} {line : List Char} {ws : List (List Char)}

def last (s : Parser) : Position :=
  ⟨s.lastX, s.lastY, s.lastZ⟩

theorem fill_position (h : g.Holds ws) : (s.fill g).position = s.last.move ws := by
  have ⟨hx, hy, hz⟩ := h.axes
  simp only [GCodeLine.position, fill, last, Position.move, ← hx, ← hy, ← hz, GCodeLine.number]
  cases g.hasX <;> cases g.hasY <;> cases g.hasZ <;> rfl

theorem fill_holds (h : g.Holds ws) : (s.fill g).Holds ws := by
  intro l hl
  rw [← h l hl]
  obtain rfl | rfl | rfl | rfl | rfl := mem_letters.mp hl <;>
    simp only [GCodeLine.number, fill] <;> grind

theorem push_of_differs (h : s.last.Differs g.position) :
    s.push g = ⟨s.lines ++ [g], g.x, g.y, g.z⟩ := by
  refine if_pos ?_
  by_contra hn
  simp only [Bool.or_eq_true, Bool.not_eq_true', not_or, Bool.not_eq_false, and_assoc] at hn
  exact h (Position.Same.symm hn)

theorem push_of_same (h : ¬s.last.Differs g.position) : s.push g = s := by
  refine if_neg ?_
  have ⟨hx, hy, hz⟩ := (not_not.mp h).symm
  simp only [last, GCodeLine.position] at hx hy hz
  simp [hx, hy, hz]

theorem parseLine_words : s.parseLine line =
    ((readWords line).foldlM GCodeLine.readToken {}).map fun g =>
      if g.hasX || g.hasY || g.hasZ then s.push (s.fill g) else s := by
  unfold parseLine readWords
  split
  case isTrue h =>
    cases h
    case inl h => subst h; rfl
    case inr h => rw [if_pos h]; rfl
  case isFalse h => rw [if_neg (not_or.mp h).right]

theorem namesAxis_iff (h : g.Holds ws) : NamesAxis ws ↔ (g.hasX || g.hasY || g.hasZ) = true := by
  have ⟨hx, hy, hz⟩ := h.axes
  simp only [namesAxis_iff_named, ← hx, ← hy, ← hz, GCodeLine.number]
  cases g.hasX <;> cases g.hasY <;> cases g.hasZ <;> simp

structure Pushes (s s' : Parser) (ws : List (List Char)) (g : GCodeLine) : Prop where
  lines : s'.lines = s.lines ++ [g]
  last  : s'.last = s.last.move ws
  holds : g.Holds ws

theorem parseLine_pushes (h : s.parseLine line = some s') (ha : NamesAxis (readWords line))
    (hd : s.last.Differs (s.last.move (readWords line))) :
    ∃ g, s.Pushes s' (readWords line) g := by
  rw [parseLine_words, Option.map_eq_some_iff] at h
  have ⟨g, hg, hs⟩ := h
  have hh := GCodeLine.readTokens_holds hg
  have hp : (s.fill g).position = s.last.move (readWords line) := fill_position hh
  rw [if_pos ((namesAxis_iff hh).mp ha), push_of_differs (hp ▸ hd)] at hs
  exact ⟨s.fill g, { lines := hs ▸ rfl, last := hs ▸ hp, holds := fill_holds hh }⟩

theorem parseLine_stays (h : s.parseLine line = some s')
    (hd : ¬(NamesAxis (readWords line) ∧ s.last.Differs (s.last.move (readWords line)))) :
    s' = s := by
  rw [parseLine_words, Option.map_eq_some_iff] at h
  have ⟨g, hg, hs⟩ := h
  have hh := GCodeLine.readTokens_holds hg
  split at hs
  case isTrue ha =>
    have hp : (s.fill g).position = s.last.move (readWords line) := fill_position hh
    have hd : ¬s.last.Differs (s.fill g).position :=
      fun hn => hd ⟨(namesAxis_iff hh).mpr ha, hp ▸ hn⟩
    exact hs.symm.trans (push_of_same hd)
  case isFalse => exact hs.symm

end Parser

-- What the firmware is told of a segment.
namespace MotionSegment

def target (seg : MotionSegment) : Position :=
  ⟨(MotionLoader.fwSegment seg).x, (MotionLoader.fwSegment seg).y, (MotionLoader.fwSegment seg).z⟩

def extrusion (seg : MotionSegment) : Double :=
  (MotionLoader.fwSegment seg).extrusion

def feedrate (seg : MotionSegment) : Double :=
  (MotionLoader.fwSegment seg).feedrate

end MotionSegment

namespace Planner

variable {s s' : Parser} {l : Planner} {g : GCodeLine} {ws : List (List Char)}

def last (l : Planner) : Position :=
  ⟨l.cx, l.cy, l.cz⟩

structure Plans (l l' : Planner) (ws : List (List Char)) (seg : PlannedSegment) : Prop where
  segments  : l'.segments = l.segments ++ [seg]
  id        : l'.id = l.id + 1
  last      : l'.last = l.last.move ws
  feedrate  : l'.cf = feedrateOf ws l.cf
  absoluteE : l'.ce = (named 'E' ws).getD l.ce
  segmentId : seg.segmentId = l.id
  target    : seg.target = l'.last
  speed     : seg.toMotionSegment.feedrate = l'.cf
  extrusion : seg.toMotionSegment.extrusion = extrusionOf ws l.ce

theorem plan_plans (h : g.Holds ws) (ha : NamesAxis ws) : ∃ seg, l.Plans (l.plan g) ws seg := by
  have ⟨hx, hy, hz⟩ := h.axes
  have he := h 'E' (by decide)
  have hf := h 'F' (by decide)
  have hn : (!g.hasX && !g.hasY && !g.hasZ) ≠ true := by
    have ha := (Parser.namesAxis_iff h).mp ha
    grind
  simp only [plan, if_neg hn]
  refine ⟨_, {
    segments := rfl, id := rfl, last := ?last, feedrate := ?feedrate, absoluteE := ?absoluteE,
    segmentId := rfl, target := rfl, speed := rfl, extrusion := ?extrusion }⟩
  case last =>
    simp only [last, Position.move, ← hx, ← hy, ← hz, GCodeLine.number]
    cases g.hasX <;> cases g.hasY <;> cases g.hasZ <;> rfl
  case feedrate =>
    simp only [feedrateOf, ← hf, GCodeLine.number]
    cases g.hasF <;> rfl
  case absoluteE =>
    simp only [← he, GCodeLine.number]
    cases g.hasE <;> rfl
  case extrusion =>
    simp only [extrusionOf, ← he, GCodeLine.number]
    cases g.hasE <;> rfl

end Planner
end Program
