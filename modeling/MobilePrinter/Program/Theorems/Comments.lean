import MobilePrinter.Program.Theorems.Planning

namespace Program

open Strtod (words)

variable {line t : List Char} {ws vs : List (List Char)} {g : GCodeLine} {gs : List GCodeLine}
  {s : Parser} {l : Char}

theorem GCodeLine.readToken_of_not_lettered {w : List Char} (h : ¬Lettered w) :
    g.readToken w = some g := by
  unfold readToken
  split
  case h_6 => rfl
  all_goals simp [Lettered, mem_letters] at h

theorem GCodeLine.readTokens_of_not_lettered (h : ∀ w ∈ ws, ¬Lettered w) :
    ws.foldlM readToken g = some g := by
  induction ws
  case nil => rfl
  case cons w ws ih =>
    have ⟨hw, h⟩ := List.forall_mem_cons.mp h
    rw [List.foldlM_cons, readToken_of_not_lettered hw]
    exact ih h

theorem readWords_comment : readWords (line ++ ' ' :: ';' :: t) =
    readWords line ++ if line.head? = some ';' then [] else words (';' :: t) := by
  have hh : (line ++ ' ' :: ';' :: t).head? = some ';' ↔ line.head? = some ';' := by
    cases line
    case nil      => simp
    case cons c _ => rfl
  rw [readWords, readWords]
  by_cases hc : line.head? = some ';'
  case pos => rw [if_pos (hh.mpr hc), if_pos hc, if_pos hc, List.append_nil]
  case neg =>
    rw [if_neg (hh.not.mpr hc), if_neg hc, if_neg hc]
    exact Strtod.words_append rfl

theorem parseLine_comment (h : ∀ w ∈ words (';' :: t), ¬Lettered w) :
    s.parseLine (line ++ ' ' :: ';' :: t) = s.parseLine line := by
  have hc : ∀ w ∈ if line.head? = some ';' then [] else words (';' :: t), ¬Lettered w := by
    split
    case isTrue  => simp
    case isFalse => exact h
  rw [Parser.parseLine_words, Parser.parseLine_words, readWords_comment, List.foldlM_append]
  simp only [GCodeLine.readTokens_of_not_lettered hc]
  exact congrArg _ (bind_pure _)

theorem parseGcode_holds (h : parseGcode [line] = some gs) :
    ∀ g ∈ gs, g.Holds (readWords line) := by
  have ⟨s, hs, hg⟩ := Option.map_eq_some_iff.mp h
  simp only [List.foldlM_cons, List.foldlM_nil, bind_pure] at hs
  by_cases hm : NamesAxis (readWords line) ∧
      Position.Differs (Parser.last {}) ((Parser.last {}).move (readWords line))
  case pos =>
    have ⟨g, hp⟩ := Parser.parseLine_pushes hs hm.left hm.right
    intro g' hg'
    rw [← hg, hp.lines] at hg'
    exact List.mem_singleton.mp hg' ▸ hp.holds
  case neg =>
    rw [← hg, Parser.parseLine_stays hs hm]
    exact fun g hg => absurd hg List.not_mem_nil

theorem parseGcode_comment_number {w : List Char} (hc : line.head? ≠ some ';')
    (hw : w ∈ words (';' :: t)) (hl : l ∈ letters) (hh : w.head? = some l)
    (h : parseGcode [line ++ ' ' :: ';' :: t] = some gs) : ∀ g ∈ gs, g.number l ≠ none := by
  intro g hg hn
  have hr : w ∈ readWords (line ++ ' ' :: ';' :: t) := by
    rw [readWords_comment, if_neg hc]
    exact List.mem_append_right _ hw
  rw [parseGcode_holds h g hg l hl] at hn
  have hs := parseGcode_isSome.mp (Option.isSome_of_mem h) _ (List.mem_singleton_self _) w hr
    ⟨l, hl, hh⟩
  rw [named_eq_none hn hr hh] at hs
  cases hs

-- A comment does no harm if and only if none of its words can be taken for one of the program.
theorem parseGcode_comment_iff (t : List Char) :
    (∀ before line after gs, parseGcode (before ++ line :: after) = some gs →
      parseGcode (before ++ (line ++ ' ' :: ';' :: t) :: after) = some gs) ↔
    ∀ w ∈ words (';' :: t), ¬Lettered w := by
  constructor
  case mpr =>
    intro h before line after gs hg
    rw [← hg, parseGcode, parseGcode]
    simp only [List.foldlM_append, List.foldlM_cons, parseLine_comment h]
  case mp =>
    intro h w hw hl
    obtain ⟨l, hl, hh⟩ := hl
    by_cases hx : l = 'X'
    case pos =>
      subst hx
      have hy : parseGcode ["Y1".toList] = some [{ y := 1.0, hasY := true }] := by decide +kernel
      have hc := h [] _ [] _ hy
      exact parseGcode_comment_number (by decide) hw hl hh hc _ (List.mem_singleton_self _) rfl
    case neg =>
      have hy : parseGcode ["X1".toList] = some [{ x := 1.0, hasX := true }] := by decide +kernel
      have hc := h [] _ [] _ hy
      refine parseGcode_comment_number (by decide) hw hl hh hc _ (List.mem_singleton_self _) ?_
      obtain rfl | rfl | rfl | rfl | rfl := mem_letters.mp hl
      case inl => exact absurd rfl hx
      all_goals rfl

-- "Extruder" is taken for an E word, and is not a number.
theorem parseGcode_comment_fails :
    ¬∀ before line after gs t, parseGcode (before ++ line :: after) = some gs →
      parseGcode (before ++ (line ++ ' ' :: ';' :: t) :: after) = some gs := by
  intro h
  have hg : parseGcode ["M82".toList] = some [] := by decide +kernel
  have hc := h [] _ [] [] " Extruder".toList hg
  exact absurd hc (by decide +kernel)

end Program
