import Mathlib.Tactic.ByContra
import MobilePrinter.Library.Binary64

namespace Strtod

-- `isspace` in the "C" locale.
def isSpace (c : Char) : Bool :=
  c == ' ' || (decide ('\t' ≤ c) && decide (c ≤ '\r'))

def wordsFrom (word : List Char) : List Char → List (List Char)
  | []      => if word = [] then [] else [word]
  | c :: cs =>
    if isSpace c
    then (if word = [] then [] else [word]) ++ wordsFrom [] cs
    else wordsFrom (word ++ [c]) cs

def words (line : List Char) : List (List Char) :=
  wordsFrom [] line

def digit? (base : Nat) (c : Char) : Option Nat :=
  let d :=
    if c.isDigit then c.toNat - '0'.toNat
    else if c.isAlpha then c.toLower.toNat - 'a'.toNat + 10
    else base
  if d < base then some d else none

def isDigit (base : Nat) (c : Char) : Bool :=
  (digit? base c).isSome

def ofDigits (base : Nat) (digits : List Char) : Nat :=
  digits.foldl (fun n c => n * base + (digit? base c).getD 0) 0

def sign : List Char → Bool × List Char
  | '-' :: s => (true, s)
  | '+' :: s => (false, s)
  | s        => (false, s)

-- The digits before and behind the point, and what is behind them.
def mantissa (base : Nat) (s : List Char) : List Char × List Char × List Char :=
  match s.dropWhile (isDigit base) with
  | '.' :: t =>
    (s.takeWhile (isDigit base), t.takeWhile (isDigit base), t.dropWhile (isDigit base))
  | t        => (s.takeWhile (isDigit base), [], t)

-- An exponent that lacks its digits does not belong to the number.
def exponent (marker : Char) : List Char → Int
  | []     => 0
  | c :: s =>
    let digits := (sign s).2.takeWhile (isDigit 10)
    if c.toLower == marker && !digits.isEmpty then
      if (sign s).1 then -ofDigits 10 digits else ofDigits 10 digits
    else
      0

inductive Numeral
  | decimal (mantissa : Nat) (exponent : Int)
  | hexadecimal (mantissa : Nat) (exponent : Int)
  | infinity
  | nan
  deriving DecidableEq, Repr

def scanDecimal (s : List Char) : Option Numeral :=
  let (int, frac, rest) := mantissa 10 s
  if int ++ frac = [] then
    none
  else
    some (.decimal (ofDigits 10 (int ++ frac)) (exponent 'e' rest - frac.length))

-- Without any digits, only the zero of the prefix is a number.
def scanHexadecimal : List Char → Option Numeral
  | '0' :: x :: s =>
    let (int, frac, rest) := mantissa 16 s
    if x.toLower != 'x' || int ++ frac = [] then
      none
    else
      some (.hexadecimal (ofDigits 16 (int ++ frac)) (exponent 'p' rest - 4 * frac.length))
  | _ => none

def scanWord (s : List Char) : Option Numeral :=
  match (s.take 3).map Char.toLower with
  | ['i', 'n', 'f'] => some .infinity
  | ['n', 'a', 'n'] => some .nan
  | _               => none

-- The longest numeral at the front, without its sign.
def scan (s : List Char) : Option Numeral :=
  scanHexadecimal s <|> scanWord s <|> scanDecimal s

def Numeral.magnitude : Numeral → Option Nat
  | .decimal m e     => Binary64.convert (Binary64.decimal m e)
  | .hexadecimal m e => Binary64.convert (Binary64.binary m e)
  | .infinity        => some Binary64.infinity
  | .nan             => some Binary64.quietNaN

-- `std::stod` for a string that does not begin with white space. `none` stands for its exceptions.
def stod (s : List Char) : Option UInt64 :=
  ((scan (sign s).2).bind Numeral.magnitude).map (Binary64.ofMagnitude (sign s).1)

-- A number in decimal notation without an exponent.
def isDecimal (s : List Char) : Bool :=
  let (int, frac, rest) := mantissa 10 (sign s).2
  !(int ++ frac).isEmpty && rest.isEmpty

variable {a b s : List Char} {c : Char}

theorem wordsFrom_append (hc : isSpace c = true) :
    wordsFrom s (a ++ c :: b) = wordsFrom s a ++ words b := by
  induction a generalizing s
  case nil =>
    simp only [List.nil_append, wordsFrom, hc, if_true]
    rfl
  case cons d a ih =>
    rw [List.cons_append, wordsFrom, wordsFrom]
    split
    case isTrue  => rw [ih, List.append_assoc]
    case isFalse => exact ih

theorem words_append (hc : isSpace c = true) : words (a ++ c :: b) = words a ++ words b :=
  wordsFrom_append hc

theorem wordsFrom_ne_nil (h : s ≠ []) : ∃ v ∈ wordsFrom s a, s <+: v := by
  induction a generalizing s
  case nil =>
    rw [wordsFrom, if_neg h]
    exact ⟨s, List.mem_singleton_self s, List.prefix_rfl⟩
  case cons c a ih =>
    rw [wordsFrom]
    split
    case isTrue => exact ⟨s, by simp, List.prefix_rfl⟩
    case isFalse =>
      have ⟨v, hv, hp⟩ := ih (List.append_ne_nil_of_right_ne_nil s (List.cons_ne_nil c []))
      exact ⟨v, hv, (List.prefix_append s [c]).trans hp⟩

theorem wordsFrom_prefix {w : List Char} (h : w ∈ wordsFrom s a) :
    ∃ v ∈ wordsFrom s (a ++ b), w <+: v := by
  induction a generalizing s
  case nil =>
    rw [wordsFrom] at h
    split at h
    case isTrue => cases h
    case isFalse hs =>
      rw [List.mem_singleton.mp h]
      exact wordsFrom_ne_nil hs
  case cons c a ih =>
    rw [wordsFrom] at h
    rw [List.cons_append, wordsFrom]
    split at h
    case isTrue hc =>
      rw [if_pos hc]
      cases List.mem_append.mp h
      case inl h => exact ⟨w, List.mem_append_left _ h, List.prefix_rfl⟩
      case inr h =>
        have ⟨v, hv, hp⟩ := ih h
        exact ⟨v, List.mem_append_right _ hv, hp⟩
    case isFalse hc =>
      rw [if_neg hc]
      exact ih h

theorem words_prefix {w : List Char} (h : w ∈ words a) : ∃ v ∈ words (a ++ b), w <+: v :=
  wordsFrom_prefix h

theorem isDigit_ten (h : isDigit 10 c = true) : c.isDigit = true := by
  simp only [isDigit, digit?] at h
  by_contra hn
  split at h <;> grind

theorem mantissa_cons (h : (mantissa 10 (c :: s)).2.2 = []) : c.isDigit = true ∨ c = '.' := by
  by_cases hd : isDigit 10 c = true
  case pos => exact .inl (isDigit_ten hd)
  case neg =>
    simp only [mantissa, List.dropWhile_cons, hd] at h
    split at h
    case h_1 t ht => exact .inr (List.cons.inj ht).left
    case h_2      => cases h

theorem mantissa_digit (h : isDigit 10 c = true) :
    (mantissa 10 (c :: s)).2.2 = (mantissa 10 s).2.2 := by
  simp only [mantissa, List.dropWhile_cons, h, if_true]
  split <;> rfl

theorem toLower_ne {d : Char} (h : c.isDigit = true ∨ c = '.') (hd : d.isLower = true) :
    c.toLower ≠ d := by
  have hd : 'a'.val ≤ d.val := of_decide_eq_true (Bool.and_eq_true_iff.mp hd).left
  have hc : c.val ≤ '9'.val := by
    cases h
    case inl h => exact of_decide_eq_true (Bool.and_eq_true_iff.mp h).right
    case inr h => subst h; decide
  have hu : c.toLower = c := dif_neg fun hu => absurd (UInt32.le_trans hu.left hc) (by decide)
  rw [hu]
  intro he
  subst he
  exact absurd (UInt32.le_trans hd hc) (by decide)

theorem scan_of_isDecimal (h : isDecimal s = true) :
    ∃ m e, scan (sign s).2 = some (.decimal m e) := by
  simp only [isDecimal, Bool.and_eq_true, Bool.not_eq_eq_eq_not, Bool.not_true,
    List.isEmpty_iff, List.isEmpty_eq_false_iff] at h
  generalize (sign s).2 = t at h
  have hd : scanDecimal t = some (.decimal (ofDigits 10 ((mantissa 10 t).1 ++ (mantissa 10 t).2.1))
      (exponent 'e' (mantissa 10 t).2.2 - (mantissa 10 t).2.1.length)) := if_neg h.left
  have hx : scanHexadecimal t = none := by
    simp only [scanHexadecimal]
    split
    case h_1 x u =>
      have hr := (mantissa_digit rfl).symm.trans h.right
      have hl : x.toLower ≠ 'x' := toLower_ne (mantissa_cons hr) rfl
      simp [hl]
    case h_2 => rfl
  have hw : scanWord t = none := by
    have hl {c : Char} {u : List Char} (ht : t = c :: u) : c.toLower ≠ 'i' ∧ c.toLower ≠ 'n' := by
      have hc := mantissa_cons (ht ▸ h.right)
      exact ⟨toLower_ne hc rfl, toLower_ne hc rfl⟩
    cases t
    case nil => rfl
    case cons c u =>
      have hl := hl rfl
      simp only [scanWord]
      split <;> simp_all
  exact ⟨_, _, by rw [scan, hx, hw]; exact hd⟩

theorem stod_finite (h : isDecimal s = true) (hx : stod s = some x) : Binary64.Finite x := by
  have ⟨m, e, hs⟩ := scan_of_isDecimal h
  rw [stod, hs, Option.bind_some, Numeral.magnitude, Option.map_eq_some_iff] at hx
  have ⟨a, ha, hx⟩ := hx
  have hi := Binary64.convert_lt ha
  have hb : a < 2 ^ 63 := Nat.lt_trans hi (by decide)
  rw [← hx, Binary64.Finite, Binary64.magnitude_ofMagnitude hb]
  exact hi

end Strtod
