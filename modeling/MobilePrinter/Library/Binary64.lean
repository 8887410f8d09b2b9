import Mathlib.Algebra.Group.Nat.Defs
import Mathlib.Tactic.Basic

namespace Binary64

def infinity : Nat := 0x7FF0000000000000

def quietNaN : Nat := 0x7FF8000000000000

def magnitude (x : UInt64) : Nat :=
  x.toNat % 2 ^ 63

def negative (x : UInt64) : Bool :=
  decide (2 ^ 63 ≤ x.toNat)

def ofMagnitude (negative : Bool) (m : Nat) : UInt64 :=
  .ofNat (if negative then 2 ^ 63 + m else m)

def isNaN (x : UInt64) : Bool :=
  decide (infinity < magnitude x)

def Finite (x : UInt64) : Prop :=
  magnitude x < infinity

def units (m : Nat) : Nat :=
  if m < 2 ^ 52 then m else (2 ^ 52 + m % 2 ^ 52) * 2 ^ (m / 2 ^ 52 - 1)

def value (x : UInt64) : Int :=
  if negative x then -units (magnitude x) else units (magnitude x)

-- The integer nearest to `n / d`, and the even one of two.
def nearest (n d : Nat) : Nat :=
  if d < 2 * (n % d) || (2 * (n % d) == d && n / d % 2 == 1) then n / d + 1 else n / d

-- The magnitude nearest to `n / d` units.
def round (n d : Nat) : Nat :=
  let shift := (n / d).log2 - 52
  min (shift * 2 ^ 52 + nearest n (d * 2 ^ shift)) infinity

-- Zeros are equal, and a NaN is not equal to itself.
def eq (x y : UInt64) : Bool :=
  !isNaN x && !isNaN y && (x == y || (magnitude x == 0 && magnitude y == 0))

def sub (x y : UInt64) : UInt64 :=
  if isNaN x || isNaN y then
    ofMagnitude false quietNaN
  else if magnitude x == infinity then
    if magnitude y == infinity && negative x == negative y then ofMagnitude false quietNaN else x
  else if magnitude y == infinity then
    ofMagnitude (!negative y) infinity
  else
    let difference := value x - value y
    if difference = 0
    then ofMagnitude (negative x && !negative y) 0
    else ofMagnitude (decide (difference < 0)) (round difference.natAbs 1)

def div (x y : UInt64) : UInt64 :=
  let sign := negative x != negative y
  if isNaN x || isNaN y then
    ofMagnitude false quietNaN
  else if magnitude x == infinity then
    if magnitude y == infinity then ofMagnitude false quietNaN else ofMagnitude sign infinity
  else if magnitude y == infinity then
    ofMagnitude sign 0
  else if magnitude y == 0 then
    if magnitude x == 0 then ofMagnitude false quietNaN else ofMagnitude sign infinity
  else
    ofMagnitude sign (round (units (magnitude x) * 2 ^ 1074) (units (magnitude y)))

-- The numerator and the denominator of `m * 10 ^ e` and of `m * 2 ^ e` in units.
def decimal (m : Nat) (e : Int) : Nat × Nat :=
  (m * 10 ^ e.toNat * 2 ^ 1074, 10 ^ (-e).toNat)

def binary (m : Nat) (e : Int) : Nat × Nat :=
  (m * 2 ^ (e + 1074).toNat, 2 ^ (-(e + 1074)).toNat)

-- Whether the quotient would still be below the least normal magnitude if it were rounded to 53
-- bits. It need not be if it is within a quarter of a unit of that magnitude.
def tiny (n d : Nat) : Bool :=
  decide (4 * n < (2 ^ 54 - 1) * d)

-- The magnitude of a numeral, unless it overflows, or is tiny and not exact.
def convert (q : Nat × Nat) : Option Nat :=
  let m := round q.1 q.2
  if m == infinity || (tiny q.1 q.2 && q.1 != m * q.2) then none else some m

variable {x y z : UInt64}

theorem magnitude_ofMagnitude (h : m < 2 ^ 63) : magnitude (ofMagnitude sign m) = m := by
  cases sign <;> simp only [magnitude, ofMagnitude, UInt64.toNat_ofNat'] <;> grind

theorem eq_comm (h : eq x y = true) : eq y x = true := by
  grind [eq]

theorem eq_trans (h : eq x y = true) (h' : eq y z = true) : eq x z = true := by
  grind [eq]

theorem Finite.eq_self (h : Finite x) : eq x x = true := by
  have hn : isNaN x = false := decide_eq_false (Nat.lt_asymm h)
  simp [eq, hn]

theorem sub_self (h : Finite x) : sub x x = 0 := by
  have hn : isNaN x = false := decide_eq_false (Nat.lt_asymm h)
  have hi : (magnitude x == infinity) = false := beq_false_of_ne (Nat.ne_of_lt h)
  simp [sub, hn, hi, ofMagnitude]

theorem convert_lt (h : convert q = some m) : m < infinity := by
  simp only [convert] at h
  split at h
  case isTrue  => cases h
  case isFalse hm =>
    cases h
    have hi : round q.1 q.2 ≠ infinity := fun hi => hm (by simp [hi])
    exact Nat.lt_of_le_of_ne (Nat.min_le_right _ _) hi

-- Both numerals round to the least normal magnitude.
example : convert (decimal 22250738585072012 (-324)) = none ∧
    convert (decimal 22250738585072014 (-324)) = some (2 ^ 52) := by decide +kernel

end Binary64
