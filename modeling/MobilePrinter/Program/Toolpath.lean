import Mathlib.Data.List.Destutter
import MobilePrinter.Program.GcodeParser

-- What a G-code file asks for: a word stays in force until the next one with its letter.

namespace Program

open Firmware (Double)

-- The words of a line as G-code has them, and as the parser takes them.
def codeWords (line : List Char) : List (List Char) :=
  Strtod.words (line.takeWhile (· ≠ ';'))

def readWords (line : List Char) : List (List Char) :=
  if line.head? = some ';' then [] else Strtod.words line

-- The letters of the words that a file is made of.
def letters : List Char :=
  ['X', 'Y', 'Z', 'E', 'F']

def Lettered (word : List Char) : Prop :=
  ∃ letter ∈ letters, word.head? = some letter

instance : DecidablePred Lettered :=
  fun _ => List.decidableBEx _ _

def WellFormed (file : List (List Char)) : Prop :=
  ∀ line ∈ file, ∀ w ∈ codeWords line, Lettered w → Strtod.isDecimal w.tail

-- No number of a file is too large or too small for a `double`.
def InRange (words : List Char → List (List Char)) (file : List (List Char)) : Prop :=
  ∀ line ∈ file, ∀ w ∈ words line, Lettered w → (stod w.tail).isSome

-- Comments take up whole lines.
def NoInlineComments (file : List (List Char)) : Prop :=
  ∀ line ∈ file, line.head? = some ';' ∨ ';' ∉ line

-- The number in a word with the letter.
def number (letter : Char) (word : List Char) : Option Double :=
  if word.head? = some letter then stod word.tail else none

-- The last word with the letter wins.
def named (letter : Char) (ws : List (List Char)) : Option Double :=
  (ws.filterMap (number letter)).getLast?

def NamesAxis (ws : List (List Char)) : Prop :=
  ∃ letter ∈ ['X', 'Y', 'Z'], (named letter ws).isSome

instance : DecidablePred NamesAxis :=
  fun _ => List.decidableBEx _ _

structure Position where
  x : Double := ⟨0⟩
  y : Double := ⟨0⟩
  z : Double := ⟨0⟩
  deriving DecidableEq, Repr

namespace Position

-- The coordinates are equal as numbers.
def Same (p q : Position) : Prop :=
  p.x.eq q.x ∧ p.y.eq q.y ∧ p.z.eq q.z

instance : DecidableRel Same :=
  fun _ _ => inferInstanceAs (Decidable (_ ∧ _))

def Differs (p q : Position) : Prop :=
  ¬p.Same q

instance : DecidableRel Differs :=
  fun _ _ => inferInstanceAs (Decidable (¬_))

-- The words of a line change the coordinates that they name.
def move (p : Position) (ws : List (List Char)) : Position where
  x := (named 'X' ws).getD p.x
  y := (named 'Y' ws).getD p.y
  z := (named 'Z' ws).getD p.z

end Position

section
variable (words : List Char → List (List Char))

def position (lines : List (List Char)) : Position :=
  lines.foldl (fun p line => p.move (words line)) {}

-- One point for each line that names an axis.
def points (p : Position) : List (List Char) → List Position
  | []            => []
  | line :: lines =>
    let q := p.move (words line)
    if NamesAxis (words line) then q :: points q lines else points q lines

-- The targets of a file: its points without those that repeat the one before.
def toolpath (lines : List (List Char)) : List Position :=
  ((points words {} lines).destutter' Position.Differs {}).tail

-- The word in force behind the lines.
def inForce (letter : Char) (lines : List (List Char)) : Option Double :=
  named letter (lines.flatMap words)

def feedrate (lines : List (List Char)) : Double :=
  match inForce words 'F' lines with
  | none   => 0.05
  | some f => f / 1000.0 / 60.0

def absoluteE (lines : List (List Char)) : Double :=
  (inForce words 'E' lines).getD ⟨0⟩

end

-- A line that moves the tool, and the lines before it.
structure Move where
  before : List (List Char)
  line   : List Char

-- Whether the parser takes the next line for a move.
def Moves (before : List (List Char)) (line : List Char) : Prop :=
  NamesAxis (readWords line) ∧
    (position readWords before).Differs (position readWords (before ++ [line]))

instance : Decidable (Moves before line) :=
  inferInstanceAs (Decidable (_ ∧ _))

def moves (before : List (List Char)) : List (List Char) → List Move
  | []           => []
  | line :: file =>
    if Moves before line
    then ⟨before, line⟩ :: moves (before ++ [line]) file
    else moves (before ++ [line]) file

-- The lines of a file that move the tool.
def movingLines (file : List (List Char)) : List (List Char) :=
  (moves [] file).map Move.line

end Program
