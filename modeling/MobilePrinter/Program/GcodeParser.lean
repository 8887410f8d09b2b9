import MobilePrinter.Firmware.MachineState
import MobilePrinter.Library.Strtod

-- `gcode_parser.cpp`, and the arithmetic of `double` that the program manager uses.

namespace Firmware.Double

instance : OfScientific Double where
  ofScientific m negative e :=
    let (n, d) := Binary64.decimal m (if negative then -e else e)
    ⟨Binary64.ofMagnitude false (Binary64.round n d)⟩

instance : Sub Double where
  sub x y := ⟨Binary64.sub x.bits y.bits⟩

instance : Div Double where
  div x y := ⟨Binary64.div x.bits y.bits⟩

-- `==` of numbers, which is not the equality of their bit patterns.
def eq (x y : Double) : Bool :=
  Binary64.eq x.bits y.bits

end Firmware.Double

namespace Program

open Firmware (Double)
open Strtod (words)

-- `none` stands for an exception.
def stod (s : List Char) : Option Double :=
  (Strtod.stod s).map Double.mk

structure GCodeLine where
  x    : Double := ⟨0⟩
  y    : Double := ⟨0⟩
  z    : Double := ⟨0⟩
  e    : Double := ⟨0⟩
  f    : Double := ⟨0⟩
  hasX : Bool   := false
  hasY : Bool   := false
  hasZ : Bool   := false
  hasE : Bool   := false
  hasF : Bool   := false
  deriving DecidableEq, Repr

def GCodeLine.readToken (g : GCodeLine) : List Char → Option GCodeLine
  | 'X' :: s => (stod s).map fun x => { g with x, hasX := true }
  | 'Y' :: s => (stod s).map fun y => { g with y, hasY := true }
  | 'Z' :: s => (stod s).map fun z => { g with z, hasZ := true }
  | 'E' :: s => (stod s).map fun e => { g with e, hasE := true }
  | 'F' :: s => (stod s).map fun f => { g with f, hasF := true }
  | _        => some g

-- What the loop over the lines keeps.
structure Parser where
  lines : List GCodeLine := []
  lastX : Double         := ⟨0⟩
  lastY : Double         := ⟨0⟩
  lastZ : Double         := ⟨0⟩

namespace Parser

-- fill missing values with last known
def fill (s : Parser) (g : GCodeLine) : GCodeLine :=
  { g with
    x := if g.hasX then g.x else s.lastX
    y := if g.hasY then g.y else s.lastY
    z := if g.hasZ then g.z else s.lastZ }

-- ONLY push if movement exists
def push (s : Parser) (g : GCodeLine) : Parser :=
  if !g.x.eq s.lastX || !g.y.eq s.lastY || !g.z.eq s.lastZ
  then { lines := s.lines ++ [g], lastX := g.x, lastY := g.y, lastZ := g.z }
  else s

def parseLine (s : Parser) (line : List Char) : Option Parser :=
  if line = [] ∨ line.head? = some ';' then
    some s
  else
    ((words line).foldlM GCodeLine.readToken {}).map fun g =>
      if g.hasX || g.hasY || g.hasZ then s.push (s.fill g) else s

end Parser

-- A file is given by its lines. One that cannot be opened has none.
def parseGcode (file : List (List Char)) : Option (List GCodeLine) :=
  (file.foldlM Parser.parseLine {}).map Parser.lines

end Program
