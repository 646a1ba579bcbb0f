/-!
# UTF-16 code units

A text as a sequence of 16-bit units, and the way back. A unit sequence is cut into pieces: a
scalar value, given by one unit or by a surrogate pair, or a surrogate that stands alone. Strict
reading refuses lone surrogates, lossy reading replaces each by U+FFFD.
-/
namespace StackGlyph.Text.Utf16

/-- The first half of a surrogate pair. -/
def isHigh (unit : UInt16) : Bool :=
  0xD800 ≤ unit && unit < 0xDC00

/-- The second half of a surrogate pair. -/
def isLow (unit : UInt16) : Bool :=
  0xDC00 ≤ unit && unit < 0xE000

def unitsOfChar (c : Char) : List UInt16 :=
  let n := c.toNat
  if n < 0x10000 then [n.toUInt16]
  else [(0xD800 + (n - 0x10000) / 0x400).toUInt16, (0xDC00 + (n - 0x10000) % 0x400).toUInt16]

def units (text : String) : List UInt16 :=
  text.toList.flatMap unitsOfChar

inductive Piece where
  | scalar (c : Char)
  | lone (surrogate : UInt16)
  deriving DecidableEq, Repr

def pairChar (high low : UInt16) : Char :=
  Char.ofNat (0x10000 + (high.toNat - 0xD800) * 0x400 + (low.toNat - 0xDC00))

/-- Puts a unit in front of the pieces that follow it. A high surrogate joins the low surrogate
right after it; no other unit joins anything. -/
def prepend (unit : UInt16) (pieces : List Piece) : List Piece :=
  if isHigh unit then
    match pieces with
    | .lone low :: rest =>
      if isLow low then .scalar (pairChar unit low) :: rest else .lone unit :: pieces
    | _ => .lone unit :: pieces
  else if isLow unit then .lone unit :: pieces
  else .scalar (Char.ofNat unit.toNat) :: pieces

def pieces (units : List UInt16) : List Piece :=
  units.foldr prepend []

def Piece.char? : Piece → Option Char
  | .scalar c => some c
  | .lone _ => none

/-- Reads a unit sequence in which every surrogate is paired. -/
def decode? (units : List UInt16) : Option String :=
  ((pieces units).mapM Piece.char?).map String.ofList

/-- Reads any unit sequence; each lone surrogate becomes U+FFFD. -/
def decodeLossy (units : List UInt16) : String :=
  String.ofList ((pieces units).map fun piece => piece.char?.getD '�')

end StackGlyph.Text.Utf16
