/-!
# Numbers as text

Hexadecimal numerals, columns, and the reading of sizes: an optional plus sign and decimal digits,
for a value that fits in 64 bits.
-/
namespace StackGlyph.Text

def hex (n : Nat) : String :=
  String.ofList (Nat.toDigits 16 n)

def hexPadded (width n : Nat) : String :=
  String.ofList ((Nat.toDigits 16 n).leftpad width '0')

def alignRight (width : Nat) (text : String) : String :=
  String.ofList (text.toList.leftpad width ' ')

def alignLeft (width : Nat) (text : String) : String :=
  String.ofList (text.toList.rightpad width ' ')

def maxSize : Nat := 0xFFFFFFFFFFFFFFFF

def digitsValue (digits : List Char) : Nat :=
  digits.foldl (fun n c => 10 * n + (c.toNat - 48)) 0

/-- Reads a size: an optional `+`, then one or more ASCII digits, at most `maxSize`. -/
def readSize? (text : List Char) : Option Nat :=
  let digits := match text with
    | '+' :: rest => rest
    | _ => text
  if digits.isEmpty || !digits.all Char.isDigit then none
  else if digitsValue digits ≤ maxSize then some (digitsValue digits)
  else none

end StackGlyph.Text
