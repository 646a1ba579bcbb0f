import StackGlyph.Text.Utf16

/-!
# Modified UTF-8

The text encoding of class files. Each UTF-16 unit is a group of one, two or three bytes; the zero
unit takes two bytes, so no encoded text contains a zero byte. The reader accepts a group of any
size for a value, also one that is longer than needed, and then requires well-formed UTF-16.

Source pin: Kemuri specification §3.1 (constant pool), for the texts of its entries.
-/
namespace StackGlyph.Text.ModifiedUtf8

inductive TextFault where
  /-- No group starts at this byte. -/
  | badGroup (offset : Nat)
  /-- The groups are sound, but a surrogate stands alone. -/
  | loneSurrogate
  deriving DecidableEq, Repr

def TextFault.message : TextFault → String
  | .badGroup offset => s!"séquence invalide à l’octet {offset}"
  | .loneSurrogate => "invalid utf-16: lone surrogate found"

def group (unit : UInt16) : List UInt8 :=
  let n := unit.toNat
  if 0x01 ≤ n ∧ n ≤ 0x7F then [n.toUInt8]
  else if n ≤ 0x7FF then [(0xC0 + n / 0x40).toUInt8, (0x80 + n % 0x40).toUInt8]
  else [(0xE0 + n / 0x1000).toUInt8, (0x80 + n / 0x40 % 0x40).toUInt8, (0x80 + n % 0x40).toUInt8]

def groupSize (unit : UInt16) : Nat :=
  let n := unit.toNat
  if 0x01 ≤ n ∧ n ≤ 0x7F then 1 else if n ≤ 0x7FF then 2 else 3

def encode (text : String) : List UInt8 :=
  (Utf16.units text).flatMap group

/-- The number of bytes of the encoding, without building it. -/
def encodedLength (text : String) : Nat :=
  (Utf16.units text).foldr (fun unit n => groupSize unit + n) 0

def isContinuation (byte : UInt8) : Bool :=
  0x80 ≤ byte && byte < 0xC0

def value2 (a b : UInt8) : UInt16 :=
  ((a.toNat - 0xC0) * 0x40 + (b.toNat - 0x80)).toUInt16

def value3 (a b c : UInt8) : UInt16 :=
  ((a.toNat - 0xE0) * 0x1000 + (b.toNat - 0x80) * 0x40 + (c.toNat - 0x80)).toUInt16

/-- Reads groups up to the end of the input. `offset` is the position of the next byte, `found`
the units read so far. -/
def readGroups (offset : Nat) (found : Array UInt16) : List UInt8 → Except TextFault (List UInt16)
  | [] => .ok found.toList
  | a :: rest =>
    if 0x01 ≤ a && a < 0x80 then readGroups (offset + 1) (found.push a.toUInt16) rest
    else if 0xC0 ≤ a && a < 0xE0 then
      match rest with
      | b :: rest =>
        if isContinuation b then readGroups (offset + 2) (found.push (value2 a b)) rest
        else .error (.badGroup offset)
      | [] => .error (.badGroup offset)
    else if 0xE0 ≤ a && a < 0xF0 then
      match rest with
      | b :: c :: rest =>
        if isContinuation b && isContinuation c then
          readGroups (offset + 3) (found.push (value3 a b c)) rest
        else .error (.badGroup offset)
      | _ => .error (.badGroup offset)
    else .error (.badGroup offset)

def decode (bytes : List UInt8) : Except TextFault String := do
  let units ← readGroups 0 #[] bytes
  match Utf16.decode? units with
  | some text => .ok text
  | none => .error .loneSurrogate

end StackGlyph.Text.ModifiedUtf8
