/-!
# Big-endian words

The fields of a class file: unsigned words of two and four bytes, most significant byte first.

Source pin: JVMS §4.1, which fixes the order of the bytes.
-/
namespace StackGlyph.Word

def bytes16 (w : UInt16) : List UInt8 :=
  [(w.toNat / 0x100).toUInt8, (w.toNat % 0x100).toUInt8]

def bytes32 (w : UInt32) : List UInt8 :=
  [(w.toNat / 0x1000000).toUInt8, (w.toNat / 0x10000 % 0x100).toUInt8,
   (w.toNat / 0x100 % 0x100).toUInt8, (w.toNat % 0x100).toUInt8]

def join16 (a b : UInt8) : UInt16 :=
  (a.toNat * 0x100 + b.toNat).toUInt16

def join32 (a b c d : UInt8) : UInt32 :=
  (a.toNat * 0x1000000 + b.toNat * 0x10000 + c.toNat * 0x100 + d.toNat).toUInt32

end StackGlyph.Word
