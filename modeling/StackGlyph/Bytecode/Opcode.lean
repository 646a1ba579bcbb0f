/-!
# Opcodes

The instructions of the class files that this library writes, reads and runs. Every other byte is
no instruction. For each opcode: its byte, its mnemonic, the layout of its operand bytes, and by
how much it changes the depth of the operand stack.

Source pin: Kemuri specification §3.2 (opcodes), whose closed subset this is.
-/
namespace StackGlyph

inductive Opcode where
  | iconstM1 | iconst0 | iconst1 | iconst2 | iconst3 | iconst4 | iconst5
  | bipush | sipush | ldc | ldcW
  | aload | aload0 | aload1 | aload2 | aload3
  | astore | astore0 | astore1 | astore2 | astore3
  | pop | dup | dup2 | swap
  | iadd | ineg | ixor | i2c
  | ifeq | ifne | goto | ret
  | getstatic | invokevirtual | invokespecial | invokestatic | invokeinterface | new | checkcast
  deriving DecidableEq, Repr

namespace Opcode

/-- Every opcode, by ascending byte. -/
def all : List Opcode :=
  [.iconstM1, .iconst0, .iconst1, .iconst2, .iconst3, .iconst4, .iconst5, .bipush, .sipush, .ldc,
   .ldcW, .aload, .aload0, .aload1, .aload2, .aload3, .astore, .astore0, .astore1, .astore2,
   .astore3, .pop, .dup, .dup2, .swap, .iadd, .ineg, .ixor, .i2c, .ifeq, .ifne, .goto, .ret,
   .getstatic, .invokevirtual, .invokespecial, .invokestatic, .invokeinterface, .new, .checkcast]

def byte : Opcode → UInt8
  | .iconstM1 => 0x02 | .iconst0 => 0x03 | .iconst1 => 0x04 | .iconst2 => 0x05
  | .iconst3 => 0x06 | .iconst4 => 0x07 | .iconst5 => 0x08
  | .bipush => 0x10 | .sipush => 0x11 | .ldc => 0x12 | .ldcW => 0x13
  | .aload => 0x19 | .aload0 => 0x2a | .aload1 => 0x2b | .aload2 => 0x2c | .aload3 => 0x2d
  | .astore => 0x3a | .astore0 => 0x4b | .astore1 => 0x4c | .astore2 => 0x4d | .astore3 => 0x4e
  | .pop => 0x57 | .dup => 0x59 | .dup2 => 0x5c | .swap => 0x5f
  | .iadd => 0x60 | .ineg => 0x74 | .ixor => 0x82 | .i2c => 0x92
  | .ifeq => 0x99 | .ifne => 0x9a | .goto => 0xa7 | .ret => 0xb1
  | .getstatic => 0xb2 | .invokevirtual => 0xb6 | .invokespecial => 0xb7 | .invokestatic => 0xb8
  | .invokeinterface => 0xb9 | .new => 0xbb | .checkcast => 0xc0

def ofByte? (b : UInt8) : Option Opcode :=
  all.find? (·.byte == b)

/-- The name of an opcode in listings. -/
def mnemonic : Opcode → String
  | .iconstM1 => "iconst_m1" | .iconst0 => "iconst_0" | .iconst1 => "iconst_1"
  | .iconst2 => "iconst_2" | .iconst3 => "iconst_3" | .iconst4 => "iconst_4"
  | .iconst5 => "iconst_5"
  | .bipush => "bipush" | .sipush => "sipush" | .ldc => "ldc" | .ldcW => "ldc_w"
  | .aload => "aload" | .aload0 => "aload_0" | .aload1 => "aload_1" | .aload2 => "aload_2"
  | .aload3 => "aload_3"
  | .astore => "astore" | .astore0 => "astore_0" | .astore1 => "astore_1"
  | .astore2 => "astore_2" | .astore3 => "astore_3"
  | .pop => "pop" | .dup => "dup" | .dup2 => "dup2" | .swap => "swap"
  | .iadd => "iadd" | .ineg => "ineg" | .ixor => "ixor" | .i2c => "i2c"
  | .ifeq => "ifeq" | .ifne => "ifne" | .goto => "goto" | .ret => "return"
  | .getstatic => "getstatic" | .invokevirtual => "invokevirtual"
  | .invokespecial => "invokespecial" | .invokestatic => "invokestatic"
  | .invokeinterface => "invokeinterface" | .new => "new" | .checkcast => "checkcast"

def ofMnemonic? (name : String) : Option Opcode :=
  all.find? (·.mnemonic == name)

/-- What the bytes after an opcode hold. -/
inductive Layout where
  /-- Nothing. -/
  | bare
  /-- A signed byte. -/
  | byteValue
  /-- A signed word. -/
  | wordValue
  /-- The number of a local slot, in a byte. -/
  | slot
  /-- A constant's index, in a byte. -/
  | byteIndex
  /-- A constant's index, in a word. -/
  | wordIndex
  /-- The distance to a branch target, in a signed word. -/
  | branch
  /-- A constant's index, a count of argument slots, and a byte without meaning. -/
  | interface
  deriving DecidableEq, Repr

def Layout.size : Layout → Nat
  | .bare => 0
  | .byteValue | .slot | .byteIndex => 1
  | .wordValue | .wordIndex | .branch => 2
  | .interface => 4

def layout : Opcode → Layout
  | .bipush => .byteValue
  | .sipush => .wordValue
  | .ldc => .byteIndex
  | .aload | .astore => .slot
  | .ifeq | .ifne | .goto => .branch
  | .ldcW | .getstatic | .invokevirtual | .invokespecial | .invokestatic | .new | .checkcast =>
    .wordIndex
  | .invokeinterface => .interface
  | _ => .bare

def operandSize (op : Opcode) : Nat :=
  op.layout.size

/-- The change of the operand stack's depth, in slots. Field accesses and calls have none of their
own: theirs depends on a descriptor. -/
def stackDelta : Opcode → Option Int
  | .iconstM1 | .iconst0 | .iconst1 | .iconst2 | .iconst3 | .iconst4 | .iconst5
  | .bipush | .sipush | .ldc | .ldcW
  | .aload | .aload0 | .aload1 | .aload2 | .aload3 | .dup | .new => some 1
  | .dup2 => some 2
  | .astore | .astore0 | .astore1 | .astore2 | .astore3
  | .pop | .iadd | .ixor | .ifeq | .ifne => some (-1)
  | .swap | .ineg | .i2c | .checkcast | .goto | .ret => some 0
  | .getstatic | .invokevirtual | .invokespecial | .invokestatic | .invokeinterface => none

def isBranch (op : Opcode) : Bool :=
  op.layout == .branch

/-- Whether control never passes on to the next instruction. -/
def endsBlock : Opcode → Bool
  | .goto | .ret => true
  | _ => false

end Opcode

end StackGlyph
