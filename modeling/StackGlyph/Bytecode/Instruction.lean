import StackGlyph.Fault
import StackGlyph.Word

/-!
# Instructions

A decoded instruction is an opcode with its operand, at its offset in the code of a method. Branch
operands hold the absolute offset of their target. `decode` reads a whole code array, `encode`
writes one instruction back, `place?` finds the instruction that starts at an offset.

Source pin: Kemuri specification §3.2 (opcodes), for the bytes and operands of an instruction.
-/
namespace StackGlyph

inductive Operand where
  | none
  /-- A number pushed as it stands. -/
  | value (v : Int)
  /-- A local slot. -/
  | slot (n : UInt8)
  /-- The index of a constant. -/
  | index (i : UInt16)
  /-- The offset that a branch leads to. -/
  | target (offset : Nat)
  /-- The index of an interface method and the slots of its arguments, the receiver included. -/
  | interface (i : UInt16) (count : UInt8)
  deriving DecidableEq, Repr

structure Instruction where
  offset : Nat
  op : Opcode
  operand : Operand
  deriving DecidableEq, Repr

namespace Instruction

def signedByte (a : UInt8) : Int :=
  if a.toNat < 0x80 then a.toNat else (a.toNat : Int) - 0x100

def signedWord (a b : UInt8) : Int :=
  let n := (Word.join16 a b).toNat
  if n < 0x8000 then n else (n : Int) - 0x10000

/-- Reads instructions up to the end of the code. `size` is the length of the whole code, `offset`
the position of the next byte, `found` what was read so far. A branch must lead into the code. -/
def readAll (size offset : Nat) (found : Array Instruction) :
    List UInt8 → Except Fault (Array Instruction)
  | [] => .ok found
  | byte :: rest =>
    match Opcode.ofByte? byte with
    | none => .error (.unknownOpcode offset byte)
    | some op =>
      match op.layout, rest with
      | .bare, rest => readAll size (offset + 1) (found.push ⟨offset, op, .none⟩) rest
      | .byteValue, a :: rest =>
        readAll size (offset + 2) (found.push ⟨offset, op, .value (signedByte a)⟩) rest
      | .slot, a :: rest => readAll size (offset + 2) (found.push ⟨offset, op, .slot a⟩) rest
      | .byteIndex, a :: rest =>
        readAll size (offset + 2) (found.push ⟨offset, op, .index a.toUInt16⟩) rest
      | .wordValue, a :: b :: rest =>
        readAll size (offset + 3) (found.push ⟨offset, op, .value (signedWord a b)⟩) rest
      | .wordIndex, a :: b :: rest =>
        readAll size (offset + 3) (found.push ⟨offset, op, .index (Word.join16 a b)⟩) rest
      | .branch, a :: b :: rest =>
        let target := offset + signedWord a b
        if 0 ≤ target ∧ target < size then
          readAll size (offset + 3) (found.push ⟨offset, op, .target target.toNat⟩) rest
        else .error (.branchOutOfRange (signedWord a b))
      | .interface, a :: b :: c :: _ :: rest =>
        readAll size (offset + 5) (found.push ⟨offset, op, .interface (Word.join16 a b) c⟩) rest
      | _, _ => .error (.truncated offset)

def decode (code : List UInt8) : Except Fault (Array Instruction) :=
  readAll code.length 0 #[] code

/-- Looks from place `low` on and before place `high` for the instruction that starts at `target`,
halving the range each time. The instructions stand by ascending offset. -/
def placeBetween (all : Array Instruction) (target low high : Nat) : Option Nat :=
  if low < high then
    let middle := low + (high - low) / 2
    match all[middle]? with
    | none => none
    | some i =>
      if i.offset = target then some middle
      else if i.offset < target then placeBetween all target (middle + 1) high
      else placeBetween all target low middle
  else none
termination_by high - low

/-- The place of the instruction that starts at an offset, if one does. -/
def place? (all : Array Instruction) (target : Nat) : Option Nat :=
  placeBetween all target 0 all.size

def encode (i : Instruction) : List UInt8 :=
  i.op.byte :: match i.operand with
    | .none => []
    | .value v => if i.op.layout = .byteValue then [(v % 0x100).toNat.toUInt8]
                  else Word.bytes16 (v % 0x10000).toNat.toUInt16
    | .slot n => [n]
    | .index k => if i.op.layout = .byteIndex then [k.toUInt8] else Word.bytes16 k
    | .target t => Word.bytes16 (((t : Int) - i.offset) % 0x10000).toNat.toUInt16
    | .interface k count => Word.bytes16 k ++ [count, 0]

end Instruction

end StackGlyph
