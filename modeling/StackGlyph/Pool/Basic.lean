import Std.Data.HashMap
import StackGlyph.Fault
import StackGlyph.Pool.Constant

/-!
# The constant pool

Constants in order of arrival, each at a one-based index. Adding a constant that is present gives
its first index again. An operation that fails keeps what it added before it failed, so every
operation returns the pool it leaves behind.

Source pin: Kemuri specification §3.1 (constant pool).
-/
namespace StackGlyph

structure Pool where
  entries : Array Constant := #[]
  /-- The first index of each constant. -/
  firstIndex : Std.HashMap Constant UInt16 := ∅

abbrev PoolM := EStateM Fault Pool

/-- A member reference with its names looked up. -/
structure Member where
  owner : String
  name : String
  descriptor : String
  deriving DecidableEq, Repr

namespace Pool

/-- The largest number of entries; with the unused index 0 they fill a 16-bit count. -/
def capacity : Nat := 65534

def maxTextLength : Nat := 65535

def empty : Pool := {}

def size (p : Pool) : Nat :=
  p.entries.size

/-- The entry at a one-based index. -/
def get? (p : Pool) (i : UInt16) : Option Constant :=
  if i = 0 then none else p.entries[i.toNat - 1]?

/-- The pool of a given list of entries, which may hold duplicates. -/
def ofEntries (entries : Array Constant) : Except Fault Pool :=
  if capacity < entries.size then .error (.poolFull entries.size)
  else .ok {
    entries
    firstIndex := (entries.foldl (fun (next, index) c =>
      (next + 1, index.insertIfNew c (next : UInt16))) (1, ∅)).2 }

/-- The encoded length of a constant's text, if it is too long for a pool. -/
def overlong? : Constant → Option Nat
  | .text s =>
    let n := Text.ModifiedUtf8.encodedLength s
    if maxTextLength < n then some n else none
  | _ => none

/-- Finds a constant or appends it, and gives its index. -/
def add (c : Constant) : PoolM UInt16 := fun p =>
  match p.firstIndex[c]? with
  | some i => .ok i p
  | none =>
    if capacity ≤ p.size then .error (.poolFull (p.size + 1)) p
    else match overlong? c with
      | some n => .error (.textTooLong n) p
      | none =>
        let i := (p.size + 1).toUInt16
        .ok i { entries := p.entries.push c, firstIndex := p.firstIndex.insert c i }

def addText (s : String) : PoolM UInt16 :=
  add (.text s)

def addInteger (v : Int32) : PoolM UInt16 :=
  add (.integer v)

def addClass (name : String) : PoolM UInt16 := do
  add (.type (← addText name))

def addSignature (name descriptor : String) : PoolM UInt16 := do
  let name ← addText name
  let descriptor ← addText descriptor
  add (.signature name descriptor)

/-- A member: first its class, then its signature, then the reference. -/
def addMember (kind : MemberKind) (owner name descriptor : String) : PoolM UInt16 := do
  let owner ← addClass owner
  let signature ← addSignature name descriptor
  add (.member kind owner signature)

/-- The text at an index. A fault names the index at which the wrong entry, or none, was found; so
do the look-ups below. -/
def textAt (p : Pool) (i : UInt16) : Except Fault String :=
  match p.get? i with
  | some (.text s) => .ok s
  | _ => .error (.badReference i)

/-- The internal name of the class at an index. -/
def classNameAt (p : Pool) (i : UInt16) : Except Fault String :=
  match p.get? i with
  | some (.type name) => p.textAt name
  | _ => .error (.badReference i)

def signatureAt (p : Pool) (i : UInt16) : Except Fault (String × String) :=
  match p.get? i with
  | some (.signature name descriptor) => do
    let name ← p.textAt name
    let descriptor ← p.textAt descriptor
    return (name, descriptor)
  | _ => .error (.badReference i)

def memberAt (p : Pool) (i : UInt16) : Except Fault Member :=
  match p.get? i with
  | some (.member _ owner signature) => do
    let owner ← p.classNameAt owner
    let (name, descriptor) ← p.signatureAt signature
    return ⟨owner, name, descriptor⟩
  | _ => .error (.badReference i)

/-- The bytes of a pool: the count of indices, then the entries. -/
def bytes (p : Pool) : List UInt8 :=
  Word.bytes16 (p.size + 1).toUInt16 ++ p.entries.toList.flatMap Constant.bytes

end Pool

end StackGlyph
