import StackGlyph.Text.ModifiedUtf8
import StackGlyph.Text.Quoted
import StackGlyph.Word

/-!
# Constants

The entries of a constant pool. A constant refers to others by their one-based index in the same
pool.

Source pin: Kemuri specification §3.1 (constant pool); the tags are those of JVMS §4.4.
-/
namespace StackGlyph

inductive MemberKind where
  | field | method | interfaceMethod
  deriving DecidableEq, Hashable, Repr

inductive Constant where
  | text (s : String)
  | integer (v : Int32)
  /-- A class, by the index of its internal name. -/
  | type (name : UInt16)
  /-- A string literal, by the index of its text. -/
  | string (value : UInt16)
  /-- A member, by the indices of its class and of its name and descriptor. -/
  | member (kind : MemberKind) (owner signature : UInt16)
  /-- A name with a descriptor, by the indices of both. -/
  | signature (name descriptor : UInt16)
  deriving DecidableEq, Hashable, Repr

namespace Constant

def tag : Constant → UInt8
  | .text _ => 1
  | .integer _ => 3
  | .type _ => 7
  | .string _ => 8
  | .member .field _ _ => 9
  | .member .method _ _ => 10
  | .member .interfaceMethod _ _ => 11
  | .signature _ _ => 12

/-- The bytes of a constant: its tag, then its content. -/
def bytes (c : Constant) : List UInt8 :=
  c.tag :: match c with
    | .text s =>
      let encoded := Text.ModifiedUtf8.encode s
      Word.bytes16 encoded.length.toUInt16 ++ encoded
    | .integer v => Word.bytes32 v.toUInt32
    | .type i | .string i => Word.bytes16 i
    | .member _ i j | .signature i j => Word.bytes16 i ++ Word.bytes16 j

def describe : Constant → String
  | .text s => "Utf8(" ++ Text.quoted s ++ ")"
  | .integer v => s!"Integer({v})"
  | .type i => s!"Class \x7b name: {i} \x7d"
  | .string i => s!"String \x7b value: {i} \x7d"
  | .member kind i j =>
    let word := match kind with
      | .field => "Fieldref"
      | .method => "Methodref"
      | .interfaceMethod => "InterfaceMethodref"
    word ++ s!" \x7b class: {i}, name_and_type: {j} \x7d"
  | .signature i j => s!"NameAndType \x7b name: {i}, descriptor: {j} \x7d"

end Constant

end StackGlyph
