/-!
# Commands

A program is a text; each character is a command on a stack of 16-bit cells, or no command at all.

Source pin: Kemuri specification §2 (data model), for the glyphs, and §4, for the names.
-/
namespace StackGlyph

inductive Command where
  | dup | print | hello | not | rot | xor
  deriving DecidableEq, Repr

namespace Command

/-- Every command, in the order in which a compiled class declares its routines. -/
def all : List Command :=
  [.dup, .print, .hello, .not, .rot, .xor]

/-- The name of a command, which is also the name of its routine. -/
def name : Command → String
  | .dup => "dup"
  | .print => "print"
  | .hello => "hello"
  | .not => "not"
  | .rot => "rot"
  | .xor => "xor"

def glyph : Command → Char
  | .dup => '\x22'
  | .print => '|'
  | .hello => '\x60'
  | .not => '~'
  | .rot => '\x27'
  | .xor => '^'

def ofGlyph? (c : Char) : Option Command :=
  all.find? (·.glyph == c)

end Command

def commandsOf (source : List Char) : List Command :=
  source.filterMap Command.ofGlyph?

end StackGlyph
