import StackGlyph.Glyph.Command
import StackGlyph.Text.Utf16

/-!
# What the commands mean

The reference meaning of programs, on stacks of 16-bit cells with the top first. `dup` and `not`
need one cell, `xor` two, `rot` three; a command that lacks cells has no meaning.

Source pin: the behaviours listed in §4 of the Kemuri specification (runtime primitive library), not
the code that carries them out.
-/
namespace StackGlyph

def greeting : String := "Hello, world!"

namespace Command

/-- The stack that a command leaves and the units that it prints. -/
def apply : Command → List UInt16 → Option (List UInt16 × List UInt16)
  | .dup, x :: s => some (x :: x :: s, [])
  | .hello, s => some (Text.Utf16.units greeting ++ s, [])
  | .not, x :: s => some ((255 - x) :: s, [])
  | .rot, x :: y :: z :: s => some (y :: z :: x :: s, [])
  | .xor, a :: b :: s => some ((a ^^^ b) :: s, [])
  | .print, s => some ([], s)
  | _, _ => none

end Command

inductive Meaning where
  /-- With this stack, after this output. -/
  | completes (stack : List UInt16) (output : List UInt16)
  /-- At this command, which lacks cells. -/
  | lacksCells (command : Command)
  deriving DecidableEq, Repr

/-- The meaning of a sequence of commands on a stack, after some output. -/
def meaning (stack output : List UInt16) : List Command → Meaning
  | [] => .completes stack output
  | c :: rest =>
    match c.apply stack with
    | some (stack, printed) => meaning stack (output ++ printed) rest
    | none => .lacksCells c

end StackGlyph
