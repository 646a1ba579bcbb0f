import StackGlyph.Glyph.Diagnostic
import StackGlyph.Glyph.Routines

/-!
# The main method

The code of a program: a new queue, one call per command in the order of the text, and a return. A
character that is no command adds nothing to the code.

Source pin: Kemuri specification §5 (command-stream translator).
-/
namespace StackGlyph.MainMethod

open Assembler

def descriptor : String := "([Ljava/lang/String;)V"

/-- The class of the queue that holds the stack. -/
def queueClass : String := "java/util/ArrayDeque"

structure Tally where
  /-- The number of commands. -/
  commands : Nat
  /-- The characters that are no commands, in order. -/
  diagnostics : List Diagnostic
  deriving DecidableEq, Repr

/-- The limit on the number of commands that one more command exceeds, if there is one. -/
def exceeded? (limit : Option Nat) (commands : Nat) : Option Nat :=
  limit.filter (· < commands + 1)

/-- The calls of the commands of a text whose first character stands at `position`. Ends early, with
the limit, at a command that exceeds it. -/
def calls (owner : String) (limit : Option Nat) (position commands : Nat)
    (found : Array Diagnostic) : List Char → Asm (Except Nat Tally)
  | [] => return .ok ⟨commands, found.toList⟩
  | c :: rest =>
    match Command.ofGlyph? c with
    | none => calls owner limit (position + 1) commands (found.push ⟨c, position⟩) rest
    | some command =>
      match exceeded? limit commands with
      | some limit => return .error limit
      | none => do
        plain .dup
        call .static owner command.name Routines.descriptor
        calls owner limit (position + 1) (commands + 1) found rest

/-- The body of the main method of a class with the given internal name. On too many commands it is
cut short and gives the limit. -/
def body (owner : String) (limit : Option Nat) (source : List Char) : Asm (Except Nat Tally) := do
  onType .new queueClass
  plain .dup
  call .special queueClass "<init>" "()V"
  match ← calls owner limit 0 0 #[] source with
  | .error limit => return .error limit
  | .ok tally => do
    plain .pop
    plain .ret
    return .ok tally

end StackGlyph.MainMethod
