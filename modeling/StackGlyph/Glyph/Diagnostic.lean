import StackGlyph.Text.Quoted

/-!
# Diagnostics

A character that is no command is passed over and reported.

Source pin: Kemuri specification §5 (command-stream translator).
-/
namespace StackGlyph

structure Diagnostic where
  glyph : Char
  /-- The place of the character in the program text, counted in characters from 0. -/
  position : Nat
  deriving DecidableEq, Repr

namespace Diagnostic

/-- How grave a diagnostic is; there is one degree. -/
def severity : String := "warning"

def message (d : Diagnostic) : String :=
  "commande inconnue: " ++ Text.quotedChar d.glyph

def line (d : Diagnostic) : String :=
  severity ++ ": " ++ d.message ++ s!" (position {d.position})"

end Diagnostic

end StackGlyph
