/-!
# Text without escape sequences

Reports may end up in a file, so what only a terminal understands is left out of them: escape
sequences and control characters other than white space. White space that stands inside a sequence
is kept with the text up to the next control character, and only then the sequence goes on.

Source pin: Kemuri specification §7.2 (logging), for what is written where no terminal listens.
-/
namespace StackGlyph.Text

inductive Mode where
  | text
  /-- After the escape character. -/
  | escape
  /-- Inside an escape sequence that goes on to a final character. -/
  | intermediate
  /-- Inside a control sequence. -/
  | sequence
  /-- Inside a command to the system, which a bell ends. -/
  | command
  /-- At the start of a device string. -/
  | device
  /-- Among the parameters of a device string. -/
  | parameters
  /-- Between the parameters of a device string and its content. -/
  | selector
  /-- Inside a string for the terminal, which its terminator ends. -/
  | string
  deriving DecidableEq, Repr

/-- A control character that counts as white space. -/
def isLayout (c : Char) : Bool :=
  c == '\t' || c == '\n' || c == '\x0c' || c == '\r'

def isBetween (low high : Nat) (c : Char) : Bool :=
  low ≤ c.toNat && c.toNat ≤ high

/-- Whether the string terminator is among the bytes that encode a character. -/
def holdsTerminator (c : Char) : Bool :=
  (String.utf8EncodeChar c).contains 0x9C

def Mode.after (m : Mode) (c : Char) : Mode :=
  if c = '\x1b' then .escape
  else if c = '\x18' ∨ c = '\x1a' then .text
  else match m with
    | .text => .text
    | .escape =>
      if c = '[' then .sequence
      else if c = ']' then .command
      else if c = 'P' then .device
      else if ['X', '^', '_'].contains c then .string
      else if isBetween 0x20 0x2F c then .intermediate
      else if isBetween 0x30 0x7E c then .text
      else .escape
    | .intermediate => if isBetween 0x30 0x7E c then .text else .intermediate
    | .sequence => if isBetween 0x40 0x7E c then .text else .sequence
    | .command => if c = '\x07' then .text else .command
    | .device =>
      if isBetween 0x20 0x2F c then .selector
      else if isBetween 0x30 0x3F c then .parameters
      else if isBetween 0x40 0x7E c then .string
      else .device
    | .parameters =>
      if isBetween 0x20 0x2F c then .selector
      else if isBetween 0x3C 0x7E c then .string
      else .parameters
    | .selector => if isBetween 0x30 0x7E c then .string else .selector
    | .string => if holdsTerminator c then .text else .string

def Mode.keeps (m : Mode) (c : Char) : Bool :=
  match m with
  | .text => isLayout c || (0x20 ≤ c.toNat && c != '\x7f')
  | .escape | .intermediate | .sequence => isLayout c
  | .command | .device | .parameters | .selector | .string => false

/-- How far a text has been read: the mode, and whether the last character was kept. A run of kept
characters is judged as text, but leaves the mode as it was unless a character beyond ASCII
is among them. -/
structure Sieve where
  mode : Mode := .text
  keeping : Bool := false
  deriving DecidableEq, Repr

namespace Sieve

def keeps (s : Sieve) (c : Char) : Bool :=
  (if s.keeping then Mode.text else s.mode).keeps c

def after (s : Sieve) (c : Char) : Sieve :=
  if s.keeps c then ⟨if c.toNat < 0x80 then s.mode else .text, true⟩
  else ⟨s.mode.after c, false⟩

end Sieve

def keepPlain (found : Array Char) (s : Sieve) : List Char → List Char
  | [] => found.toList
  | c :: rest => keepPlain (if s.keeps c then found.push c else found) (s.after c) rest

/-- A text without what only a terminal understands. -/
def plain (text : String) : String :=
  String.ofList (keepPlain #[] {} text.toList)

end StackGlyph.Text
