import StackGlyph.Text.Number
import StackGlyph.Text.Printable

/-!
# Quoted text

How messages and listings show a text or a character without ambiguity: between quotes, with
escapes for the quote, the backslash, four controls, and every character that is not printable.
-/
namespace StackGlyph.Text

/-- The written form of `c` between two `quote` characters. -/
def escape (quote c : Char) : List Char :=
  if c = '\x00' then ['\x5c', '0']
  else if c = '\t' then ['\x5c', 't']
  else if c = '\r' then ['\x5c', 'r']
  else if c = '\n' then ['\x5c', 'n']
  else if c = quote ∨ c = '\x5c' then ['\x5c', c]
  else if isPrintable c then [c]
  else ['\x5c', 'u', '\x7b'] ++ Nat.toDigits 16 c.toNat ++ ['\x7d']

def quoted (text : String) : String :=
  String.ofList ('\x22' :: text.toList.flatMap (escape '\x22') ++ ['\x22'])

def quotedChar (c : Char) : String :=
  String.ofList ('\x27' :: escape '\x27' c ++ ['\x27'])

end StackGlyph.Text
