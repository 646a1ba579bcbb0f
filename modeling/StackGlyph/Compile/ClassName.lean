import StackGlyph.Text.Letter

/-!
# Class names

A class is named by one or more segments. The dotted form joins them by dots and names the class
file; the internal form joins them by slashes and stands in the class file. A source file that has a
usable name lends it to its class.

Source pin: Kemuri specification §2 (data model) and §6.1 (preconditions); the name that a source
file lends is that of §7.4 (command line).
-/
namespace StackGlyph

structure ClassName where
  segments : List String
  deriving DecidableEq, Repr

inductive NameFault where
  | empty | emptySegment | forbiddenCharacter
  deriving DecidableEq, Repr

def NameFault.message : NameFault → String
  | .empty => "nom vide"
  | .emptySegment => "segment vide"
  | .forbiddenCharacter => "caractère interdit (/ ; [)"

namespace ClassName

/-- A character that no segment may hold. -/
def isForbidden (c : Char) : Bool :=
  c == '/' || c == ';' || c == '['

def parse (text : String) : Except NameFault ClassName :=
  let segments := text.toList.splitOn '.'
  if text.isEmpty then .error .empty
  else if segments.any List.isEmpty then .error .emptySegment
  else if text.toList.any isForbidden then .error .forbiddenCharacter
  else .ok ⟨segments.map String.ofList⟩

/-- The form for readers: `jp.example.Hello`. -/
def dotted (n : ClassName) : String :=
  ".".intercalate n.segments

/-- The form of class files: `jp/example/Hello`. -/
def internal (n : ClassName) : String :=
  "/".intercalate n.segments

def fileName (n : ClassName) : String :=
  n.dotted ++ ".class"

/-- The name of a class without any other source of a name. -/
def fallback : String := "Main"

/-- What a character of a file's name becomes in a class name. A letter at the front is capitalised;
what cannot stand in a name becomes an underscore, or nothing at the front. -/
def adapt (alphabet : Text.Alphabet) (first : Bool) (c : Char) : List Char :=
  if first && alphabet.isLetter c then alphabet.capital c
  else if alphabet.isNameChar c || c == '_' || c == '$' then [c]
  else if first then []
  else ['_']

/-- The class name that a file's stem suggests. -/
def ofStem (alphabet : Text.Alphabet) (stem : List Char) : String :=
  let name := match stem with
    | [] => []
    | c :: rest => adapt alphabet true c ++ rest.flatMap (adapt alphabet false)
  if name.isEmpty || name.head?.any Char.isDigit then fallback else String.ofList name

end ClassName

end StackGlyph
