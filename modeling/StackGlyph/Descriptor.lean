import StackGlyph.Fault

/-!
# Descriptors

The types of fields and methods as class files write them: `I`, `[Ljava/lang/String;`,
`(Ljava/util/Deque;)V`. A field type is an element type under a number of array dimensions; long and
double take two slots, all else one.

Source pin: Kemuri specification §3.3 (descriptors).
-/
namespace StackGlyph

/-- The type of an element that is no array. -/
inductive ElementType where
  | byte | char | double | float | int | long | short | boolean
  /-- An object, by the internal name of its class. -/
  | object (name : String)
  deriving DecidableEq, Repr

structure FieldType where
  /-- The number of array dimensions. -/
  dims : Nat
  element : ElementType
  deriving DecidableEq, Repr

namespace ElementType

def descriptor : ElementType → String
  | .byte => "B" | .char => "C" | .double => "D" | .float => "F"
  | .int => "I" | .long => "J" | .short => "S" | .boolean => "Z"
  | .object name => "L" ++ name ++ ";"

/-- The name of an element type in source text, with dots in class names. -/
def sourceName : ElementType → String
  | .byte => "byte" | .char => "char" | .double => "double" | .float => "float"
  | .int => "int" | .long => "long" | .short => "short" | .boolean => "boolean"
  | .object name => String.ofList (name.toList.map fun c => if c = '/' then '.' else c)

/-- Reads an element type at the head of a text and gives the rest. An object's name reaches to the
first semicolon and is not empty. -/
def read? : List Char → Option (ElementType × List Char)
  | 'B' :: rest => some (.byte, rest)
  | 'C' :: rest => some (.char, rest)
  | 'D' :: rest => some (.double, rest)
  | 'F' :: rest => some (.float, rest)
  | 'I' :: rest => some (.int, rest)
  | 'J' :: rest => some (.long, rest)
  | 'S' :: rest => some (.short, rest)
  | 'Z' :: rest => some (.boolean, rest)
  | 'L' :: rest =>
    match rest.takeWhile (· != ';'), rest.dropWhile (· != ';') with
    | c :: name, _ :: after => some (.object (String.ofList (c :: name)), after)
    | _, _ => none
  | _ => none

/-- An element type that was read leaves a shorter text. -/
theorem length_of_read? {text rest : List Char} {t : ElementType}
    (h : read? text = some (t, rest)) : rest.length < text.length := by
  unfold read? at h
  split at h
  case h_9 body =>
    have hd : (body.dropWhile (· != ';')).length ≤ body.length :=
      (List.dropWhile_suffix _).length_le
    split at h <;> grind
  all_goals grind

end ElementType

namespace FieldType

def descriptor (t : FieldType) : String :=
  String.ofList (List.replicate t.dims '[') ++ t.element.descriptor

/-- The name of a field type in source text: `java.lang.String[]`. -/
def sourceName (t : FieldType) : String :=
  String.join (t.element.sourceName :: List.replicate t.dims "[]")

def slots (t : FieldType) : Nat :=
  match t.dims, t.element with
  | 0, .long | 0, .double => 2
  | _, _ => 1

/-- Reads a field type at the head of a text and gives the rest. On failure, the text at which no
element type starts. -/
def read (text : List Char) : Except (List Char) (FieldType × List Char) :=
  match ElementType.read? (text.dropWhile (· == '[')) with
  | some (element, rest) => .ok (⟨(text.takeWhile (· == '[')).length, element⟩, rest)
  | none => .error (text.dropWhile (· == '['))

/-- A field type that was read leaves a shorter text. -/
theorem length_of_read {text rest : List Char} {t : FieldType}
    (h : read text = .ok (t, rest)) : rest.length < text.length := by
  have hd : (text.dropWhile (· == '[')).length ≤ text.length := (List.dropWhile_suffix _).length_le
  unfold read at h
  split at h
  case h_1 element after he =>
    have := ElementType.length_of_read? he
    grind
  case h_2 => contradiction

def parse (text : String) : Except Fault FieldType :=
  match read text.toList with
  | .ok (t, []) => .ok t
  | .ok (_, _ :: _) => .error (.badDescriptor text)
  | .error body => .error (.badDescriptor (String.ofList body))

end FieldType

structure MethodType where
  params : List FieldType
  /-- Nothing for a method that gives no value. -/
  result : Option FieldType
  deriving DecidableEq, Repr

namespace MethodType

def descriptor (m : MethodType) : String :=
  "(" ++ String.join (m.params.map FieldType.descriptor) ++ ")" ++
    (m.result.map FieldType.descriptor).getD "V"

/-- Reads parameters up to the closing parenthesis and gives the text after it. -/
def readParams (found : Array FieldType) (text : List Char) :
    Option (List FieldType × List Char) :=
  if text.head? = some ')' then some (found.toList, text.tail)
  else
    match h : FieldType.read text with
    | .ok (t, rest) =>
      have := FieldType.length_of_read h
      readParams (found.push t) rest
    | .error _ => none
termination_by text.length

/-- Reads what follows the parameters: `V`, or one field type. -/
def readResult? (text : List Char) : Option (Option FieldType) :=
  if text = ['V'] then some none
  else match FieldType.read text with
    | .ok (t, []) => some (some t)
    | _ => none

def parse? (text : List Char) : Option MethodType :=
  match text with
  | '(' :: rest => do
    let (params, rest) ← readParams #[] rest
    let result ← readResult? rest
    return ⟨params, result⟩
  | _ => none

/-- Reads a method descriptor; a fault names the whole text. -/
def parse (text : String) : Except Fault MethodType :=
  match parse? text.toList with
  | some m => .ok m
  | none => .error (.badDescriptor text)

/-- Adds to a number of slots, which is kept in 16 bits. A sum beyond them is a fault. -/
def addSlots (counted slots : Nat) : Except Fault Nat :=
  if counted + slots ≤ 65535 then .ok (counted + slots) else .error .slotOverflow

/-- The slots of all parameters together. -/
def paramSlots (m : MethodType) : Except Fault Nat :=
  m.params.foldlM (fun counted t => addSlots counted t.slots) 0

def resultSlots (m : MethodType) : Nat :=
  (m.result.map FieldType.slots).getD 0

end MethodType

end StackGlyph
