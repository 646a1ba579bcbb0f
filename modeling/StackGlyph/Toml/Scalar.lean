/-!
# TOML: strings and other scalars

Readers for the values of TOML 1.0 that hold no other values. A reader takes characters from the
front of the text or refuses the text. Numbers other than integers, truth values and dates are
checked, but only their presence is kept.
-/
namespace StackGlyph.Toml

abbrev Scan (α : Type) := StateT (List Char) Option α

def isSpace (c : Char) : Bool :=
  c == ' ' || c == '\t'

/-- A character that may stand in a comment or a string: no control character but the tab. -/
def isPlain (c : Char) : Bool :=
  c == '\t' || (0x20 ≤ c.toNat && c.toNat ≤ 0x7E) || 0x80 ≤ c.toNat

def expect (c : Char) : Scan Unit := fun text =>
  match text with
  | d :: rest => if d = c then some ((), rest) else none
  | [] => none

def skipSpaces : Scan Unit :=
  modify (·.dropWhile isSpace)

def afterBreak? : List Char → Option (List Char)
  | '\n' :: rest | '\r' :: '\n' :: rest => some rest
  | _ => none

def valueIn (base : Nat) (digits : List Char) : Nat :=
  digits.foldl (fun n c => base * n +
    (if c.isDigit then c.toNat - 48 else c.toLower.toNat - 87)) 0

def isHexDigit (c : Char) : Bool :=
  c.isDigit || ('a' ≤ c.toLower && c.toLower ≤ 'f')

/-- The character with the given hexadecimal code point. -/
def scalar? (digits : List Char) : Option Char :=
  let n := valueIn 16 digits
  if digits.all isHexDigit ∧ n.isValidChar then some (Char.ofNat n) else none

/-- The character that a backslash and a letter stand for. -/
def escaped? : Char → Option Char
  | 'b' => some '\x08'
  | 't' => some '\t'
  | 'n' => some '\n'
  | 'f' => some '\x0c'
  | 'r' => some '\r'
  | '\x22' => some '\x22'
  | '\x5c' => some '\x5c'
  | _ => none

/-- The character after a backslash: an escape letter, or a code point of four or eight digits. -/
def readEscape? : List Char → Option (Char × List Char)
  | 'u' :: a :: b :: c :: d :: rest => (scalar? [a, b, c, d]).map (·, rest)
  | 'U' :: a :: b :: c :: d :: e :: f :: g :: h :: rest =>
    (scalar? [a, b, c, d, e, f, g, h]).map (·, rest)
  | c :: rest => (escaped? c).map (·, rest)
  | [] => none

/-- An escape that was read leaves a shorter text. -/
theorem length_of_readEscape? {text rest : List Char} {c : Char}
    (h : readEscape? text = some (c, rest)) : rest.length < text.length := by
  unfold readEscape? at h
  split at h <;> simp only [Option.map_eq_some_iff, Prod.mk.injEq, reduceCtorEq] at h
  all_goals
    obtain ⟨_, _, _, rfl⟩ := h
    simp only [List.length_cons]
    omega

def readBasic (found : Array Char) (text : List Char) : Option (String × List Char) :=
  match text with
  | [] => none
  | c :: rest =>
    if c = '\x22' then some (String.ofList found.toList, rest)
    else if c = '\x5c' then
      match h : readEscape? rest with
      | some (c, after) =>
        have := length_of_readEscape? h
        readBasic (found.push c) after
      | none => none
    else if isPlain c then readBasic (found.push c) rest
    else none
termination_by text.length

/-- The rest of a string between single quotes, in which nothing is escaped. -/
def readLiteral (text : List Char) : Option (String × List Char) :=
  let inside (c : Char) : Bool := isPlain c && c != '\x27'
  match text.dropWhile inside with
  | '\x27' :: rest => some (String.ofList (text.takeWhile inside), rest)
  | _ => none

/-- The end of a string between triple quotes: up to two more quotes belong to the string. Gives the
quotes that belong to it and the text after it, if at least three stand at the front. -/
def tripleEnd? (quote : Char) (text : List Char) : Option (List Char × List Char) :=
  let run := (text.takeWhile (· == quote)).length
  if run < 3 then none
  else
    let extra := min (run - 3) 2
    some (List.replicate extra quote, text.drop (3 + extra))

/-- The rest of a string between triple single quotes. Line breaks read as line feeds. -/
def readMultiLiteral (found : Array Char) : List Char → Option (String × List Char)
  | [] => none
  | '\r' :: '\n' :: rest => readMultiLiteral (found.push '\n') rest
  | c :: rest =>
    match tripleEnd? '\x27' (c :: rest) with
    | some (quotes, after) => some (String.ofList (found.toList ++ quotes), after)
    | none =>
      if c = '\n' ∨ isPlain c then readMultiLiteral (found.push c) rest else none

/-- The rest of a string between triple double quotes. After a backslash at the end of a line, all
white space up to the next other character is left out; `trimming` says that this is under way. -/
def readMultiBasic (trimming : Bool) (found : Array Char) (text : List Char) :
    Option (String × List Char) :=
  match text with
  | [] => none
  | '\r' :: '\n' :: rest =>
    readMultiBasic trimming (if trimming then found else found.push '\n') rest
  | c :: rest =>
    match tripleEnd? '\x22' (c :: rest) with
    | some (quotes, after) => some (String.ofList (found.toList ++ quotes), after)
    | none =>
      if trimming && (c == '\n' || isSpace c) then readMultiBasic true found rest
      else if c = '\x5c' then
        match h : readEscape? rest with
        | some (c, after) =>
          have := length_of_readEscape? h
          readMultiBasic false (found.push c) after
        | none =>
          if (afterBreak? (rest.dropWhile isSpace)).isSome then readMultiBasic true found rest
          else none
      else if c = '\n' ∨ isPlain c then readMultiBasic false (found.push c) rest
      else none
termination_by text.length

def dropBreak (text : List Char) : List Char :=
  (afterBreak? text).getD text

/-- A string in any of its four forms. -/
def readString : Scan String := fun text =>
  match text with
  | '\x22' :: '\x22' :: '\x22' :: rest => readMultiBasic false #[] (dropBreak rest)
  | '\x22' :: rest => readBasic #[] rest
  | '\x27' :: '\x27' :: '\x27' :: rest => readMultiLiteral #[] (dropBreak rest)
  | '\x27' :: rest => readLiteral rest
  | _ => none

/-- Digits in which single underscores may stand between two digits. -/
def grouped? (isDigit : Char → Bool) (token : List Char) : Option (List Char) :=
  let groups := token.splitOn '_'
  if groups.all fun g => !g.isEmpty && g.all isDigit then some groups.flatten else none

def decimalDigits? (token : List Char) : Option (List Char) := do
  let digits ← grouped? Char.isDigit token
  guard (digits.head? ≠ some '0' ∨ digits.length = 1)
  return digits

def decimal? (token : List Char) : Option Nat :=
  (decimalDigits? token).map (valueIn 10)

/-- A number in a base that is marked by its first two characters. -/
def based? (base : Nat) (isDigit : Char → Bool) (token : List Char) : Option Int := do
  let digits ← grouped? isDigit token
  return valueIn base digits

def integer? (token : List Char) : Option Int := do
  let v ← match token with
    | '0' :: 'x' :: digits => based? 16 isHexDigit digits
    | '0' :: 'o' :: digits => based? 8 (fun c => '0' ≤ c && c ≤ '7') digits
    | '0' :: 'b' :: digits => based? 2 (fun c => c == '0' || c == '1') digits
    | '+' :: digits => (decimal? digits).map Int.ofNat
    | '-' :: digits => (decimal? digits).map fun n => -Int.ofNat n
    | digits => (decimal? digits).map Int.ofNat
  guard (-0x8000000000000000 ≤ v ∧ v < 0x8000000000000000)
  return v

def unsigned : List Char → List Char
  | '+' :: rest | '-' :: rest => rest
  | token => token

def exponent? : List Char → Option Int
  | 'e' :: rest | 'E' :: rest => do
    let n : Int := valueIn 10 (← grouped? Char.isDigit (unsigned rest))
    return if rest.head? = some '-' then -n else n
  | _ => none

/-- A number without sign that has a fraction, an exponent or both: all its digits, and the power of
ten that they count. -/
def scientific? (token : List Char) : Option (List Char × Int) := do
  let inNumber (c : Char) : Bool := c.isDigit || c == '_'
  let whole ← decimalDigits? (token.takeWhile inNumber)
  match token.dropWhile inNumber with
  | '.' :: rest => do
    let fraction ← grouped? Char.isDigit (rest.takeWhile inNumber)
    let exponent ← match rest.dropWhile inNumber with
      | [] => some 0
      | rest => exponent? rest
    return (whole ++ fraction, exponent - fraction.length)
  | rest => return (whole, ← exponent? rest)

/-- The least number that rounds to no finite double: it lies half a unit above the largest. -/
def doubleBound : Nat :=
  1 <<< 1024 - 1 <<< 970

/-- Whether digits that count a power of ten stay below `doubleBound`. The bound has 309 digits, so
that only numbers of the same size need to be compared with it. -/
def fitsDouble (digits : List Char) (exponent : Int) : Bool :=
  let digits := digits.dropWhile (· == '0')
  let size := digits.length + exponent
  digits.isEmpty || size < 309 ||
    (size == 309 &&
      valueIn 10 digits * Nat.pow 10 exponent.toNat <
        doubleBound * Nat.pow 10 (-exponent).toNat)

/-- Whether a token is a floating-point number. It may not be too large to be finite, but a negative
one may be of any size. -/
def isFloat (token : List Char) : Bool :=
  let body := unsigned token
  body == ['i', 'n', 'f'] || body == ['n', 'a', 'n'] ||
    match scientific? body with
    | some (digits, exponent) => token.head? == some '-' || fitsDouble digits exponent
    | none => false

def readField (n low high : Nat) : Scan Nat := fun text =>
  let digits := text.take n
  let v := valueIn 10 digits
  if digits.length = n ∧ digits.all Char.isDigit ∧ low ≤ v ∧ v ≤ high then some (v, text.drop n)
  else none

def daysIn (year month : Nat) : Nat :=
  if month = 2 then
    if year % 4 = 0 ∧ (year % 100 ≠ 0 ∨ year % 400 = 0) then 29 else 28
  else if [4, 6, 9, 11].contains month then 30 else 31

def readDate : Scan Unit := do
  let year ← readField 4 0 9999
  expect '-'
  let month ← readField 2 1 12
  expect '-'
  discard <| readField 2 1 (daysIn year month)

def readTime : Scan Unit := do
  discard <| readField 2 0 23
  expect ':'
  discard <| readField 2 0 59
  expect ':'
  discard <| readField 2 0 60
  match ← get with
  | '.' :: rest =>
    guard (rest.head?.any Char.isDigit)
    set (rest.dropWhile Char.isDigit)
  | _ => pure ()

def readZone : Scan Unit := do
  match ← get with
  | 'Z' :: rest | 'z' :: rest => set rest
  | '+' :: rest | '-' :: rest => do
    set rest
    discard <| readField 2 0 23
    expect ':'
    discard <| readField 2 0 59
  | _ => pure ()

/-- Whether a token is a date, a time, or both, with a zone or without. -/
def isDateTime (token : List Char) : Bool :=
  let ends (scan : Scan Unit) (text : List Char) : Bool := scan text == some ((), [])
  ends readTime token ||
    match readDate token with
    | some ((), []) => true
    | some ((), c :: rest) =>
      (c == 'T' || c == 't' || c == ' ') && ends (do readTime; readZone) rest
    | none => false

end StackGlyph.Toml
