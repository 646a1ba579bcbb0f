import StackGlyph.Toml.Scalar

/-!
# TOML: documents

A document is a table of named nodes, written by key-value lines and table headers. A name is
defined once; a header may only complete a table that other headers brought about, dotted names only
one that dotted names brought about.

Source pin: Kemuri specification §7.3 (configuration) takes its files as TOML; the grammar is that
of TOML 1.0.
-/
namespace StackGlyph.Toml

/-- How a table came about. -/
inductive Origin where
  /-- Written between braces. -/
  | inline
  /-- Opened by a header, or the document itself. -/
  | header
  /-- Named on the way to a header's table. -/
  | implied
  /-- Named on the way to a dotted name. -/
  | dotted
  deriving DecidableEq, Repr

inductive Node where
  | string (s : String)
  | integer (v : Int)
  /-- A number that is no integer, a truth value, or a date. -/
  | other
  | array (items : List Node)
  | table (origin : Origin) (entries : List (String × Node))
  /-- Tables that a repeated header opened. -/
  | tables (items : List Node)

abbrev Entries := List (String × Node)

def Entries.put (entries : Entries) (name : String) (node : Node) : Entries :=
  if (entries.lookup name).isSome then
    entries.map fun (n, old) => if n = name then (n, node) else (n, old)
  else entries ++ [(name, node)]

/-- Defines a dotted name in a table. `through` says whether the table was reached by the name
itself. -/
def Entries.define (origin : Origin) (through : Bool) (entries : Entries) (name : String)
    (node : Node) : List String → Option Entries
  | [] =>
    if (origin == .dotted) == through && (entries.lookup name).isNone then
      some (entries.put name node)
    else none
  | step :: path =>
    match entries.lookup step with
    | none => do
      let inner ← Entries.define .dotted true [] name node path
      return entries.put step (.table .dotted inner)
    | some (.table origin inner) =>
      if origin = .implied ∨ origin = .dotted then do
        let inner ← Entries.define origin true inner name node path
        return entries.put step (.table origin inner)
      else none
    | some _ => none

/-- Changes the table at the end of a header's path. -/
def Entries.reach (change : Entries → Option Entries) (entries : Entries) :
    List String → Option Entries
  | [] => change entries
  | step :: path =>
    match entries.lookup step with
    | none => do
      let inner ← Entries.reach change [] path
      return entries.put step (.table .implied inner)
    | some (.table origin inner) =>
      if origin = .inline then none
      else do
        let inner ← Entries.reach change inner path
        return entries.put step (.table origin inner)
    | some (.tables items) =>
      match items.getLast? with
      | some (.table origin inner) => do
        let inner ← Entries.reach change inner path
        return entries.put step (.tables (items.dropLast ++ [.table origin inner]))
      | _ => none
    | some _ => none

def skipFiller (inComment : Bool) : List Char → Option (List Char)
  | [] => some []
  | '\n' :: rest => skipFiller false rest
  | '\r' :: '\n' :: rest => skipFiller false rest
  | c :: rest =>
    if inComment then if isPlain c then skipFiller true rest else none
    else if isSpace c then skipFiller false rest
    else if c = '#' then skipFiller true rest
    else some (c :: rest)

/-- Passes over what may stand between the items of an array or the lines of a document. -/
def filler : Scan Unit := fun text =>
  (skipFiller false text).map ((), ·)

/-- Takes the end of a line, with a comment before it if there is one. -/
def lineEnd : Scan Unit := do
  skipSpaces
  match ← get with
  | '#' :: rest => set (rest.dropWhile isPlain)
  | _ => pure ()
  match ← get with
  | [] => pure ()
  | text => do
    let rest ← afterBreak? text
    set rest

def isBare (c : Char) : Bool :=
  c.isAlphanum || c == '_' || c == '-'

def readName : Scan String := fun text =>
  match text with
  | '\x22' :: rest => readBasic #[] rest
  | '\x27' :: rest => readLiteral rest
  | _ =>
    match text.takeWhile isBare with
    | [] => none
    | name => some (String.ofList name, text.dropWhile isBare)

/-- How many parts a dotted name may have, and how many values may lie inside each other. -/
def maxDepth : Nat := 79

/-- A dotted name of at most `room` parts: the path to its last part, and that part. -/
def readPath (before : Array String) (room : Nat) : Scan (List String × String) :=
  match room with
  | 0 => failure
  | room + 1 => do
    skipSpaces
    let name ← readName
    skipSpaces
    match ← get with
    | '.' :: rest => do
      set rest
      readPath (before.push name) room
    | _ => return (before.toList, name)

def readKey : Scan (List String × String) :=
  readPath #[] maxDepth

/-- A number, a truth value or a date. A date and a time may be apart by a space. -/
def readScalar : Scan Node := fun text =>
  let inToken (c : Char) : Bool := c.isAlphanum || ['+', '-', '_', '.', ':'].contains c
  let token := text.takeWhile inToken
  let rest := text.dropWhile inToken
  let spaced := token ++ ' ' :: (rest.drop 1).takeWhile inToken
  if rest.head? = some ' ' ∧ isDateTime spaced then
    some (.other, (rest.drop 1).dropWhile inToken)
  else
    match integer? token with
    | some v => some (.integer v, rest)
    | none =>
      if token = ['t', 'r', 'u', 'e'] ∨ token = ['f', 'a', 'l', 's', 'e'] ∨ isFloat token
          ∨ isDateTime token then
        some (.other, rest)
      else none

mutual

/-- A value that holds others to a depth of at most `room`. `fuel` bounds the work. -/
def readValue (room : Nat) : Nat → Scan Node
  | 0 => failure
  | fuel + 1 => do
    match ← get with
    | '[' :: rest => do
      guard (0 < room)
      set rest
      return .array (← readItems (room - 1) #[] fuel)
    | '\x7b' :: rest => do
      guard (0 < room)
      set (rest.dropWhile isSpace)
      match ← get with
      | '\x7d' :: rest => do
        set rest
        return .table .inline []
      | _ => return .table .inline (← readPairs (room - 1) [] fuel)
    | '\x22' :: _ | '\x27' :: _ => return .string (← readString)
    | _ => readScalar

/-- The items of an array up to its end; a comma may follow the last. -/
def readItems (room : Nat) (found : Array Node) : Nat → Scan (List Node)
  | 0 => failure
  | fuel + 1 => do
    filler
    match ← get with
    | ']' :: rest => do
      set rest
      return found.toList
    | _ => do
      let item ← readValue room fuel
      filler
      match ← get with
      | ',' :: rest => do
        set rest
        readItems room (found.push item) fuel
      | _ => do
        expect ']'
        return (found.push item).toList

/-- The entries of a table between braces, up to its end, all on one line. -/
def readPairs (room : Nat) (entries : Entries) : Nat → Scan Entries
  | 0 => failure
  | fuel + 1 => do
    let (path, name) ← readKey
    expect '='
    skipSpaces
    let node ← readValue room fuel
    skipSpaces
    let entries ← entries.define .inline false name node path
    match ← get with
    | ',' :: rest => do
      set rest
      readPairs room entries fuel
    | _ => do
      expect '\x7d'
      return entries

end

/-- A document under construction: what was closed, and the table that lines now add to. -/
structure Draft where
  closed : Entries := []
  /-- The path of the open table and its name; nothing for the document itself. -/
  place : Option (List String × String) := none
  /-- Whether the open table is one of several under a repeated header. -/
  repeated : Bool := false
  entries : Entries := []

namespace Draft

def close (d : Draft) : Option Entries :=
  match d.place with
  | none => some d.entries
  | some (path, name) =>
    let place (es : Entries) : Option Entries :=
      if d.repeated then
        match es.lookup name with
        | none => some (es.put name (.tables [.table .header d.entries]))
        | some (.tables items) =>
          some (es.put name (.tables (items ++ [.table .header d.entries])))
        | some _ => none
      else some (es.put name (.table .header d.entries))
    Entries.reach place d.closed path

def node? (entries : Entries) (name : String) : List String → Option Node
  | [] => entries.lookup name
  | step :: path =>
    match entries.lookup step with
    | some (.table _ inner) => node? inner name path
    | some (.tables items) =>
      match items.getLast? with
      | some (.table _ inner) => node? inner name path
      | _ => none
    | _ => none

def openTable (d : Draft) (repeated : Bool) (path : List String) (name : String) :
    Option Draft := do
  let closed ← d.close
  match node? closed name path, repeated with
  | none, _ | some (.tables _), true =>
    return { closed, place := some (path, name), repeated, entries := [] }
  | some (.table .implied entries), false =>
    return { closed, place := some (path, name), repeated, entries }
  | _, _ => failure

end Draft

/-- The lines of a document. `fuel` bounds their number. -/
def readLines (d : Draft) : Nat → Scan Entries
  | 0 => failure
  | fuel + 1 => do
    filler
    match ← get with
    | [] => d.close
    | '[' :: '[' :: rest => do
      set rest
      let (path, name) ← readKey
      expect ']'
      expect ']'
      lineEnd
      readLines (← d.openTable true path name) fuel
    | '[' :: rest => do
      set rest
      let (path, name) ← readKey
      expect ']'
      lineEnd
      readLines (← d.openTable false path name) fuel
    | text => do
      let (path, name) ← readKey
      expect '='
      skipSpaces
      let node ← readValue maxDepth (2 * text.length + 2)
      lineEnd
      let entries ← d.entries.define .header false name node path
      readLines { d with entries } fuel

/-- The entries of a well-formed document. A byte order mark at its front is passed over. -/
def parse? (text : String) : Option Entries :=
  let chars := text.toList
  let chars := if chars.head? = some '\ufeff' then chars.tail else chars
  (readLines {} (chars.length + 1) chars).map Prod.fst

end StackGlyph.Toml
