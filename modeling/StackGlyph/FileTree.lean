/-!
# File trees

Directories and files as a value, with the rules by which a path leads to one of them: names apart
by slashes, `.` for the directory itself, `..` for the one above it. Paths that do not start with a
slash start in the working directory.

Source pin: Kemuri specification §6 and §7.4 name the files that are read and written; the file
system itself is outside. Links and permissions are left out.
-/
namespace StackGlyph

inductive FileFault where
  | notFound | notADirectory | isADirectory | nameTooLong | zeroInName | notText
  deriving DecidableEq, Repr

def FileFault.message : FileFault → String
  | .notFound => "No such file or directory (os error 2)"
  | .notADirectory => "Not a directory (os error 20)"
  | .isADirectory => "Is a directory (os error 21)"
  | .nameTooLong => "File name too long (os error 36)"
  | .zeroInName => "file name contained an unexpected NUL byte"
  | .notText => "stream did not contain valid UTF-8"

/-- A place in a tree: the names that lead to it from the top. -/
abbrev Place := List String

structure FileTree where
  /-- The working directory. -/
  here : Place := []
  /-- The directories other than the top. -/
  directories : List Place := []
  files : List (Place × List UInt8) := []

namespace FileTree

def maxNameLength : Nat := 255

def maxPathLength : Nat := 4095

def content? (t : FileTree) (place : Place) : Option (List UInt8) :=
  t.files.lookup place

def hasDirectory (t : FileTree) (place : Place) : Bool :=
  place.isEmpty || t.directories.contains place

/-- Follows names from a place. The last name need not exist, but what it stands in must be a
directory. -/
def follow (t : FileTree) (start : Place) : List String → Except FileFault Place
  | [] => .ok start
  | name :: rest =>
    if !t.hasDirectory start then
      .error (if (t.content? start).isSome then .notADirectory else .notFound)
    else if name.isEmpty || name = "." then follow t start rest
    else if name = ".." then follow t start.dropLast rest
    else if maxNameLength < name.utf8ByteSize then .error .nameTooLong
    else follow t (start ++ [name]) rest

def locate (t : FileTree) (path : String) : Except FileFault Place :=
  let chars := path.toList
  if chars.contains '\x00' then .error .zeroInName
  else if maxPathLength < path.utf8ByteSize then .error .nameTooLong
  else if chars.isEmpty then .error .notFound
  else
    let names := (chars.splitOn '/').map String.ofList
    t.follow (if chars.head? = some '/' then [] else t.here) names

def isDirectory (t : FileTree) (path : String) : Bool :=
  match t.locate path with
  | .ok place => t.hasDirectory place
  | .error _ => false

def isFile (t : FileTree) (path : String) : Bool :=
  match t.locate path with
  | .ok place => !t.hasDirectory place && (t.content? place).isSome
  | .error _ => false

def read (t : FileTree) (path : String) : Except FileFault (List UInt8) := do
  let place ← t.locate path
  if t.hasDirectory place then throw .isADirectory
  match t.content? place with
  | some bytes => return bytes
  | none => throw .notFound

/-- Bytes as text. -/
def textOf (bytes : List UInt8) : Except FileFault String :=
  match String.fromUTF8? bytes.toByteArray with
  | some text => .ok text
  | none => .error .notText

def readText (t : FileTree) (path : String) : Except FileFault String := do
  textOf (← t.read path)

/-- The tree with the file at a place replaced or added. -/
def put (t : FileTree) (place : Place) (bytes : List UInt8) : FileTree :=
  { t with files := (place, bytes) :: t.files.filter (·.1 ≠ place) }

/-- A way to write a whole file at a path. -/
abbrev Writer := String → List UInt8 → EStateM FileFault FileTree Unit

/-- Writes a whole file, or leaves the tree as it is. -/
def write : Writer := fun path bytes t =>
  match t.locate path with
  | .error cause => .error cause t
  | .ok place =>
    if t.hasDirectory place then .error .isADirectory t else .ok () (t.put place bytes)

def join (directory name : String) : String :=
  if directory.isEmpty || directory.toList.getLast? = some '/' then directory ++ name
  else directory ++ "/" ++ name

/-- The parts of a path: empty names and `.` are left out, but for a `.` at the front. -/
def parts (path : List Char) : List (List Char) :=
  match path.splitOn '/' with
  | [] => []
  | first :: rest =>
    (if first.isEmpty then [] else [first]) ++ rest.filter fun p => !p.isEmpty && p != ['.']

/-- The name of what a path leads to, if the path ends in one. -/
def fileName? (path : String) : Option (List Char) :=
  match (parts path.toList).getLast? with
  | some name => if name = ['.'] ∨ name = ['.', '.'] then none else some name
  | none => none

/-- A name without its extension: what stands before its last dot, unless that dot is its first
character. -/
def stem (name : List Char) : List Char :=
  match (name.reverse.dropWhile (· != '.')).drop 1 with
  | [] => name
  | before => before.reverse

end FileTree

end StackGlyph
