import StackGlyph.Console.Session

/-!
# The program

Looks up what a request needs in the file system and the environment, carries the request out, and
writes what it leaves behind.

Source pin: Kemuri specification §7.4 (command line).
-/
namespace StackGlyph.Console

def pathOf (place : Place) : String :=
  "/" ++ "/".intercalate place

/-- Adds what is found at a place to a tree. -/
def look (tree : FileTree) (place : Place) : IO FileTree := do
  let path := (← IO.currentDir) / pathOf place
  if ← path.isDir then
    return { tree with directories := place :: tree.directories }
  else if ← path.pathExists then
    return tree.put place (← IO.FS.readBinFile path).toList
  else
    return tree

/-- Looks at every step of a path. -/
def lookAlong (tree : FileTree) (path : String) : IO FileTree := do
  let names := (path.toList.splitOn '/').map String.ofList
  let start := if path.toList.head? = some '/' then [] else tree.here
  let step (place : Place) (name : String) : Place :=
    if name.isEmpty || name = "." then place
    else if name = ".." then place.dropLast
    else place ++ [name]
  let places := names.foldl (fun found name => step (found.headD start) name :: found) [start]
  places.foldlM look tree

partial def readAll (stream : IO.FS.Stream) (found : ByteArray) : IO ByteArray := do
  let chunk ← stream.read 65536
  if chunk.isEmpty then return found else readAll stream (found ++ chunk)

def surroundings (request : Request) : IO Surroundings := do
  let values ← variableNames.filterMapM fun name => do
    return (← IO.getEnv name).map fun value => (name, value)
  let setting? (name : String) : Option String := values.lookup name
  let here := ((← IO.currentDir).toString.splitOn "/").filter fun name => !name.isEmpty
  let tree ← (request.paths setting?).foldlM lookAlong { here, directories := [here] }
  let input ← match request with
    | .build o => if o.inputFile.isSome then pure .empty else readAll (← IO.getStdin) .empty
    | _ => pure .empty
  return { setting?, input := input.toList, tree }

/-- The surroundings of arguments that lead to no request. -/
def nowhere : Surroundings :=
  { setting? := fun _ => none, tree := {} }

end StackGlyph.Console

open StackGlyph.Console in
def main (args : List String) : IO UInt32 := do
  let s ← match readArguments args with
    | .ok invocation => surroundings invocation.request
    | .error _ => pure nowhere
  let report := invoke s args
  for (place, bytes) in report.tree.files do
    if s.tree.content? place ≠ some bytes then
      IO.FS.writeBinFile (pathOf place) bytes.toByteArray
  IO.print report.output
  IO.eprint report.errors
  return report.exitCode.toUInt32
