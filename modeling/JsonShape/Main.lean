import JsonShape.Cli.Run

/-!
# The program

The outer layer of the command line.  It reads from the disk what the arguments speak of, runs
the program on that, writes the file that came of it, and prints the rest.

What is read is a part of the disk as a tree: the files that are named, and below the fixed part
of every pattern the names of all entries, so that the pattern can be matched.
-/

namespace JsonShape

/-- The paths that a command reads. -/
def Command.sources : Command → List String
  | check definitions inputs _ _ _ => definitions ++ inputs
  | schema definitions _ _ => definitions
  | types definitions _ _ => definitions

/-- The path that a command writes. -/
def Command.target? : Command → Option String
  | check _ _ _ _ output | schema _ _ output | types _ _ output => output

/-- The directory that a pattern starts in: its components before the first with wildcards. -/
def Glob.base (pattern : String) : String :=
  match "/".intercalate ((pathParts pattern).takeWhile fun part => !isPattern part) with
  | "" => if pattern.startsWith "/" then "/" else "."
  | base => base

/-- The place of a path as it is written, whatever there is. -/
def FileSystem.nominalPlace (files : FileSystem) (path : String) : List String :=
  (pathParts path).foldl
    (fun place part =>
      if part = "" ∨ part = "." then place
      else if part = ".." then place.dropLast
      else place ++ [part])
    (files.origin path)

namespace Disk

/-- The names below a directory, with empty files; links to directories are not followed. -/
partial def names (path : String) : IO FileNode := do
  let mut entries := []
  for entry in ← (← IO.FS.realPath path).readDir do
    let isDirectory := (← entry.path.symlinkMetadata).type == .dir
    let node ← if isDirectory then names entry.path.toString else pure (.file "")
    entries := FileNode.setEntry entries entry.fileName node
  return .directory entries

/-- What a path leads to; of a directory only that it is there. -/
def node? (path : String) : IO (Option FileNode) := do
  try
    let place ← IO.FS.realPath path
    if ← place.isDir then return some (.directory [])
    let bytes ← IO.FS.readBinFile place
    return some (match String.fromUTF8? bytes with
      | some text => .file text
      | none => .binary)
  catch _ => return none

/-- A file system with what a path leads to added. -/
def addPath (files : FileSystem) (path : String) : IO FileSystem := do
  let place := files.nominalPlace path
  match ← node? path with
  | none => return files
  | some node =>
    if node.isDirectory && (files.root.at? place).isSome then return files
    return { files with root := files.root.set place node }

/-- A file system with the names that a pattern is matched against added. -/
def addPattern (files : FileSystem) (pattern : String) : IO FileSystem := do
  let base := Glob.base pattern
  try
    return { files with root := files.root.set (files.nominalPlace base) (← names base) }
  catch _ => return files

/-- The paths that a path stands for, none if it is a pattern that cannot be resolved. -/
def pathsOf (files : FileSystem) (path : String) : List String :=
  match resolvePath files path with
  | .ok paths => paths
  | .error _ => []

/-- What a command finds on the disk and on the standard input. -/
def surroundings (command : Command) : IO Surroundings := do
  let home := (pathParts (← IO.FS.realPath ".").toString).filter (· != "")
  let mut files : FileSystem := ⟨FileNode.set (.directory []) home (.directory []), home⟩
  for pattern in command.sources.filter Glob.isPattern do
    files ← addPattern files pattern
  let paths := command.sources.flatMap (pathsOf files)
  let written := command.target?.toList
  for path in paths ++ written ++ written.flatMap FileSystem.parents do
    if path != standardInput then files ← addPath files path
  let input ← if paths.contains standardInput then (← IO.getStdin).readToEnd else pure ""
  return ⟨files, input⟩

/-- Makes the directories of a command's outcome, and writes its file. -/
def store (command : Command) (outcome : Outcome) : IO Unit := do
  for directory in (command.target?.toList.flatMap FileSystem.parents).reverse do
    if outcome.files.isDirectory directory then IO.FS.createDirAll directory
  if let some (path, text) := outcome.written then IO.FS.writeFile path text

/-- Prints the texts of an outcome and answers its exit code. -/
def conclude (outcome : Outcome) : IO UInt32 := do
  IO.print outcome.printed
  IO.eprint outcome.notices
  return outcome.exitCode.toUInt32

end Disk

end JsonShape

open JsonShape in
/-- Runs the program on the disk. -/
def main (arguments : List String) : IO UInt32 := do
  match Command.ofArguments arguments with
  | .error _ => Disk.conclude (runProgram ⟨⟨.directory [], []⟩, ""⟩ arguments)
  | .ok command =>
    let outcome := runProgram (← Disk.surroundings command) arguments
    Disk.store command outcome
    Disk.conclude outcome
