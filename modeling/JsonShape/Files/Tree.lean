/-!
# File trees

A file system as a tree: a node is a file or a directory, and the entries of a directory are in
name order.  A place in it is the list of names that lead there from the root, and relative paths
start at a home directory.

`FileSystem.locate` resolves a path one component at a time, as POSIX has it: every component
needs a directory to start from, a dot or nothing stays there, and two dots go up.
-/

namespace JsonShape

/-- A text file, a file that holds no text, or a directory. -/
inductive FileNode where
  | file (content : String)
  | binary
  | directory (entries : List (String × FileNode))

/-- Why a path cannot be used. -/
inductive FileFault where
  | notFound
  | alreadyThere
  | notDirectory
  | isDirectory
  | notText
  deriving DecidableEq, Repr

/-- The wording of a fault. -/
def FileFault.message : FileFault → String
  | notFound => "No such file or directory (os error 2)"
  | alreadyThere => "File exists (os error 17)"
  | notDirectory => "Not a directory (os error 20)"
  | isDirectory => "Is a directory (os error 21)"
  | notText => "stream did not contain valid UTF-8"

namespace FileNode

/-- Whether a node is a directory. -/
def isDirectory : FileNode → Bool
  | directory _ => true
  | _ => false

/-- The entry of a name. -/
def lookup? : List (String × FileNode) → String → Option FileNode
  | [], _ => none
  | (name, node) :: rest, wanted => if name = wanted then some node else lookup? rest wanted

/-- Entries in name order with a name set to a node. -/
def setEntry : List (String × FileNode) → String → FileNode → List (String × FileNode)
  | [], name, node => [(name, node)]
  | (other, old) :: rest, name, node =>
    if other = name then (name, node) :: rest
    else if name < other then (name, node) :: (other, old) :: rest
    else (other, old) :: setEntry rest name node

/-- The node at a place below a node. -/
def at? : FileNode → List String → Option FileNode
  | node, [] => some node
  | directory entries, name :: rest => (lookup? entries name).bind (·.at? rest)
  | _, _ :: _ => none

/-- A node with the node at a place set; directories on the way are made as needed. -/
def set (node : FileNode) : List String → FileNode → FileNode
  | [], new => new
  | name :: rest, new =>
    match node with
    | directory entries =>
      let inner := (lookup? entries name).getD (directory [])
      directory (setEntry entries name (inner.set rest new))
    | _ => directory [(name, (directory []).set rest new)]

end FileNode

/-- The parts of a path between its slashes. -/
def pathParts (path : String) : List String := path.splitOn "/"

/-- A file tree and the place where relative paths start. -/
structure FileSystem where
  root : FileNode
  home : List String

namespace FileSystem

/-- The place of one more component. -/
def step (files : FileSystem) (place : List String) (part : String) :
    Except FileFault (List String) :=
  match files.root.at? place with
  | some (.directory entries) =>
    if part = "" ∨ part = "." then .ok place
    else if part = ".." then .ok place.dropLast
    else
      match FileNode.lookup? entries part with
      | some _ => .ok (place ++ [part])
      | none => .error .notFound
  | some _ => .error .notDirectory
  | none => .error .notFound

/-- Where a path starts. -/
def origin (files : FileSystem) (path : String) : List String :=
  if path.startsWith "/" then [] else files.home

/-- The place of a path's components. -/
def locateParts (files : FileSystem) (start : List String) (parts : List String) :
    Except FileFault (List String) :=
  parts.foldlM files.step start

/-- The place of a path. -/
def locate (files : FileSystem) (path : String) : Except FileFault (List String) :=
  if path = "" then .error .notFound
  else files.locateParts (files.origin path) (pathParts path)

/-- The node of a path. -/
def node? (files : FileSystem) (path : String) : Option FileNode :=
  match files.locate path with
  | .ok place => files.root.at? place
  | .error _ => none

/-- Whether a path leads to a directory. -/
def isDirectory (files : FileSystem) (path : String) : Bool :=
  match files.node? path with
  | some node => node.isDirectory
  | none => false

/-- The content of a file. -/
def read (files : FileSystem) (path : String) : Except FileFault String :=
  (files.locate path).bind fun place =>
    match files.root.at? place with
    | some (.file content) => .ok content
    | some .binary => .error .notText
    | some (.directory _) => .error .isDirectory
    | none => .error .notFound

/-- The parts of a path without those at its end that name nothing. -/
def trimEnd (reversed : List String) : List String := reversed.dropWhile (· == "")

/-- A path's directory as a place, and its last name.  A path that ends in a slash, a dot or two
dots has no last name. -/
def split (files : FileSystem) (path : String) : Except FileFault (List String × Option String) :=
  if path = "" then .error .notFound
  else
    let reversed := (pathParts path).reverse
    match trimEnd reversed with
    | [] => .ok ([], none)
    | last :: outer =>
      (files.locateParts (files.origin path) outer.reverse).bind fun place =>
        match files.root.at? place with
        | some (.directory _) =>
          if last = "." ∨ last = ".." ∨ reversed.head? = some "" then .ok (place, none)
          else .ok (place, some last)
        | some _ => .error .notDirectory
        | none => .error .notFound

/-- The tree after a file is written, in a directory that is there. -/
def write (files : FileSystem) (path content : String) : Except FileFault FileSystem :=
  (files.split path).bind fun (place, last) =>
    match last with
    | none => .error .isDirectory
    | some name =>
      match files.root.at? (place ++ [name]) with
      | some (.directory _) => .error .isDirectory
      | _ => .ok { files with root := files.root.set (place ++ [name]) (.file content) }

/-- The tree after a directory is made in a directory that is there. -/
def makeDirectory (files : FileSystem) (path : String) : Except FileFault FileSystem :=
  let trimmed := "/".intercalate (trimEnd (pathParts path).reverse).reverse
  (files.split (if trimmed = "" then path else trimmed)).bind fun (place, last) =>
    match last with
    | none => .error .alreadyThere
    | some name =>
      match files.root.at? (place ++ [name]) with
      | some _ => .error .alreadyThere
      | none => .ok { files with root := files.root.set (place ++ [name]) (.directory []) }

/-- A path, given by its parts from the last to the first, and the paths of the directories that
it is in, innermost first; the home directory and the root are left out. -/
def enclosing : List String → List (List String)
  | [] => []
  | part :: outer =>
    if part = "" ∨ (part = "." ∧ outer ≠ []) then enclosing outer
    else (part :: outer) :: enclosing outer

/-- The directories that a path is in, innermost first. -/
def parents (path : String) : List String :=
  ((enclosing (pathParts path).reverse).drop 1).map fun parts =>
    "/".intercalate parts.reverse

/-- The tree after a directory is made where there is none, and the fault that stood in the way. -/
def ensureDirectory (files : FileSystem) (path : String) : FileSystem × Option FileFault :=
  match files.makeDirectory path with
  | .ok made => (made, none)
  | .error fault => (files, if files.isDirectory path then none else some fault)

/-- The tree after the first of some directories and, where it is needed, those around it are
made, and the fault that stood in the way.  What was made before a fault stays. -/
def makeDirectories (files : FileSystem) : List String → FileSystem × Option FileFault
  | [] => (files, none)
  | path :: outer =>
    match files.makeDirectory path with
    | .error .notFound =>
      match makeDirectories files outer with
      | (around, none) => around.ensureDirectory path
      | (around, some fault) => (around, some fault)
    | _ => files.ensureDirectory path

end FileSystem

end JsonShape
