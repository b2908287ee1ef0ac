import JsonShape.Files.Tree

/-!
# Glob patterns

A pattern is a path whose components may hold wildcards: `?` is any character, `*` any characters,
`[..]` and `[!..]` one character of a set or outside of it, and a component `**` any number of
directories.  A component without wildcards is looked up as it stands.

`Glob.paths` lists the paths that a pattern matches in a file tree: directory by directory, the
entries of each in name order and a directory before what it holds.
-/

namespace JsonShape.Glob

/-- What is wrong with a pattern. -/
inductive PatternCause where
  | wildcards
  | recursiveWildcards
  | range
  deriving DecidableEq, Repr

/-- A cause and its place in the pattern, in characters. -/
structure PatternFault where
  position : Nat
  cause : PatternCause
  deriving DecidableEq, Repr

/-- The wording of a cause. -/
def PatternCause.describe : PatternCause → String
  | wildcards => "wildcards are either regular `*` or recursive `**`"
  | recursiveWildcards => "recursive wildcards must form a single path component"
  | range => "invalid range pattern"

/-- The message of a faulty pattern. -/
def PatternFault.message (fault : PatternFault) : String :=
  "Pattern syntax error near position " ++ toString fault.position ++ ": " ++ fault.cause.describe

/-- A range of characters, both ends included. -/
structure CharRange where
  first : Char
  last : Char
  deriving DecidableEq, Repr

/-- One element of a component. -/
inductive Element where
  | char (c : Char)
  | anyChar
  | anyChars
  | oneOf (ranges : List CharRange)
  | noneOf (ranges : List CharRange)
  | anyDirectories
  deriving DecidableEq, Repr

/-! ## Reading patterns -/

/-- The ranges between brackets: a hyphen between two characters joins them. -/
def ranges : List Char → List CharRange
  | first :: '-' :: last :: rest => ⟨first, last⟩ :: ranges rest
  | c :: rest => ⟨c, c⟩ :: ranges rest
  | [] => []

/-- A text split at its first closing bracket behind at least one character. -/
def splitBracket? : List Char → Option (List Char × List Char)
  | [] => none
  | c :: rest =>
    let inside := rest.takeWhile (· != ']')
    match rest.dropWhile (· != ']') with
    | _ :: behind => some (c :: inside, behind)
    | [] => none

/-- A set of characters behind its opening bracket, and the text behind it. -/
def splitSet? : List Char → Option (Element × List Char)
  | '!' :: rest => (splitBracket? rest).map fun split => (.noneOf (ranges split.1), split.2)
  | text => (splitBracket? text).map fun split => (.oneOf (ranges split.1), split.2)

/-- The elements of a pattern; `before` is the character before the text and `position` the
number of characters before it.  Each step takes characters, at most `fuel` in all. -/
def elementsFrom (fuel : Nat) (before : Option Char) (position : Nat) (text : List Char) :
    Except PatternFault (List Element) :=
  match fuel, text with
  | _, [] => .ok []
  | 0, _ => .ok []
  | fuel + 1, c :: rest =>
    if c = '?' then (elementsFrom fuel (some c) (position + 1) rest).map (.anyChar :: ·)
    else if c = '*' then
      let stars := (text.takeWhile (· == '*')).length
      let behind := text.dropWhile (· == '*')
      if 2 < stars then .error ⟨position + 2, .wildcards⟩
      else if stars = 2 then
        if before = none ∨ before = some '/' then
          match behind with
          | [] => .ok [.anyDirectories]
          | d :: further =>
            if d = '/' then
              (elementsFrom fuel (some d) (position + 3) further).map (.anyDirectories :: ·)
            else .error ⟨position + 2, .recursiveWildcards⟩
        else .error ⟨position - 1, .recursiveWildcards⟩
      else (elementsFrom fuel (some c) (position + 1) behind).map (.anyChars :: ·)
    else if c = '[' then
      match splitSet? rest with
      | some (element, behind) =>
        (elementsFrom fuel (some ']') (position + (text.length - behind.length)) behind).map
          (element :: ·)
      | none => .error ⟨position, .range⟩
    else (elementsFrom fuel (some c) (position + 1) rest).map (.char c :: ·)

/-- The elements of a pattern. -/
def elements (text : List Char) : Except PatternFault (List Element) :=
  elementsFrom text.length none 0 text

/-- The text of a component without wildcards. -/
def literal? : List Element → Option (List Char)
  | [] => some []
  | .char c :: rest => (literal? rest).map (c :: ·)
  | _ => none

/-- Whether a character is in one of some ranges. -/
def inRanges (ranges : List CharRange) (c : Char) : Bool :=
  ranges.any fun range => range.first ≤ c && c ≤ range.last

/-- Whether some of the ends of a text pass a test, the whole text included. -/
def someSuffix (test : List Char → Bool) : List Char → Bool
  | [] => test []
  | c :: rest => test (c :: rest) || someSuffix test rest

/-- Whether a name matches a component. -/
def matchesName : List Element → List Char → Bool
  | [], name => name.isEmpty
  | .anyChars :: rest, name => someSuffix (matchesName rest) name
  | .anyDirectories :: rest, name => someSuffix (matchesName rest) name
  | .char c :: rest, d :: name => c == d && matchesName rest name
  | .anyChar :: rest, _ :: name => matchesName rest name
  | .oneOf set :: rest, d :: name => inRanges set d && matchesName rest name
  | .noneOf set :: rest, d :: name => !inRanges set d && matchesName rest name
  | _ :: _, [] => false

/-! ## Matching -/

/-- A path with the last name and the node that it leads to. -/
structure Found where
  path : String
  name : String
  node : FileNode

/-- A path into a directory. -/
def join (directory name : String) : String :=
  if directory = "" ∨ directory.endsWith "/" then directory ++ name
  else directory ++ "/" ++ name

/-- Whether a path is written as the current directory. -/
def isCurrent (path : String) : Bool :=
  let parts := pathParts path
  parts.head? = some "." && parts.all fun part => part == "." || part == ""

/-- The path of an entry; entries of the current directory bear their name alone. -/
def entryPath (directory name : String) : String :=
  if isCurrent directory then name else join directory name

mutual

/-- All nodes below some entries of a directory, each before what it holds. -/
def below (directory : String) : List (String × FileNode) → List Found
  | [] => []
  | (name, node) :: rest =>
    ⟨entryPath directory name, name, node⟩
      :: (inside (entryPath directory name) node ++ below directory rest)

/-- All nodes below a node. -/
def inside (path : String) : FileNode → List Found
  | .directory entries => below path entries
  | _ => []

end

/-- The entries of a directory. -/
def children (path : String) : FileNode → List Found
  | .directory entries =>
    entries.map fun (name, node) => ⟨entryPath path name, name, node⟩
  | _ => []

/-- The paths that match some components, from a path on. -/
def expand (files : FileSystem) (directoriesOnly : Bool) : List (List Element) → Found →
    List String
  | [], found => if directoriesOnly && !found.node.isDirectory then [] else [found.path]
  | component :: rest, here =>
    match literal? component with
    | some chars =>
      let name := String.ofList chars
      let path := if isCurrent here.path then name else join here.path name
      match files.node? path with
      | some node => expand files directoriesOnly rest ⟨path, name, node⟩
      | none => []
    | none =>
      if component = [.anyDirectories] then
        match rest with
        | [] => ((inside here.path here.node).filter (·.node.isDirectory)).map (·.path)
        | next :: further =>
          (inside here.path here.node).flatMap fun found =>
            if matchesName next found.name.toList then
              expand files directoriesOnly further found
            else []
      else
        let special (name : String) : List String :=
          let path := join here.path name
          if here.node.isDirectory && component.head? == some (.char '.')
              && matchesName component name.toList then
            match files.node? path with
            | some node => expand files directoriesOnly rest ⟨path, name, node⟩
            | none => []
          else []
        special ".." ++ special "." ++
          (children here.path here.node).flatMap fun found =>
            if matchesName component found.name.toList then
              expand files directoriesOnly rest found
            else []

/-- Components with each run of recursive ones made a single one. -/
def collapse : List (List Element) → List (List Element)
  | [.anyDirectories] :: [.anyDirectories] :: rest => collapse ([.anyDirectories] :: rest)
  | component :: rest => component :: collapse rest
  | [] => []

/-- The components of a pattern; a slash at its end ends no component of its own. -/
def components (pattern : String) : List String :=
  let parts := pathParts pattern
  if parts.length ≠ 1 ∧ parts.getLast? = some "" then parts.dropLast else parts

/-- The paths that a pattern matches. -/
def paths (files : FileSystem) (pattern : String) : Except PatternFault (List String) :=
  (elements pattern.toList).bind fun _ =>
    let absolute := pattern.startsWith "/"
    let relative := if absolute then String.ofList (pattern.toList.drop 1) else pattern
    ((components relative).mapM fun component => elements component.toList).map fun components =>
      let start := if absolute then "/" else "."
      match files.node? start with
      | some node =>
        expand files (pattern.endsWith "/") (collapse components) ⟨start, start, node⟩
      | none => []

/-- Whether a path is a pattern at all. -/
def isPattern (path : String) : Bool :=
  path.toList.any fun c => c == '*' || c == '?' || c == '['

end JsonShape.Glob
