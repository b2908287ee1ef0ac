import JsonShape.Cli.Failure

/-!
# Sources

Where the program's texts come from.  A path with wildcards stands for the paths that it matches,
in their order, and must match one; a single hyphen is the standard input, which can be read
once and is empty from then on.

`Surroundings.loadDefinitions` reads definition files in order into one registry; a later file
may define names anew.
-/

namespace JsonShape

/-- What a run can read: files, and what is left of the standard input. -/
structure Surroundings where
  files : FileSystem
  input : String

/-- The path that stands for the standard input. -/
def standardInput : String := "-"

/-- The paths that a path stands for. -/
def resolvePath (files : FileSystem) (path : String) : Except CliFailure (List String) :=
  if Glob.isPattern path then
    match Glob.paths files path with
    | .error fault => .error (.malformedPattern path fault)
    | .ok [] => .error (.nothingMatches path)
    | .ok found => .ok found
  else .ok [path]

/-- The paths that several paths stand for. -/
def resolvePaths (files : FileSystem) : List String → Except CliFailure (List String)
  | [] => .ok []
  | path :: rest =>
    match resolvePath files path with
    | .error failure => .error failure
    | .ok found => (resolvePaths files rest).map (found ++ ·)

namespace Surroundings

/-- The text of a path, and what can be read after it. -/
def read (surroundings : Surroundings) (path : String) :
    Except CliFailure (String × Surroundings) :=
  if path = standardInput then .ok (surroundings.input, { surroundings with input := "" })
  else
    match surroundings.files.read path with
    | .error fault => .error (.unreadable path fault)
    | .ok text => .ok (text, surroundings)

/-- A registry with the definitions of several files added, one file after the other. -/
def addDefinitions (surroundings : Surroundings) (registry : Registry) :
    List String → Except CliFailure (Registry × Surroundings)
  | [] => .ok (registry, surroundings)
  | path :: rest =>
    match surroundings.read path with
    | .error failure => .error failure
    | .ok (text, after) =>
      match registry.addSource text.toList with
      | .error fault => .error (.definitions path fault)
      | .ok added => addDefinitions after added rest

/-- The registry of the definitions that some paths stand for. -/
def loadDefinitions (surroundings : Surroundings) (paths : List String) :
    Except CliFailure (Registry × Surroundings) :=
  match resolvePaths surroundings.files paths with
  | .error failure => .error failure
  | .ok found => surroundings.addDefinitions .empty found

end Surroundings

end JsonShape
