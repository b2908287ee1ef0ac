import JsonShape.Files.Glob
import JsonShape.Query.Engine
import JsonShape.Registry

/-!
# Failures of a run

Why a run of the program ends before it has done its work, and how it says so.
-/

namespace JsonShape

/-- Why a run ends early. -/
inductive CliFailure where
  | malformedPattern (pattern : String) (fault : Glob.PatternFault)
  | nothingMatches (pattern : String)
  | unreadable (path : String) (fault : FileFault)
  | definitions (path : String) (fault : Fault)
  | undefinedType (missing : UndefinedType)
  | malformedFile (origin : String)
  | malformedLine (origin : String)
  | nothingSelected (pointer origin : String)
  | query (origin : String) (failure : QueryFailure)
  | uncreatable (directory : String) (fault : FileFault)
  | unwritable (path : String) (fault : FileFault)

/-- The message of a failure: what was tried, then why it failed. -/
def CliFailure.message : CliFailure → String
  | malformedPattern pattern fault => "invalid glob pattern: " ++ pattern ++ ": " ++ fault.message
  | nothingMatches pattern => "glob pattern matched no files: " ++ pattern
  | unreadable path fault => "failed to read " ++ path ++ ": " ++ fault.message
  | definitions path fault => "invalid definitions in " ++ path ++ ": " ++ fault.message
  | undefinedType missing => missing.message
  | malformedFile origin =>
    "failed to parse JSON source file (" ++ origin ++ "): " ++ omittedDetail
  | malformedLine origin => "failed to parse JSON line (" ++ origin ++ "): " ++ omittedDetail
  | nothingSelected pointer origin =>
    "JSON Pointer " ++ pointer ++ " selects nothing in " ++ origin
  | query origin failure =>
    "failed to apply jq expression to " ++ origin ++ ": " ++ failure.message
  | uncreatable directory fault => "failed to create " ++ directory ++ ": " ++ fault.message
  | unwritable path fault => "failed to write " ++ path ++ ": " ++ fault.message

end JsonShape
