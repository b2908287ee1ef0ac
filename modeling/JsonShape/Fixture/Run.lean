import JsonShape.Cli.Outcome
import JsonShape.Fixture.Basic

/-!
# Running fixtures

All fixture files that match a pattern are run, suite by suite, in the order of their paths.  A
file that cannot be read or a suite that cannot be run ends the run; the verdicts up to there
stand.

`runFixtures` reports every failed case, and then how many passed or what ended the run.
-/

namespace JsonShape

/-- Why a run of fixtures ends early. -/
inductive FixtureFailure where
  | malformedPattern (pattern : String) (fault : Glob.PatternFault)
  | nothingMatches (pattern : String)
  | unreadable (path : String) (fault : FileFault)
  | malformed (path : String) (trail : Trail)
  | suite (path name : String) (obstacle : Suite.Obstacle)

/-- The message of a failure. -/
def FixtureFailure.message : FixtureFailure → String
  | malformedPattern pattern fault => "invalid glob pattern: " ++ pattern ++ ": " ++ fault.message
  | nothingMatches pattern => "no fixture files match " ++ pattern
  | unreadable path fault => "failed to read " ++ path ++ ": " ++ fault.message
  | malformed path trail =>
    path ++ ": invalid fixture at " ++ trail.render ++ ": " ++ omittedDetail
  | suite path name (.definitions fault) =>
    path ++ ": suite `" ++ name ++ "` has invalid definitions: " ++ fault.message
  | suite path name (.undefinedType missing) =>
    path ++ ": suite `" ++ name ++ "`: " ++ missing.message

/-- The verdicts of a run, and what ended it early if anything did. -/
structure FixtureRun where
  verdicts : List Verdict
  failure : Option FixtureFailure

namespace FixtureRun

/-- A run that went on after some verdicts. -/
def after (verdicts : List Verdict) (run : FixtureRun) : FixtureRun :=
  ⟨verdicts ++ run.verdicts, run.failure⟩

/-- A run without verdicts that ended early. -/
def ended (failure : FixtureFailure) : FixtureRun := ⟨[], some failure⟩

/-- One run and, unless it ended early, another one. -/
def andThen (first second : FixtureRun) : FixtureRun :=
  match first.failure with
  | some _ => first
  | none => second.after first.verdicts

/-- The run of some suites of a file. -/
def ofSuites (path : String) : List Suite → FixtureRun
  | [] => ⟨[], none⟩
  | suite :: rest =>
    match suite.verdicts with
    | .error obstacle => ended (.suite path suite.name obstacle)
    | .ok verdicts => (ofSuites path rest).after verdicts

/-- The run of a file. -/
def ofFile (files : FileSystem) (path : String) : FixtureRun :=
  match files.read path with
  | .error fault => ended (.unreadable path fault)
  | .ok text =>
    match Suite.readAll text.toList with
    | .error complaint => ended (.malformed path complaint.trail)
    | .ok suites => ofSuites path suites

/-- The run of several files. -/
def ofFiles (files : FileSystem) : List String → FixtureRun
  | [] => ⟨[], none⟩
  | path :: rest => (ofFile files path).andThen (ofFiles files rest)

/-- The run of all files that match a pattern. -/
def ofPattern (files : FileSystem) (pattern : String) : FixtureRun :=
  match Glob.paths files pattern with
  | .error fault => ended (.malformedPattern pattern fault)
  | .ok [] => ended (.nothingMatches pattern)
  | .ok paths => ofFiles files paths

/-- How many cases passed. -/
def passed (run : FixtureRun) : Nat := (run.verdicts.filter Verdict.passed).length

/-- The verdicts on the cases that failed. -/
def failed (run : FixtureRun) : List Verdict := run.verdicts.filter fun verdict => !verdict.passed

/-- The last line of the report. -/
def closing (run : FixtureRun) : String :=
  match run.failure with
  | some failure => Outcome.failureNotice failure.message
  | none =>
    if run.failed = [] then "✅ " ++ toString run.passed ++ " cases passed\n"
    else
      "❌ " ++ toString run.failed.length ++ " failed, " ++ toString run.passed ++ " passed\n"

/-- Whether the run reached its end and every case passed. -/
def succeeded (run : FixtureRun) : Bool := run.failure.isNone && run.failed.isEmpty

/-- The whole report. -/
def report (run : FixtureRun) : String :=
  String.join (run.failed.map Verdict.notice) ++ run.closing

end FixtureRun

/-- The outcome of a run of the fixtures that match a pattern. -/
def runFixtures (files : FileSystem) (pattern : String) : Outcome :=
  let run := FixtureRun.ofPattern files pattern
  ⟨if run.succeeded then 0 else 1, "", run.report, files, none⟩

end JsonShape
