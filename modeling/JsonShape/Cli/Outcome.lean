import JsonShape.Cli.Failure

/-!
# Outcomes

What a run leaves behind: an exit code, the texts on both of its output channels, and the files.

A command first works out its `Delivery`, which touches nothing.  `Delivery.deliver` then prints
or writes the text, and this is all that changes anything.

The log is none of this: neither the warning that a type is defined anew nor what more verbose runs
tell of their progress is a notice.
-/

namespace JsonShape

/-- What a run leaves behind: its exit code, what it printed, its notices without the log, the files
as they are then, and the path and the text of the file that it wrote. -/
structure Outcome where
  exitCode : Nat
  printed : String
  notices : String
  files : FileSystem
  written : Option (String × String)

namespace Outcome

/-- The notice of a failed run. -/
def failureNotice (message : String) : String := "error: " ++ message ++ "\n"

/-- A run that failed before it had anything to deliver. -/
def failed (files : FileSystem) (failure : CliFailure) : Outcome :=
  ⟨1, "", failureNotice failure.message, files, none⟩

end Outcome

/-- The result of a command: a text with the file that it goes to, if it is not to be printed,
the notices before and after it, and whether all went well. -/
structure Delivery where
  text : String
  output : Option String
  before : String
  after : String
  succeeded : Bool

/-- The files after a text is written to a path, whose directories are made as needed, and the
failure that this ends in.  Directories that were made before a failure stay. -/
def FileSystem.writeOutput (files : FileSystem) (path text : String) :
    FileSystem × Option CliFailure :=
  let directories := FileSystem.parents path
  match files.makeDirectories directories with
  | (made, some fault) => (made, some (.uncreatable (directories.head?.getD "") fault))
  | (ready, none) =>
    match ready.write path text with
    | .error fault => (ready, some (.unwritable path fault))
    | .ok written => (written, none)

namespace Delivery

/-- The exit code of a delivery that could be made. -/
def exitCode (delivery : Delivery) : Nat := if delivery.succeeded then 0 else 1

/-- The outcome of making a delivery. -/
def deliver (delivery : Delivery) (files : FileSystem) : Outcome :=
  match delivery.output with
  | none =>
    ⟨delivery.exitCode, delivery.text, delivery.before ++ delivery.after, files, none⟩
  | some path =>
    match files.writeOutput path delivery.text with
    | (written, none) =>
      ⟨delivery.exitCode, "", delivery.before ++ delivery.after, written,
        some (path, delivery.text)⟩
    | (left, some failure) =>
      ⟨1, "", delivery.before ++ Outcome.failureNotice failure.message, left, none⟩

end Delivery

end JsonShape
