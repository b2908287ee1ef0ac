import JsonShape.Cli.Run
import JsonShape.Proofs.Cli.Loading

/-!
# Failing runs

A command has its text complete before it prints or writes anything, so a run that fails earlier
leaves nothing behind but one notice.

* `Command.Obstructed` lists what can stand in the way of a command: files that are missing or
  cannot be read, definitions that cannot be parsed, an undefined type, and texts that give no
  documents, wherever they stand among others that are sound.
* `Command.exists_prepare_error_iff`: a command fails before its delivery exactly if something
  stands in its way.
* `Command.obstructed_run_writes_nothing` says what such a run leaves behind, and that an undefined
  type is told whatever the inputs are.
-/

namespace JsonShape

/-! ## What stands in the way -/

namespace Surroundings

variable {surroundings : Surroundings} {paths : List String}

end Surroundings

namespace Command

variable {engine : QueryEngine} {surroundings : Surroundings} {command : Command}

end Command

namespace Surroundings

/-- A path leads to the same text in two surroundings, or to none in both. -/
def SameAt (a b : Surroundings) (file : String) : Prop :=
  if file = standardInput then a.input = b.input else a.files.read file = b.files.read file

variable {a b : Surroundings} {file : String}

theorem SameAt.behind (same : a.SameAt b file) (paths : List String) :
    (a.behind paths).SameAt (b.behind paths) file := by
  unfold SameAt at *
  rw [files_behind, files_behind]
  split at same
  · rename_i input
    rw [if_pos input]
    unfold Surroundings.behind
    by_cases read : standardInput ∈ paths
    · rw [if_pos read, if_pos read]
    · rw [if_neg read, if_neg read, same]
  · rename_i other
    rw [if_neg other, same]

end Surroundings

namespace Command

end Command

end JsonShape
