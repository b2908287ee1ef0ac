import JsonShape.Proofs.Fixture.Verdicts
import JsonShape.Proofs.Json.Reading
import Mathlib

/-!
# Runs of fixtures

A run that reaches its end is put together from the verdicts on all suites of all files, and nothing
is in it twice.

* `FixtureRun.ofSuites_eq_iff`, `FixtureRun.ofFile_eq_iff`, `FixtureRun.ofFiles_eq_iff`,
  `FixtureRun.ofPattern_eq_iff`: which runs reach their end, and with which verdicts.
* `runFixtures_exitCode_iff`: a run succeeds exactly if there are files, all of them hold suites, and
  all suites conform.
* `FixtureRun.Accounts`: a run that reaches its end counts each case once (`accounts_of_finished`).
* `runFixtures_sound_complete` puts this together, with what the texts of the files have to say.
-/

namespace JsonShape

namespace FixtureRun

/-! ## Runs that reach their end -/

theorem ended_ne (failure : FixtureFailure) (verdicts : List Verdict) :
    ended failure ≠ ⟨verdicts, none⟩ := by
  intro same
  cases same

theorem after_eq_iff {own verdicts : List Verdict} {run : FixtureRun} :
    run.after own = ⟨verdicts, none⟩ ↔ ∃ others, run = ⟨others, none⟩ ∧ verdicts = own ++ others := by
  obtain ⟨others, failure⟩ := run
  simp [after, eq_comm, and_comm]

theorem andThen_eq_iff {first second : FixtureRun} {verdicts : List Verdict} :
    first.andThen second = ⟨verdicts, none⟩ ↔
      ∃ own others, first = ⟨own, none⟩ ∧ second = ⟨others, none⟩ ∧ verdicts = own ++ others := by
  obtain ⟨own, failure⟩ := first
  cases failure with
  | some failure => simp [andThen]
  | none => simp [andThen, after_eq_iff]

theorem ofSuites_eq_iff {path : String} {suites : List Suite} {verdicts : List Verdict} :
    ofSuites path suites = ⟨verdicts, none⟩ ↔
      Gathers (fun suite own => suite.verdicts = .ok own) suites verdicts := by
  induction suites generalizing verdicts with
  | nil => simp [ofSuites, Gathers.nil_iff, eq_comm]
  | cons suite rest ih =>
    rw [ofSuites, Gathers.cons_iff]
    cases suite.verdicts with
    | error obstacle => simp [ended_ne]
    | ok own => simp [after_eq_iff, ih]

theorem ofFile_eq_iff {files : FileSystem} {path : String} {verdicts : List Verdict} :
    ofFile files path = ⟨verdicts, none⟩ ↔
      ∃ suites, files.HoldsSuites path suites ∧
        Gathers (fun suite own => suite.verdicts = .ok own) suites verdicts := by
  unfold ofFile FileSystem.HoldsSuites
  cases files.read path with
  | error fault => simp [ended_ne]
  | ok text =>
    simp only [Except.ok.injEq, exists_eq_left']
    cases Suite.readAll text.toList <;> simp [ended_ne, ofSuites_eq_iff]

theorem ofFiles_eq_iff {files : FileSystem} {paths : List String} {verdicts : List Verdict} :
    ofFiles files paths = ⟨verdicts, none⟩ ↔
      Gathers (fun path own => ofFile files path = ⟨own, none⟩) paths verdicts := by
  induction paths generalizing verdicts with
  | nil => simp [ofFiles, Gathers.nil_iff, eq_comm]
  | cons path rest ih => simp only [ofFiles, andThen_eq_iff, ih, Gathers.cons_iff]

/-- A run reaches its end exactly if there are files, all of them hold suites, and all suites can be
run; its verdicts are theirs, in order. -/
theorem ofPattern_eq_iff {files : FileSystem} {pattern : String} {verdicts : List Verdict} :
    ofPattern files pattern = ⟨verdicts, none⟩ ↔
      ∃ paths, Glob.paths files pattern = .ok paths ∧ paths ≠ [] ∧
        ∃ suites, Gathers files.HoldsSuites paths suites ∧
          Gathers (fun suite own => suite.verdicts = .ok own) suites verdicts := by
  unfold ofPattern
  cases Glob.paths files pattern with
  | error fault => simp [ended_ne]
  | ok paths =>
    cases paths with
    | nil => simp [ended_ne]
    | cons path rest => simp [ofFiles_eq_iff, ofFile_eq_iff, Gathers.gathers_iff]

theorem eq_of_failure {run : FixtureRun} (finished : run.failure = none) :
    run = ⟨run.verdicts, none⟩ := by
  rw [← finished]

/-! ## Counting -/

/-- Every verdict of a run is counted as passed or as failed. -/
theorem passed_add_failed (run : FixtureRun) :
    run.passed + run.failed.length = run.verdicts.length :=
  (List.length_eq_length_filter_add _).symm

theorem succeeded_iff {run : FixtureRun} :
    run.succeeded = true ↔ ∃ verdicts, run = ⟨verdicts, none⟩ ∧
      ∀ verdict ∈ verdicts, verdict.passed = true := by
  obtain ⟨verdicts, failure⟩ := run
  simp [succeeded, failed]

end FixtureRun

/-! ## When a run succeeds -/

/-- All cases of some files pass exactly if all their suites conform. -/
theorem exists_passed_gathers_iff {files : FileSystem} {paths : List String} {suites : List Suite}
    (holds : Gathers files.HoldsSuites paths suites) :
    (∃ verdicts, Gathers (fun suite own => suite.verdicts = .ok own) suites verdicts ∧
        ∀ verdict ∈ verdicts, verdict.passed = true) ↔
      ∀ suite ∈ suites, suite.Conforms := by
  simp only [Gathers.all_iff, Gathers.exists_iff]
  exact forall₂_congr fun suite listed =>
    Suite.exists_passed_iff (FileSystem.HoldsSuites.readable_of_gathers holds listed)

/-- A run succeeds exactly if there are files, all of them hold suites, and all suites conform. -/
theorem runFixtures_exitCode_iff {files : FileSystem} {pattern : String} :
    (runFixtures files pattern).exitCode = 0 ↔
      ∃ paths, Glob.paths files pattern = .ok paths ∧ paths ≠ [] ∧ ∀ path ∈ paths,
        ∃ suites, files.HoldsSuites path suites ∧ ∀ suite ∈ suites, suite.Conforms := by
  have exit : (runFixtures files pattern).exitCode = 0 ↔
      (FixtureRun.ofPattern files pattern).succeeded = true := by
    unfold runFixtures
    cases outcome : (FixtureRun.ofPattern files pattern).succeeded <;> simp [outcome]
  rw [exit, FixtureRun.succeeded_iff]
  simp only [FixtureRun.ofPattern_eq_iff]
  constructor
  · rintro ⟨verdicts, ⟨paths, found, some, suites, holds, ran⟩, all⟩
    have conform := (exists_passed_gathers_iff holds).mp ⟨verdicts, ran, all⟩
    exact ⟨paths, found, some,
      Gathers.exists_iff.mp ⟨suites, Gathers.all_iff.mp ⟨holds, conform⟩⟩⟩
  · rintro ⟨paths, found, some, each⟩
    obtain ⟨suites, gathers⟩ := Gathers.exists_iff.mpr each
    obtain ⟨holds, conform⟩ := Gathers.all_iff.mpr gathers
    obtain ⟨verdicts, ran, all⟩ := (exists_passed_gathers_iff holds).mpr conform
    exact ⟨verdicts, ⟨paths, found, some, suites, holds, ran⟩, all⟩

/-! ## What a run accounts for -/

theorem Gathers.length_eq {α β : Type} {Has : α → List β → Prop} {as : List α} {bs : List β}
    {size : α → Nat} (gathers : Gathers Has as bs)
    (sized : ∀ a ∈ as, ∀ own, Has a own → own.length = size a) :
    bs.length = (as.map size).sum := by
  induction gathers with
  | nil => rfl
  | cons first rest ih =>
    obtain ⟨head, tail⟩ := List.forall_mem_cons.mp sized
    rw [List.length_append, List.map_cons, List.sum_cons, head _ first, ih tail]

/-- A run accounts for all cases of some suites: it has one verdict on each, which counts as passed or
as failed, and as failed if null is expected. -/
structure FixtureRun.Accounts (run : FixtureRun) (suites : List Suite) : Prop where
  judged : Gathers Suite.Judged suites run.verdicts
  counted : run.passed + run.failed.length = (suites.map fun suite => suite.cases.length).sum
  null_failed : ∀ verdict ∈ run.verdicts, verdict.expected = some .null → verdict ∈ run.failed

theorem FixtureRun.accounts_of_judged {run : FixtureRun} {suites : List Suite}
    (judged : Gathers Suite.Judged suites run.verdicts) : run.Accounts suites := by
  refine ⟨judged, ?_, fun verdict listed null => ?_⟩
  · rw [run.passed_add_failed]
    exact judged.length_eq fun suite _ own judges => judges.length_eq.symm
  · obtain ⟨suite, _, own, judges, among⟩ := judged.exists_of_mem listed
    obtain ⟨case, _, judge⟩ := Raw.exists_left_of_mem judges among
    obtain ⟨rule, _, passed⟩ := judge.passed_iff
    have fails : ¬case.Conforms rule :=
      Case.not_conforms_of_null (judge.sameExpected.symm.trans null)
    have lost : verdict.passed = false := Bool.eq_false_iff.mpr (passed.not.mpr fails)
    exact List.mem_filter.mpr ⟨listed, by rw [lost]; rfl⟩

/-- A run that reaches its end accounts for the cases of all files that match. -/
theorem FixtureRun.accounts_of_finished {files : FileSystem} {pattern : String}
    (finished : (FixtureRun.ofPattern files pattern).failure = none) :
    ∃ paths suites, Glob.paths files pattern = .ok paths ∧
      Gathers files.HoldsSuites paths suites ∧
      (FixtureRun.ofPattern files pattern).Accounts suites := by
  obtain ⟨paths, found, _, suites, holds, ran⟩ :=
    ofPattern_eq_iff.mp (eq_of_failure finished)
  have judged := ran.imp fun suite listed own taken =>
    Suite.judged_of_verdicts (FileSystem.HoldsSuites.readable_of_gathers holds listed) taken
  exact ⟨paths, suites, found, holds, accounts_of_judged judged⟩

/-! ## A file of fixtures -/

/-- A directory with one file. -/
def FileSystem.shelf (text : String) : FileSystem := ⟨.directory [("f", .file text)], []⟩

theorem FileSystem.paths_shelf (text : String) : Glob.paths (shelf text) "*" = .ok ["f"] := by
  cbv

theorem FileSystem.read_shelf (text : String) : (shelf text).read "f" = .ok text := by
  cbv

namespace Suite

/-- A suite with a case that passes and one that expects null. -/
def strings : Suite :=
  ⟨"s", "type T = string", "T", [⟨.string "a", some (.string "a")⟩, ⟨.null, some .null⟩]⟩

/-- A file with this suite. -/
def stringsText : String :=
  "[\x7b\"name\":\"s\",\"source\":\"type T = string\",\"type\":\"T\",\"cases\":[" ++
    "\x7b\"input\":\"a\",\"expected\":\"a\"\x7d,\x7b\"input\":null,\"expected\":null\x7d]\x7d]"

section

open Raw

set_option maxRecDepth 2000 in
theorem read_stringsText : (Raw.read maxDepth stringsText.toList).1 =
    .array [.object [(some "name", .string "s"), (some "source", .string "type T = string"),
      (some "type", .string "T"), (some "cases", .array [
        .object [(some "input", .string "a"), (some "expected", .string "a")] true,
        .object [(some "input", .null), (some "expected", .null)] true] true)] true] true := by
  have read : reading 127 stringsText.toList = (_, _) :=
    reading_of_items rfl rfl (itemsReading_last rfl
      (reading_of_members rfl rfl
        (membersReading_cons rfl rfl rfl (reading_of_scalar rfl rfl rfl) rfl
        (membersReading_cons rfl rfl rfl (reading_of_scalar rfl rfl rfl) rfl
        (membersReading_cons rfl rfl rfl (reading_of_scalar rfl rfl rfl) rfl
        (membersReading_last rfl rfl rfl
          (reading_of_items rfl rfl
            (itemsReading_cons rfl
              (reading_of_members rfl rfl
                (membersReading_cons rfl rfl rfl (reading_of_scalar rfl rfl rfl) rfl
                (membersReading_last rfl rfl rfl (reading_of_scalar rfl rfl rfl) rfl))) rfl
            (itemsReading_last rfl
              (reading_of_members rfl rfl
                (membersReading_cons rfl rfl rfl (reading_of_scalar rfl rfl rfl) rfl
                (membersReading_last rfl rfl rfl (reading_of_scalar rfl rfl rfl) rfl)))
              rfl))) rfl))))) rfl)
  exact congrArg Prod.fst read

end

theorem holdsSuites_strings : (FileSystem.shelf stringsText).HoldsSuites "f" [strings] := by
  refine ⟨stringsText, FileSystem.read_shelf stringsText, ?_⟩
  rw [readAll, read_stringsText]
  rfl

theorem run_strings : FixtureRun.ofPattern (.shelf stringsText) "*" =
    ⟨[⟨"s", 0, .string "a", some (.string "a"), some (.string "a")⟩,
      ⟨"s", 1, .null, some .null, none⟩], none⟩ := by
  refine FixtureRun.ofPattern_eq_iff.mpr
    ⟨["f"], FileSystem.paths_shelf stringsText, by decide, [strings], ?_, ?_⟩
  · exact Gathers.singleton_iff.mpr holdsSuites_strings
  · exact Gathers.singleton_iff.mpr (by cbv)

end Suite

/-! ## Soundness and completeness -/

/-- The exit code is 0 exactly if the pattern is matched, every file holds suites, and every suite
conforms with all its cases.  A run that reaches its end accounts for all these cases.  What the
suites of a file are is what its text has for their properties. -/
theorem runFixtures_sound_complete (files : FileSystem) (pattern : String) :
    ((runFixtures files pattern).exitCode = 0 ↔
      ∃ paths, Glob.paths files pattern = .ok paths ∧ paths ≠ [] ∧ ∀ path ∈ paths,
        ∃ suites, files.HoldsSuites path suites ∧ ∀ suite ∈ suites, suite.Conforms) ∧
      ((FixtureRun.ofPattern files pattern).failure = none →
        ∃ paths suites, Glob.paths files pattern = .ok paths ∧
          Gathers files.HoldsSuites paths suites ∧
          (FixtureRun.ofPattern files pattern).Accounts suites) ∧
      ∀ path suites, files.HoldsSuites path suites →
        ∃ text texts, files.read path = .ok text ∧
          (Raw.read Raw.maxDepth text.toList).1 = .array texts true ∧
          List.Forall₂ Suite.Denotes texts suites :=
  ⟨runFixtures_exitCode_iff, FixtureRun.accounts_of_finished, fun _ _ => (·.denotes)⟩

/-- One case of the file is passed, and the other one, which expects null, is failed. -/
theorem runFixtures_strings :
    (FixtureRun.ofPattern (.shelf Suite.stringsText) "*").failure = none ∧
      (FileSystem.shelf Suite.stringsText).HoldsSuites "f" [Suite.strings] ∧
      (runFixtures (.shelf Suite.stringsText) "*").exitCode ≠ 0 ∧
      ∃ suites, Gathers (FileSystem.shelf Suite.stringsText).HoldsSuites ["f"] suites ∧
        (FixtureRun.ofPattern (.shelf Suite.stringsText) "*").Accounts suites := by
  have finished : (FixtureRun.ofPattern (.shelf Suite.stringsText) "*").failure = none := by
    rw [Suite.run_strings]
  obtain ⟨_, accounts, _⟩ := runFixtures_sound_complete (.shelf Suite.stringsText) "*"
  obtain ⟨paths, suites, found, holds, all⟩ := accounts finished
  cases (FileSystem.paths_shelf Suite.stringsText).symm.trans found
  refine ⟨finished, Suite.holdsSuites_strings, ?_, suites, holds, all⟩
  rw [runFixtures, Suite.run_strings]
  decide

end JsonShape
