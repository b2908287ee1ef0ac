import JsonShape.Cli.Run
import Mathlib.Tactic.SplitIfs

/-!
# File trees that grow

Directories are made where there is nothing, so making them takes nothing away.

* `FileNode.Extends` and `FileSystem.Extends`: every file and every directory is where it was.
* `FileNode.extends_set`: a node that is set where there is none extends the tree.
* `FileSystem.Extends.read`: what could be read can still be read, under the same paths.
* `Command.read_of_unwritten`: so a run that writes no file leaves every file as it was, even if it
  has made directories for the file that it could not write.
-/

namespace JsonShape

namespace FileNode

/-- What stands at a place stays: a file as it is, and a directory with any entries. -/
inductive Stays : FileNode → FileNode → Prop
  | same (node : FileNode) : Stays node node
  | directory (entries others : List (String × FileNode)) :
    Stays (.directory entries) (.directory others)

theorem Stays.trans {a b c : FileNode} (first : a.Stays b) (second : b.Stays c) : a.Stays c := by
  cases first with
  | same => exact second
  | directory entries others =>
    cases second with
    | same => exact .directory entries others
    | directory _ further => exact .directory entries further

/-- Everything in a tree stays at its place. -/
def Extends (node other : FileNode) : Prop :=
  ∀ place inner, node.at? place = some inner →
    ∃ outer, other.at? place = some outer ∧ inner.Stays outer

theorem Extends.refl (node : FileNode) : node.Extends node :=
  fun _ inner found => ⟨inner, found, .same inner⟩

theorem Extends.trans {a b c : FileNode} (first : a.Extends b) (second : b.Extends c) :
    a.Extends c := by
  intro place inner found
  obtain ⟨middle, there, stays⟩ := first place inner found
  obtain ⟨outer, last, staysToo⟩ := second place middle there
  exact ⟨outer, last, stays.trans staysToo⟩

theorem at?_append (node : FileNode) (place rest : List String) :
    node.at? (place ++ rest) = (node.at? place).bind (·.at? rest) := by
  induction place generalizing node with
  | nil => rw [List.nil_append, at?, Option.bind_some]
  | cons name place ih =>
    cases node with
    | file content => rfl
    | binary => rfl
    | directory entries =>
      rw [List.cons_append, at?, at?]
      cases lookup? entries name with
      | none => rfl
      | some inner => exact ih inner

/-- An entry is at the place of its directory with its name. -/
theorem at?_concat {node : FileNode} {place : List String} {entries : List (String × FileNode)}
    (found : node.at? place = some (.directory entries)) (name : String) :
    node.at? (place ++ [name]) = lookup? entries name := by
  rw [at?_append, found, Option.bind_some, at?]
  cases lookup? entries name <;> rfl

theorem lookup?_setEntry_self (entries : List (String × FileNode)) (name : String)
    (node : FileNode) : lookup? (setEntry entries name node) name = some node := by
  induction entries with
  | nil => simp [setEntry, lookup?]
  | cons entry rest ih =>
    unfold setEntry
    split
    · simp [lookup?]
    · next other =>
      split
      · simp [lookup?]
      · rw [lookup?, if_neg other, ih]

theorem lookup?_setEntry_of_ne (entries : List (String × FileNode)) {name wanted : String}
    (node : FileNode) (other : name ≠ wanted) :
    lookup? (setEntry entries name node) wanted = lookup? entries wanted := by
  induction entries with
  | nil => simp [setEntry, lookup?, other]
  | cons entry rest ih =>
    unfold setEntry
    split
    · next same => simp [lookup?, same, other]
    · split
      · rw [lookup?, if_neg other]
      · rw [lookup?, lookup?, ih]

/-- A directory with an entry set extends the one that had none of this name, or had one that the
new entry extends. -/
theorem extends_setEntry {entries : List (String × FileNode)} {name : String} {node : FileNode}
    (grows : ∀ old, lookup? entries name = some old → old.Extends node) :
    (directory entries).Extends (.directory (setEntry entries name node)) := by
  intro place inner found
  cases place with
  | nil =>
    cases found
    exact ⟨_, rfl, .directory _ _⟩
  | cons wanted rest =>
    rw [at?] at found ⊢
    obtain ⟨old, listed, within⟩ := Option.bind_eq_some_iff.mp found
    by_cases own : name = wanted
    · subst own
      rw [lookup?_setEntry_self]
      exact grows old listed rest inner within
    · rw [lookup?_setEntry_of_ne entries node own, listed]
      exact ⟨inner, within, .same inner⟩

/-- A tree with a node set in one of its directories, under a name that was free. -/
theorem extends_set {node : FileNode} {place : List String} {name : String}
    {entries : List (String × FileNode)} (inside : node.at? place = some (.directory entries))
    (free : lookup? entries name = none) (new : FileNode) :
    node.Extends (node.set (place ++ [name]) new) := by
  induction place generalizing node with
  | nil =>
    cases inside
    rw [List.nil_append, set, set]
    exact extends_setEntry fun old listed => nomatch free.symm.trans listed
  | cons first place ih =>
    cases node with
    | file content => cases inside
    | binary => cases inside
    | directory outer =>
      obtain ⟨next, listed, within⟩ := Option.bind_eq_some_iff.mp inside
      rw [List.cons_append, set]
      refine extends_setEntry fun old found => ?_
      cases listed.symm.trans found
      rw [listed]
      exact ih within

end FileNode

namespace FileSystem

/-- Everything in a file system stays at its place, and paths start where they did. -/
structure Extends (files other : FileSystem) : Prop where
  home : other.home = files.home
  root : files.root.Extends other.root

theorem Extends.refl (files : FileSystem) : files.Extends files := ⟨rfl, .refl _⟩

variable {files other last : FileSystem}

theorem Extends.trans (first : files.Extends other) (second : other.Extends last) :
    files.Extends last := ⟨second.home.trans first.home, first.root.trans second.root⟩

/-! ## Reading -/

/-- A directory stays one, and keeps its names. -/
theorem Extends.directory (grown : files.Extends other) {place : List String}
    {entries : List (String × FileNode)}
    (found : files.root.at? place = some (.directory entries)) :
    ∃ others, other.root.at? place = some (.directory others) ∧
      ∀ name, (FileNode.lookup? entries name).isSome → (FileNode.lookup? others name).isSome := by
  obtain ⟨outer, there, stays⟩ := grown.root _ _ found
  obtain ⟨others, rfl⟩ : ∃ others, outer = .directory others := by cases stays <;> exact ⟨_, rfl⟩
  refine ⟨others, there, fun name listed => ?_⟩
  rw [← FileNode.at?_concat found] at listed
  rw [← FileNode.at?_concat there]
  obtain ⟨inner, leads⟩ := Option.isSome_iff_exists.mp listed
  obtain ⟨_, leadsToo, _⟩ := grown.root _ _ leads
  exact Option.isSome_iff_exists.mpr ⟨_, leadsToo⟩

theorem Extends.step (grown : files.Extends other) {place next : List String} {part : String}
    (step : files.step place part = .ok next) : other.step place part = .ok next := by
  unfold FileSystem.step at step
  split at step
  · next entries found =>
    obtain ⟨others, there, names⟩ := grown.directory found
    unfold FileSystem.step
    rw [there]
    dsimp only
    split_ifs at step ⊢
    · exact step
    · exact step
    · split at step
      · next inner listed =>
        obtain ⟨_, listedToo⟩ := Option.isSome_iff_exists.mp (names part (by rw [listed]; rfl))
        rw [listedToo]
        exact step
      · cases step
  · cases step
  · cases step

theorem Extends.locateParts (grown : files.Extends other) {start place : List String}
    {parts : List String} (located : files.locateParts start parts = .ok place) :
    other.locateParts start parts = .ok place := by
  induction parts generalizing start with
  | nil => exact located
  | cons part rest ih =>
    unfold FileSystem.locateParts at located ih ⊢
    rw [List.foldlM_cons] at located ⊢
    cases step : files.step start part with
    | error fault =>
      rw [step] at located
      cases located
    | ok next =>
      rw [step] at located
      rw [grown.step step]
      exact ih located

theorem Extends.locate (grown : files.Extends other) {path : String} {place : List String}
    (located : files.locate path = .ok place) : other.locate path = .ok place := by
  unfold FileSystem.locate origin at located ⊢
  rw [grown.home]
  split_ifs at located ⊢
  · exact grown.locateParts located
  · exact grown.locateParts located

/-- What is read is the content of the file at the place of the path. -/
theorem read_eq_ok_iff {path content : String} :
    files.read path = .ok content ↔
      ∃ place, files.locate path = .ok place ∧ files.root.at? place = some (.file content) := by
  unfold FileSystem.read
  cases files.locate path with
  | error fault => simp [Except.bind]
  | ok place =>
    simp only [Except.bind, Except.ok.injEq, exists_eq_left']
    split <;> simp [*]

/-- What could be read can still be read. -/
theorem Extends.read (grown : files.Extends other) {path content : String}
    (read : files.read path = .ok content) : other.read path = .ok content := by
  obtain ⟨place, located, found⟩ := read_eq_ok_iff.mp read
  obtain ⟨outer, there, stays⟩ := grown.root place _ found
  cases stays
  exact read_eq_ok_iff.mpr ⟨place, grown.locate located, there⟩

/-! ## Making directories -/

/-- The directory that a path is in is there. -/
theorem directory_of_split {path name : String} {place : List String}
    (parted : files.split path = .ok (place, some name)) :
    ∃ entries, files.root.at? place = some (.directory entries) := by
  unfold FileSystem.split at parted
  split_ifs at parted
  dsimp only at parted
  split at parted
  · cases parted
  · next last outer trimmed =>
    cases located : files.locateParts (files.origin path) outer.reverse with
    | error fault =>
      rw [located] at parted
      cases parted
    | ok start =>
      rw [located, Except.bind] at parted
      split at parted
      · next entries found =>
        split_ifs at parted <;> cases parted
        exact ⟨entries, found⟩
      · cases parted
      · cases parted

/-- A directory is made where there is nothing. -/
theorem extends_makeDirectory {path : String} (made : files.makeDirectory path = .ok other) :
    files.Extends other := by
  unfold makeDirectory at made
  dsimp only at made
  -- Whether the path has lost a slash at its end does not matter.
  generalize parted : files.split _ = found at made
  cases found with
  | error fault => cases made
  | ok found =>
    obtain ⟨place, last⟩ := found
    rw [Except.bind] at made
    dsimp only at made
    split at made
    · cases made
    · next name =>
      split at made
      · cases made
      · next free =>
        cases made
        obtain ⟨entries, inside⟩ := directory_of_split parted
        rw [FileNode.at?_concat inside] at free
        exact ⟨rfl, FileNode.extends_set inside free _⟩

/-- Whether a directory is made or not, nothing is taken away. -/
theorem extends_ensureDirectory (files : FileSystem) (path : String) :
    files.Extends (files.ensureDirectory path).1 := by
  unfold ensureDirectory
  split
  · next made => exact extends_makeDirectory made
  · exact .refl files

/-- Directories that are made extend the tree, even if not all could be made. -/
theorem extends_makeDirectories (files : FileSystem) (paths : List String) :
    files.Extends (files.makeDirectories paths).1 := by
  induction paths with
  | nil => exact .refl files
  | cons path outer ih =>
    unfold makeDirectories
    split
    · split
      · next around made =>
        rw [made] at ih
        exact ih.trans (around.extends_ensureDirectory path)
      · next around fault made =>
        rw [made] at ih
        exact ih
    · exact files.extends_ensureDirectory path

/-- A write that fails takes nothing away. -/
theorem extends_writeOutput {path text : String} {failure : CliFailure}
    (failed : files.writeOutput path text = (other, some failure)) : files.Extends other := by
  have made := files.extends_makeDirectories (parents path)
  unfold FileSystem.writeOutput at failed
  dsimp only at failed
  split at failed
  · next left fault stopped =>
    cases failed
    rwa [stopped] at made
  · next ready finished =>
    rw [finished] at made
    split at failed
    · cases failed
      exact made
    · cases failed

end FileSystem

/-! ## Runs -/

/-- A delivery that writes no file takes nothing away. -/
theorem Delivery.extends_deliver {delivery : Delivery} {files : FileSystem}
    (unwritten : (delivery.deliver files).written = none) :
    files.Extends (delivery.deliver files).files := by
  obtain ⟨text, output, before, after, succeeded⟩ := delivery
  cases output with
  | none => exact .refl files
  | some path =>
    simp only [deliver] at unwritten ⊢
    cases stored : files.writeOutput path text with
    | mk left failure =>
      rw [stored] at unwritten
      cases failure with
      | none => cases unwritten
      | some failure => exact FileSystem.extends_writeOutput stored

/-- A run that writes no file leaves every file as it was, whatever it fails at. -/
theorem Command.read_of_unwritten {engine : QueryEngine} {surroundings : Surroundings}
    {command : Command} (unwritten : (command.run engine surroundings).written = none)
    {path content : String} (read : surroundings.files.read path = .ok content) :
    (command.run engine surroundings).files.read path = .ok content := by
  unfold run at unwritten ⊢
  split
  · exact read
  · next delivery prepared =>
    rw [prepared] at unwritten
    exact (delivery.extends_deliver unwritten).read read

end JsonShape
