import JsonShape.Cli.Sources
import JsonShape.Proofs.Registry.History
import JsonShape.Proofs.Source.Joining

/-!
# Joined sources

Sources that are joined by line feeds, and the same sources added one after the other.

* `parseDefinitions_intercalate`: joined texts are parsed as their definitions in turn.
* `Surroundings.addDefinitions_of_reads`: files are added as their definitions in turn, so
  `Surroundings.loadDefinitions_of_reads` loads them like their joined text.
* `parseDefinitions_joined` says of two texts what holds also if the second one has a fault.
-/

namespace JsonShape

/-- Definitions of texts, text by text. -/
abbrev Parsed : List String → List (List Definition) → Prop :=
  List.Forall₂ fun text definitions => parseDefinitions text.toList = .ok definitions

/-- Texts that are parsed one by one are parsed when they are joined. -/
theorem parseDefinitions_intercalate {texts : List String} {parts : List (List Definition)}
    (parsed : Parsed texts parts) :
    parseDefinitions ("\n".intercalate texts).toList = .ok parts.flatten := by
  induction parsed with
  | nil =>
    rw [String.intercalate_nil]
    cbv
  | @cons text own rest others parsed parsedRest ih =>
    cases parsedRest with
    | nil =>
      rw [String.intercalate_singleton, parsed]
      simp
    | @cons next _ more _ _ _ =>
      have joined : ("\n".intercalate (text :: next :: more)).toList =
          text.toList ++ '\n' :: ("\n".intercalate (next :: more)).toList := by
        rw [String.intercalate_cons_cons, String.toList_append, String.toList_append,
          List.append_assoc]
        rfl
      rw [joined, parseDefinitions_append_feed parsed, ih]
      rfl

/-! ## Files -/

namespace Surroundings

/-- Some paths are read one after the other as some texts, and what can be read after them. -/
inductive ReadsAll : Surroundings → List String → List String → Surroundings → Prop
  | nil {surroundings : Surroundings} : ReadsAll surroundings [] [] surroundings
  | cons {surroundings after last : Surroundings} {path text : String}
      {paths texts : List String} (read : surroundings.read path = .ok (text, after))
      (rest : ReadsAll after paths texts last) :
    ReadsAll surroundings (path :: paths) (text :: texts) last

/-- Files whose texts are parsed are added as their definitions in turn. -/
theorem addDefinitions_of_reads {surroundings last : Surroundings} {paths texts : List String}
    {parts : List (List Definition)} (reads : ReadsAll surroundings paths texts last)
    (parsed : Parsed texts parts) (registry : Registry) :
    surroundings.addDefinitions registry paths = .ok (registry.defineAll parts.flatten, last) := by
  induction reads generalizing parts registry with
  | nil =>
    cases parsed
    rfl
  | cons read rest ih =>
    cases parsed with
    | @cons _ definitions _ others own parsedRest =>
      have added := ih parsedRest (registry.defineAll definitions)
      rw [addDefinitions, read]
      simp only [Registry.addSource_of_ok registry own, added, List.flatten_cons,
        Registry.defineAll_append]

/-- Files whose texts are parsed are loaded like their texts joined by line feeds. -/
theorem loadDefinitions_of_reads {surroundings last : Surroundings}
    {paths found texts : List String} {parts : List (List Definition)}
    (resolved : resolvePaths surroundings.files paths = .ok found)
    (reads : ReadsAll surroundings found texts last) (parsed : Parsed texts parts) :
    ∃ registry, Registry.ofSource ("\n".intercalate texts).toList = .ok registry ∧
      surroundings.loadDefinitions paths = .ok (registry, last) := by
  have joined := parseDefinitions_intercalate parsed
  refine ⟨Registry.empty.defineAll parts.flatten, Registry.addSource_of_ok .empty joined, ?_⟩
  rw [loadDefinitions, resolved]
  exact addDefinitions_of_reads reads parsed .empty

end Surroundings

/-- A source that stands behind another one, and a line feed, is parsed like the source alone.

If it is parsed, its definitions follow those of the source in front, and to any registry the two
sources together add what they add one after the other, also as files that are loaded in turn.
If not, it has the same fault as alone: further down by the lines of the source in front, and in
the same column. -/
theorem parseDefinitions_joined {first : List Char} {earlier : List Definition}
    (parsed : parseDefinitions first = .ok earlier) (second : List Char) :
    parseDefinitions (first ++ '\n' :: second) =
        (match parseDefinitions second with
        | .ok later => .ok (earlier ++ later)
        | .error fault =>
          .error ⟨⟨fault.place.line + (1 + first.count '\n'), fault.place.column⟩, fault.cause⟩) ∧
      ∀ later, parseDefinitions second = .ok later →
        (∀ registry : Registry, ∃ both,
          registry.addSource (first ++ '\n' :: second) = .ok both ∧
            (registry.addSource first).bind (·.addSource second) = .ok both) ∧
        ∀ (surroundings middle last : Surroundings) (paths : List String) (p q : String),
          resolvePaths surroundings.files paths = .ok [p, q] →
          surroundings.read p = .ok (String.ofList first, middle) →
          middle.read q = .ok (String.ofList second, last) →
          ∃ both, Registry.ofSource (first ++ '\n' :: second) = .ok both ∧
            surroundings.loadDefinitions paths = .ok (both, last) := by
  refine ⟨?_, fun later parsedSecond => ⟨fun registry => ?_, ?_⟩⟩
  · rw [parseDefinitions_append_feed parsed]
    cases parseDefinitions second with
    | ok later => rfl
    | error fault =>
      rw [answerBehind, Fault.behind, Location.behind_lines]
  · have joined : parseDefinitions (first ++ '\n' :: second) = .ok (earlier ++ later) := by
      rw [parseDefinitions_append_feed parsed, parsedSecond]
      rfl
    refine ⟨_, Registry.addSource_of_ok registry joined, ?_⟩
    rw [Registry.addSource_of_ok registry parsed, Registry.defineAll_append]
    exact Registry.addSource_of_ok _ parsedSecond
  · intro surroundings middle last paths p q resolved readFirst readSecond
    have reads : Surroundings.ReadsAll surroundings [p, q]
        [String.ofList first, String.ofList second] last :=
      .cons readFirst (.cons readSecond .nil)
    have parts : Parsed [String.ofList first, String.ofList second] [earlier, later] := by
      simp [parsed, parsedSecond]
    have loaded := Surroundings.loadDefinitions_of_reads resolved reads parts
    simpa [String.intercalate_cons_cons] using loaded

/-- Behind a source that ends in a comment, a property that is listed twice is found on the third
line. -/
theorem parseDefinitions_joined_comment :
    parseDefinitions "type A = string // all".toList = .ok [("A", .string)] ∧
      parseDefinitions ("type A = string // all".toList ++
          '\n' :: "type B = \x7b x\n x \x7d".toList) =
        .error ⟨⟨3, 2⟩, .grammar (.duplicateProperty "x")⟩ ∧
      parseDefinitions ("type A = string // all".toList ++ '\n' :: "type B = true".toList) =
        .ok [("A", .string), ("B", .booleanLiteral true)] := by
  have parsed : parseDefinitions "type A = string // all".toList = .ok [("A", .string)] := by cbv
  have fault : parseDefinitions "type B = \x7b x\n x \x7d".toList =
      .error ⟨⟨2, 2⟩, .grammar (.duplicateProperty "x")⟩ := by cbv
  have fine : parseDefinitions "type B = true".toList = .ok [("B", .booleanLiteral true)] := by
    cbv
  refine ⟨parsed, ?_, ?_⟩
  · rw [(parseDefinitions_joined parsed _).1, fault]
    rfl
  · rw [(parseDefinitions_joined parsed _).1, fine]
    rfl

end JsonShape
