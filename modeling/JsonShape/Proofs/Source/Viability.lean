import JsonShape.Proofs.Source.Completion
import JsonShape.Proofs.Source.Munch
import JsonShape.Proofs.Source.Words
import Mathlib

/-!
# The first hopeless token

Where the parser reports something unexpected, the source has just become hopeless: the tokens in
front of the place begin a token list that is accepted, and with the token at the place they begin
none.

* `Accepts parse tokens`, `Viable parse tokens`: some source with these tokens is accepted, or with
  these and more.
* `Entry parse start` says of a parser what it does with its machine.  It accepts the tokens over
  which the machine completes, wherever they stand (`Entry.accepts_of_completes`); so tokens behind
  which the machine could go on are viable (`Entry.viable`), and with one that it refuses they are
  not (`Entry.not_viable`).
* `Entry.parse_error`: a parser reports what its machine refuses, a lexical fault, or what is
  missing at the end.
* `parse_unexpected_firstHopeless`: all reports of something unexpected are hopeless places.
-/

namespace JsonShape

/-! ## Accepted tokens -/

section

variable {α : Type} (parse : List Char → Except Fault α)

/-- A token list is that of an accepted source. -/
def Accepts (tokens : List Token) : Prop :=
  ∃ source lexemes answer, tokenize source = .ok lexemes ∧ lexemes.map Lexeme.token = tokens ∧
    parse source = .ok answer

/-- A token list begins one that is accepted. -/
def Viable (tokens : List Token) : Prop := ∃ more, Accepts parse (tokens ++ more)

/-- A report of a token, or of the end where there is none, is at the first hopeless place.  The
token is the only one that starts at its place; all items in front of it are tokens, which are
viable, and with it they are not.  At the end all items are tokens, which are viable and not
accepted. -/
def FirstHopeless (source : List Char) (place : Location) : Option Token → Prop
  | some token =>
    ∃ k lexeme, (scan source)[k]? = some (.ok lexeme) ∧ lexeme.start.toLocation = place ∧
      lexeme.token = token ∧
      (∀ i other, (scan source)[i]? = some (.ok other) → other.start.toLocation = place → i = k) ∧
      ∃ earlier : List Lexeme, (scan source).take k = earlier.map .ok ∧
        Viable parse (earlier.map Lexeme.token) ∧
        ¬Viable parse (earlier.map Lexeme.token ++ [token])
  | none =>
    ∃ lexemes : List Lexeme, scan source = lexemes.map .ok ∧ place = Location.start.past source ∧
      Viable parse (lexemes.map Lexeme.token) ∧ ¬Accepts parse (lexemes.map Lexeme.token)

end

/-! ## Sources of tokens -/

/-- Tokens whose identifiers are bare words, and no keywords. -/
def Plain (tokens : List Token) : Prop :=
  ∀ name, .identifier name ∈ tokens → isBareWord name = true ∧ isKeyword name = false

theorem exists_spelling {token : Token} (plain : Plain [token]) : ∃ text, Spelling text token := by
  cases token with
  | keyword k => exact ⟨_, .keyword k⟩
  | leftBrace => exact ⟨['\x7b'], .mark rfl (by decide) rfl (by decide) rfl⟩
  | rightBrace => exact ⟨['\x7d'], .mark rfl (by decide) rfl (by decide) rfl⟩
  | colon => exact ⟨[':'], .mark rfl (by decide) rfl (by decide) rfl⟩
  | equals => exact ⟨['='], .mark rfl (by decide) rfl (by decide) rfl⟩
  | number n => exact ⟨_, .number n⟩
  | string s => exact ⟨_, .quoted s⟩
  | identifier name =>
    obtain ⟨bare, free⟩ := plain name List.mem_cons_self
    exact ⟨_, .identifier bare free⟩

/-- Tokens are read from their spellings, one blank behind each. -/
theorem exists_reads {tokens : List Token} (plain : Plain tokens) : ∃ text, Reads text tokens := by
  induction tokens with
  | nil => exact ⟨[], .nil⟩
  | cons token rest ih =>
    obtain ⟨text, reads⟩ := ih fun name listed => plain name (List.mem_cons_of_mem token listed)
    obtain ⟨spelled, spelling⟩ := exists_spelling fun name (listed : _ ∈ [token]) =>
      plain name (List.mem_cons.mpr (.inl (List.mem_singleton.mp listed)))
    exact ⟨spelled ++ ' ' :: text, .token spelling (.blank text) reads.blank⟩

theorem plain_of_scan {source : List Char} {lexemes : List Lexeme}
    (scanned : ∀ lexeme ∈ lexemes, .ok lexeme ∈ scan source) :
    Plain (lexemes.map Lexeme.token) := by
  intro name listed
  obtain ⟨lexeme, among, named⟩ := List.mem_map.mp listed
  exact identifier_of_mem_scan (scanned lexeme among) named

/-- Completions have plain tokens. -/
theorem plain_completion (state : State) : Plain state.completion := by
  intro name listed
  have only : name = "A" := by
    cases state with
    | properties goal stack fields =>
      cases fields <;> simp [State.completion, State.closing] at listed
    | _ => simp [State.completion, State.closing] at listed <;> exact listed
  rw [only]
  exact ⟨by decide, by decide⟩

/-! ## Entries -/

/-- A token that stands nowhere in particular. -/
def Lexeme.ofToken (token : Token) : Lexeme := ⟨token, .start, .start⟩

@[simp] theorem map_token_map_ofToken (tokens : List Token) :
    (tokens.map Lexeme.ofToken).map Lexeme.token = tokens := by
  rw [List.map_map]
  exact List.map_id tokens

/-- The definitions that a machine has read. -/
def State.definitions? : State → Option (List Definition)
  | declaration complete => some complete
  | _ => none

/-- The lone rule that a machine has read. -/
def State.rule? : State → Option Rule
  | finished rule => some rule
  | _ => none

/-- What a parser does with its machine: it gives the answer of the state at the end, or reports
the end.  The machine has an answer where it is complete, and it comes to the same answer over the
same tokens, wherever they stand. -/
structure Entry {α : Type} (parse : List Char → Except Fault α) (start : State)
    (answer? : State → Option α) : Prop where
  parse_eq (source : List Char) : parse source =
    (start.read (.ofSource source)).bind fun last =>
      match answer? last with
      | some answer => .ok answer
      | none => .error (last.unfinished (Location.start.past source))
  complete_iff {lexemes : List Lexeme} {last : State} : start.run lexemes = .ok last →
    (last.IsComplete ↔ ∃ answer, answer? last = some answer)
  again {lexemes others : List Lexeme} {last : State} {answer : α} :
    start.run lexemes = .ok last → answer? last = some answer →
    others.map Lexeme.token = lexemes.map Lexeme.token → start.run others = .ok last

theorem entry_definitions : Entry parseDefinitions (.declaration []) State.definitions? where
  parse_eq source := by
    rw [parseDefinitions]
    refine congrArg (Except.bind _) (funext fun last => ?_)
    cases last <;> rfl
  complete_iff {lexemes last} run := by
    have asked := State.isLone_run run
    cases last with
    | finished rule => cases asked
    | _ => simp [State.IsComplete, State.definitions?]
  again {lexemes others last definitions} run answer same := by
    cases last with
    | declaration complete =>
      have derived := run_declaration_iff.mp run
      rw [← same] at derived
      exact run_declaration_iff.mpr derived
    | _ => cases answer

theorem entry_rule : Entry parseRule (.typeExpression .lone []) State.rule? where
  parse_eq source := by
    rw [parseRule]
    refine congrArg (Except.bind _) (funext fun last => ?_)
    cases last <;> rfl
  complete_iff {lexemes last} run := by
    have asked := State.isLone_run run
    cases last with
    | declaration complete => cases asked
    | _ => simp [State.IsComplete, State.rule?]
  again {lexemes others last rule} run answer same := by
    cases last with
    | finished rule =>
      have derived := run_lone_iff.mp run
      rw [← same] at derived
      exact run_lone_iff.mpr derived
    | _ => cases answer

namespace Entry

variable {α : Type} {parse : List Char → Except Fault α} {start last : State}
  {answer? : State → Option α} {earlier : List Lexeme} {lexeme : Lexeme}
  {tokens : List Token}

theorem completes_of_accepts (entry : Entry parse start answer?) (accepts : Accepts parse tokens) :
    start.Completes tokens := by
  obtain ⟨source, lexemes, answer, tokenized, rfl, parsed⟩ := accepts
  rw [entry.parse_eq] at parsed
  cases read : start.read (.ofSource source) with
  | error fault =>
    rw [read] at parsed
    cases parsed
  | ok last =>
    obtain ⟨found, same, run⟩ := read_eq_ok_iff.mp read
    obtain rfl := Except.ok.inj (tokenized.symm.trans same)
    cases given : answer? last with
    | none =>
      rw [read] at parsed
      simp [Except.bind, given] at parsed
    | some own =>
      exact fun others sameTokens =>
        ⟨last, entry.again run given sameTokens, (entry.complete_iff run).mpr ⟨own, given⟩⟩

theorem accepts_of_completes (entry : Entry parse start answer?)
    (completes : start.Completes tokens) (plain : Plain tokens) : Accepts parse tokens := by
  obtain ⟨source, reads⟩ := exists_reads plain
  obtain ⟨lexemes, tokenized, same⟩ := reads.tokenize
  obtain ⟨last, run, complete⟩ := completes lexemes same
  obtain ⟨answer, given⟩ := (entry.complete_iff run).mp complete
  refine ⟨source, lexemes, answer, tokenized, same, ?_⟩
  rw [entry.parse_eq, read_eq_ok_iff.mpr ⟨lexemes, tokenized, run⟩]
  simp [Except.bind, given]

/-- Tokens behind which a machine could go on are viable. -/
theorem viable (entry : Entry parse start answer?) (run : start.run earlier = .ok last)
    (fresh : last.IsFresh) (plain : Plain (earlier.map Lexeme.token)) :
    Viable parse (earlier.map Lexeme.token) := by
  have more := map_token_map_ofToken last.completion
  obtain ⟨done, ran, complete⟩ := State.completes_completion fresh _ more
  have whole : start.run (earlier ++ last.completion.map Lexeme.ofToken) = .ok done := by
    rw [State.run_append_of_run run, ran]
  obtain ⟨answer, given⟩ := (entry.complete_iff whole).mp complete
  refine ⟨last.completion, entry.accepts_of_completes (fun others same => ?_) fun name listed => ?_⟩
  · refine ⟨done, entry.again whole given ?_, complete⟩
    rw [same, List.map_append, more]
  · rcases List.mem_append.mp listed with front | behind
    · exact plain name front
    · exact plain_completion last name behind

/-- With a token that the machine refuses, tokens are not viable. -/
theorem not_viable (entry : Entry parse start answer?) (run : start.run earlier = .ok last)
    {fault : Fault} (refused : last.step lexeme = .error fault) :
    ¬Viable parse (earlier.map Lexeme.token ++ [lexeme.token]) := by
  rintro ⟨more, accepts⟩
  -- The machine accepts tokens wherever they stand, so it may meet them where they stand here.
  have same : (earlier ++ lexeme :: more.map Lexeme.ofToken).map Lexeme.token =
      earlier.map Lexeme.token ++ [lexeme.token] ++ more := by
    rw [List.map_append, List.map_cons, map_token_map_ofToken, List.append_assoc]
    rfl
  obtain ⟨done, ran, _⟩ := entry.completes_of_accepts accepts _ same
  rw [State.run_append_of_run run, State.run_cons, refused] at ran
  cases ran

/-- Tokens over which the machine comes to no complete end are not accepted. -/
theorem not_accepts (entry : Entry parse start answer?) (run : start.run earlier = .ok last)
    (incomplete : ¬last.IsComplete) : ¬Accepts parse (earlier.map Lexeme.token) := by
  intro accepts
  obtain ⟨done, ran, complete⟩ := entry.completes_of_accepts accepts earlier rfl
  obtain rfl := Except.ok.inj (run.symm.trans ran)
  exact incomplete complete

end Entry

/-! ## Items of a source -/

/-- The tokens of a stream are the items in front of the first fault. -/
theorem exists_items_eq_append (items : List Item) :
    ∃ rest, items = (splitAtFault items).1.map .ok ++ rest ∧
      ∀ fault, (splitAtFault items).2 = some fault → rest.head? = some (.error fault) := by
  induction items with
  | nil => exact ⟨[], rfl, fun _ same => nomatch same⟩
  | cons item others ih =>
    cases item with
    | error fault =>
      refine ⟨.error fault :: others, rfl, fun found same => ?_⟩
      cases Option.some.inj same
      rfl
    | ok lexeme =>
      obtain ⟨rest, whole, first⟩ := ih
      exact ⟨rest, congrArg (Except.ok lexeme :: ·) whole, first⟩

theorem mem_scan_of_mem_lexemes {source : List Char} {lexeme : Lexeme}
    (listed : lexeme ∈ (TokenStream.ofSource source).lexemes) : .ok lexeme ∈ scan source := by
  obtain ⟨rest, whole, _⟩ := exists_items_eq_append (scan source)
  rw [whole]
  exact List.mem_append_left _ (List.mem_map_of_mem listed)

theorem mem_scan_of_fault {source : List Char} {fault : Fault}
    (first : (TokenStream.ofSource source).fault = some fault) : .error fault ∈ scan source := by
  obtain ⟨rest, whole, head⟩ := exists_items_eq_append (scan source)
  rw [whole]
  exact List.mem_append_right _ (List.mem_of_head? (head fault first))

/-- The faults of a scan are lexical. -/
theorem lexical_of_mem_scan {source : List Char} {fault : Fault}
    (listed : .error fault ∈ scan source) : ∃ cause, fault.cause = .lexical cause := by
  obtain ⟨c, rest, start, same⟩ := exists_piece_of_mem_scanFrom listed
  unfold Piece.item at same
  split at same
  · cases same
  · next cause before _ =>
    cases same
    exact ⟨cause, rfl⟩

/-- No two tokens of a source start at one location. -/
theorem index_unique {source : List Char} {i j : Nat} {a b : Lexeme}
    (first : (scan source)[i]? = some (.ok a)) (second : (scan source)[j]? = some (.ok b))
    (same : a.start.toLocation = b.start.toLocation) : i = j := by
  obtain ⟨stretches, scanned, tiles, _⟩ := exists_tiles .start source
  have items : scan source = stretches.map Stretch.item := scanned
  have ordered := List.pairwise_iff_getElem.mp tiles.starts_ordered
  rw [items, List.getElem?_map, Option.map_eq_some_iff] at first second
  obtain ⟨s, left, ofLeft⟩ := first
  obtain ⟨t, right, ofRight⟩ := second
  obtain ⟨inLeft, rfl⟩ := List.getElem?_eq_some_iff.mp left
  obtain ⟨inRight, rfl⟩ := List.getElem?_eq_some_iff.mp right
  rw [Stretch.start_of_item ofLeft, Stretch.start_of_item ofRight] at same
  rcases Nat.lt_trichotomy i j with before | equal | behind
  · have apart := ordered i j inLeft inRight before
    rw [same] at apart
    exact absurd apart (Location.Before.irrefl _)
  · exact equal
  · have apart := ordered j i inRight inLeft behind
    rw [same] at apart
    exact absurd apart (Location.Before.irrefl _)

/-! ## Reports -/

theorem State.read_error {state : State} {source : List Char} {fault : Fault}
    (failed : state.read (.ofSource source) = .error fault) :
    state.run (TokenStream.ofSource source).lexemes = .error fault ∨
      (TokenStream.ofSource source).fault = some fault := by
  unfold State.read at failed
  cases run : state.run (TokenStream.ofSource source).lexemes with
  | error first =>
    rw [run] at failed
    exact .inl failed
  | ok last =>
    rw [run] at failed
    cases lexical : (TokenStream.ofSource source).fault with
    | none => simp [Except.bind, lexical] at failed
    | some first =>
      simp only [Except.bind, lexical, Except.error.injEq] at failed
      exact .inr (congrArg some failed)

/-- A parser reports what its machine refuses, the lexical fault behind its tokens, or what is
missing at the end of a source without one. -/
theorem Entry.parse_error {α : Type} {parse : List Char → Except Fault α} {start : State}
    {answer? : State → Option α} (entry : Entry parse start answer?) {source : List Char}
    {fault : Fault} (failed : parse source = .error fault) :
    start.run (TokenStream.ofSource source).lexemes = .error fault ∨
      (TokenStream.ofSource source).fault = some fault ∨
      ∃ lexemes last, scan source = lexemes.map .ok ∧ start.run lexemes = .ok last ∧
        answer? last = none ∧ fault = last.unfinished (Location.start.past source) := by
  rw [entry.parse_eq] at failed
  cases read : start.read (.ofSource source) with
  | error own =>
    rw [read] at failed
    obtain rfl := Except.error.inj failed
    exact (State.read_error read).imp_right .inl
  | ok last =>
    rw [read] at failed
    obtain ⟨lexemes, tokenized, run⟩ := read_eq_ok_iff.mp read
    cases given : answer? last with
    | some answer => simp [Except.bind, given] at failed
    | none =>
      simp only [Except.bind, given] at failed
      exact .inr (.inr ⟨lexemes, last, scan_eq_of_tokenize tokenized, run, given,
        (Except.error.inj failed).symm⟩)

section

variable {α : Type} {parse : List Char → Except Fault α} {start : State}
  {answer? : State → Option α} {source : List Char} {place : Location} {expected : Expected}
  {found : Option Token}

/-- A token that the machine refuses as unexpected is the first hopeless one. -/
theorem Entry.firstHopeless_of_run (entry : Entry parse start answer?)
    (failed : start.run (TokenStream.ofSource source).lexemes =
      .error (.grammar place (.unexpected expected found))) :
    FirstHopeless parse source place found := by
  obtain ⟨rest, whole, _⟩ := exists_items_eq_append (scan source)
  obtain ⟨earlier, lexeme, later, last, split, run, refused⟩ := State.run_error failed
  obtain ⟨⟨rfl, rfl⟩, fresh⟩ := State.step_unexpected refused
  have tokens : (splitAtFault (scan source)).1 = earlier ++ lexeme :: later := split
  have scanned : scan source = earlier.map .ok ++ .ok lexeme :: (later.map .ok ++ rest) := by
    rw [tokens] at whole
    rw [whole, List.map_append, List.map_cons, List.append_assoc, List.cons_append]
  have here : (scan source)[earlier.length]? = some (.ok lexeme) := by
    rw [scanned]
    simp
  have front : (scan source).take earlier.length = earlier.map .ok := by
    rw [scanned]
    simp
  have plain : Plain (earlier.map Lexeme.token) := plain_of_scan fun other listed => by
    rw [scanned]
    exact List.mem_append_left _ (List.mem_map_of_mem listed)
  have only (i : Nat) (other : Lexeme) (there : (scan source)[i]? = some (.ok other))
      (same : other.start.toLocation = lexeme.start.toLocation) : i = earlier.length :=
    index_unique there here same
  exact ⟨earlier.length, lexeme, here, rfl, rfl, only, earlier, front,
    entry.viable run fresh plain, entry.not_viable run refused⟩

/-- An end that the machine reports as unexpected is the first hopeless place. -/
theorem Entry.firstHopeless_of_end (entry : Entry parse start answer?) {lexemes : List Lexeme}
    {last : State} (scanned : scan source = lexemes.map .ok) (run : start.run lexemes = .ok last)
    (silent : answer? last = none)
    (failed : last.unfinished (Location.start.past source) =
      .grammar place (.unexpected expected found)) :
    FirstHopeless parse source place found := by
  obtain ⟨⟨rfl, rfl⟩, fresh⟩ := State.unfinished_unexpected failed
  have plain : Plain (lexemes.map Lexeme.token) := plain_of_scan fun lexeme listed => by
    rw [scanned]
    exact List.mem_map_of_mem listed
  have incomplete : ¬last.IsComplete := fun complete => by
    obtain ⟨answer, given⟩ := (entry.complete_iff run).mp complete
    rw [silent] at given
    cases given
  exact ⟨lexemes, scanned, rfl, entry.viable run fresh plain, entry.not_accepts run incomplete⟩

/-- Every report of something unexpected is at the first hopeless place. -/
theorem Entry.firstHopeless (entry : Entry parse start answer?)
    (failed : parse source = .error (.grammar place (.unexpected expected found))) :
    FirstHopeless parse source place found := by
  rcases entry.parse_error failed with machine | lexical | ⟨lexemes, last, scanned, run, silent, own⟩
  · exact entry.firstHopeless_of_run machine
  · obtain ⟨cause, same⟩ := lexical_of_mem_scan (mem_scan_of_fault lexical)
    cases same
  · exact entry.firstHopeless_of_end scanned run silent own.symm

end

/-- What the parsers report as unexpected is where their sources become hopeless: the tokens in
front of the place begin an accepted token list, and no accepted one goes on with the token there,
or ends there. -/
theorem parse_unexpected_firstHopeless (source : List Char) (place : Location)
    (expected : Expected) (found : Option Token) :
    (parseDefinitions source = .error (.grammar place (.unexpected expected found)) →
      FirstHopeless parseDefinitions source place found) ∧
    (parseRule source = .error (.grammar place (.unexpected expected found)) →
      FirstHopeless parseRule source place found) :=
  ⟨entry_definitions.firstHopeless, entry_rule.firstHopeless⟩

/-- A definition without its sign is hopeless at the token behind its name, and an enumeration
without its braces at the end. -/
theorem firstHopeless_equalsSign_leftBrace :
    (parseDefinitions "type T array".toList =
        .error ⟨⟨1, 8⟩, .grammar (.unexpected .equalsSign (some (.keyword .array)))⟩ ∧
      FirstHopeless parseDefinitions "type T array".toList ⟨1, 8⟩ (some (.keyword .array))) ∧
    (parseRule "enumeration".toList = .error ⟨⟨1, 12⟩, .grammar (.unexpected .leftBrace none)⟩ ∧
      FirstHopeless parseRule "enumeration".toList ⟨1, 12⟩ none) := by
  have definition : parseDefinitions "type T array".toList =
      .error ⟨⟨1, 8⟩, .grammar (.unexpected .equalsSign (some (.keyword .array)))⟩ := by cbv
  have enumeration : parseRule "enumeration".toList =
      .error ⟨⟨1, 12⟩, .grammar (.unexpected .leftBrace none)⟩ := by cbv
  exact ⟨⟨definition, (parse_unexpected_firstHopeless _ _ _ _).1 definition⟩,
    enumeration, (parse_unexpected_firstHopeless _ _ _ _).2 enumeration⟩

end JsonShape
