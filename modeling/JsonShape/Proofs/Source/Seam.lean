import JsonShape.Proofs.Source.Scanning

/-!
# Seams in scanned texts

A text without lexical faults is scanned in the same way when more text follows behind a line
feed, also if it ends in a comment; and what follows is scanned from there.

* `Severs rest` says that no token goes on into `rest`.  Each split of a numeral, and each piece
  that is a token, stays the same before such a text (`firstPiece_severed`).
* `splitLayout_append_of_stop`, `splitLayout_append_feed`: layout ends where it did, and a comment
  that reaches the seam ends at the line feed.
* `scanFrom_append_feed` puts them together.
-/

namespace JsonShape

/-! ## Splits before a seam -/

/-- A text that no token goes on into. -/
structure Severs (rest : List Char) : Prop where
  closes : Closes rest
  notPlus : ∀ c ∈ rest.head?, c ≠ '+'

theorem Severs.nil : Severs [] where
  closes := .nil
  notPlus := nofun

theorem Severs.cons {c : Char} (outside : isWordChar c = false) (notPoint : c ≠ '.')
    (notPlus : c ≠ '+') (rest : List Char) : Severs (c :: rest) where
  closes := .cons outside notPoint rest
  notPlus := by
    intro d first
    cases Option.some.inj first
    exact notPlus

theorem Severs.feed (rest : List Char) : Severs ('\n' :: rest) :=
  .cons rfl (by decide) (by decide) rest

/-- A split text with more text behind it. -/
def extend (rest : List Char) (split : List Char × List Char) : List Char × List Char :=
  (split.1, split.2 ++ rest)

@[simp] theorem extend_fst (rest : List Char) (split : List Char × List Char) :
    (extend rest split).1 = split.1 := rfl

@[simp] theorem extend_snd (rest : List Char) (split : List Char × List Char) :
    (extend rest split).2 = split.2 ++ rest := rfl

/-- Characters of a class are split off as before if the text behind starts with no other. -/
theorem takeWhile_dropWhile_extend {p : Char → Bool} {rest : List Char}
    (stops : ∀ c ∈ rest.head?, p c = false) (text : List Char) :
    ((text ++ rest).takeWhile p, (text ++ rest).dropWhile p) =
      extend rest (text.takeWhile p, text.dropWhile p) := by
  induction text with
  | nil =>
    cases rest with
    | nil => rfl
    | cons c more => simp [extend, stops c rfl]
  | cons c more ih =>
    obtain ⟨taken, dropped⟩ := Prod.mk.inj ih
    by_cases inside : p c = true
    · simpa [extend, inside] using And.intro taken dropped
    · simp [extend, inside]

section Numerals

variable {rest : List Char}

theorem splitDigits_extend (severs : Severs rest) (text : List Char) :
    splitDigits (text ++ rest) = extend rest (splitDigits text) :=
  takeWhile_dropWhile_extend (fun c first => (severs.closes.endsNumeral c first).1) text

theorem splitMinus_of_head_ne {text : List Char} (other : ∀ c ∈ text.head?, c ≠ '-') :
    splitMinus text = ([], text) := by
  unfold splitMinus
  split
  · exact absurd rfl (other '-' rfl)
  · rfl

theorem splitSign_of_head_ne {text : List Char}
    (other : ∀ c ∈ text.head?, c ≠ '+' ∧ c ≠ '-') : splitSign text = ([], text) := by
  unfold splitSign
  split
  · exact absurd rfl (other '+' rfl).1
  · exact absurd rfl (other '-' rfl).2
  · rfl

theorem Severs.notMinus (severs : Severs rest) : ∀ c ∈ rest.head?, c ≠ '-' :=
  fun c first => (ne_of_class rfl (severs.closes c first).1).symm

theorem splitMinus_extend (severs : Severs rest) (text : List Char) :
    splitMinus (text ++ rest) = extend rest (splitMinus text) := by
  cases text with
  | nil => exact splitMinus_of_head_ne severs.notMinus
  | cons c more =>
    by_cases minus : c = '-'
    · subst minus
      rfl
    · simp [splitMinus, minus, extend]

theorem splitSign_extend (severs : Severs rest) (text : List Char) :
    splitSign (text ++ rest) = extend rest (splitSign text) := by
  cases text with
  | nil =>
    exact splitSign_of_head_ne fun c first => ⟨severs.notPlus c first, severs.notMinus c first⟩
  | cons c more =>
    by_cases plus : c = '+'
    · subst plus
      rfl
    · by_cases minus : c = '-'
      · subst minus
        rfl
      · simp [splitSign, plus, minus, extend]

theorem splitFraction_extend (severs : Severs rest) (text : List Char) :
    splitFraction (text ++ rest) = extend rest (splitFraction text) := by
  cases text with
  | nil => exact splitFraction_of_head_ne fun c first => (severs.closes c first).2
  | cons c more =>
    by_cases point : c = '.'
    · subst point
      rw [List.cons_append, splitFraction, splitFraction, splitDigits_extend severs, extend_fst]
      split
      · rfl
      · rfl
    · simp [splitFraction, point, extend]

theorem splitExponent_extend (severs : Severs rest) (text : List Char) :
    splitExponent (text ++ rest) = extend rest (splitExponent text) := by
  cases text with
  | nil => exact splitExponent_of_head_ne fun c first => (severs.closes.endsNumeral c first).2.2
  | cons c more =>
    simp only [List.cons_append, splitExponent, splitSign_extend severs, extend_fst, extend_snd,
      splitDigits_extend severs]
    split
    · rfl
    · rfl

theorem splitNumeral?_extend (severs : Severs rest) (text : List Char) :
    splitNumeral? (text ++ rest) =
      (splitNumeral? text).map fun split => (split.1, split.2 ++ rest) := by
  simp only [splitNumeral?, splitMinus_extend severs, extend_fst, extend_snd,
    splitDigits_extend severs, splitFraction_extend severs, splitExponent_extend severs]
  split
  · rfl
  · rfl

end Numerals

theorem splitString_extend {text behind : List Char}
    (closed : (splitString text).2 = '"' :: behind) (rest : List Char) :
    splitString (text ++ rest) = extend rest (splitString text) := by
  fun_induction splitString text with
  | case1 => cases closed
  | case2 => cases closed
  | case3 more => cases closed
  | case4 c more inLine ih =>
    rw [List.cons_append, List.cons_append, splitString_escape inLine, ih closed]
    rfl
  | case5 c more notLone notPair stop =>
    obtain ⟨rfl, rfl⟩ := List.cons.inj closed
    rw [List.cons_append, splitString_quote]
    rfl
  | case6 c more notLone notPair plain ih =>
    have backslash : c ≠ '\\' := by
      intro same
      rcases more with _ | ⟨d, others⟩
      · exact notLone same rfl
      · exact notPair d others same rfl
    obtain ⟨quote, feed⟩ := not_or.mp plain
    rw [List.cons_append, splitString_plain quote backslash feed, ih closed]
    rfl

/-! ## Pieces before a seam -/

/-- A piece with more text behind it. -/
def Piece.extend (piece : Piece) (rest : List Char) : Piece :=
  { piece with behind := piece.behind ++ rest }

theorem stringPiece_of_closed {text inside behind : List Char}
    (split : splitString text = (inside, '"' :: behind)) :
    stringPiece text =
      match unescape inside with
      | .ok value => ⟨'"' :: (inside ++ ['"']), behind, .ok (.string (String.ofList value))⟩
      | .error c => ⟨'"' :: (inside ++ ['"']), behind, .error (.invalidEscape c, [])⟩ := by
  cases denoted : unescape inside with
  | ok value => simp only [stringPiece, split, denoted]
  | error c => simp only [stringPiece, split, denoted]

/-- A string literal that is a token is closed. -/
theorem splitString_of_content {text : List Char} {token : Token}
    (content : (stringPiece text).content = .ok token) :
    ∃ inside behind, splitString text = (inside, '"' :: behind) := by
  unfold stringPiece at content
  dsimp only at content
  split at content
  · rename_i behind closed
    exact ⟨_, behind, Prod.ext rfl closed⟩
  · split at content <;> cases content

theorem stringPiece_extend {text : List Char} {token : Token}
    (content : (stringPiece text).content = .ok token) (rest : List Char) :
    stringPiece (text ++ rest) = (stringPiece text).extend rest := by
  obtain ⟨inside, behind, closed⟩ := splitString_of_content content
  have extended : splitString (text ++ rest) = (inside, '"' :: (behind ++ rest)) := by
    rw [splitString_extend (congrArg Prod.snd closed), closed]
    rfl
  rw [stringPiece_of_closed extended, stringPiece_of_closed closed]
  cases unescape inside with
  | ok value => rfl
  | error c => rfl

theorem wordPiece_extend {rest : List Char} (severs : Severs rest) (c : Char)
    (more : List Char) : wordPiece c (more ++ rest) = (wordPiece c more).extend rest := by
  have split := takeWhile_dropWhile_extend (fun d first => (severs.closes d first).1) more
  obtain ⟨taken, dropped⟩ := Prod.mk.inj split
  rw [wordPiece, taken, dropped]
  rfl

theorem numeralPiece_extend {rest : List Char} (severs : Severs rest) (c : Char)
    (more : List Char) : numeralPiece c (more ++ rest) = (numeralPiece c more).extend rest := by
  have split := splitNumeral?_extend severs (c :: more)
  rw [List.cons_append] at split
  rw [numeralPiece, numeralPiece, split]
  cases splitNumeral? (c :: more) with
  | none => rfl
  | some found => rfl

/-- A piece that is a token is the same before a text that no token goes on into. -/
theorem firstPiece_severed {c : Char} {more : List Char} {token : Token}
    (content : (firstPiece c more).content = .ok token) {rest : List Char}
    (severs : Severs rest) : firstPiece c (more ++ rest) = (firstPiece c more).extend rest := by
  unfold firstPiece at content ⊢
  split
  · rename_i quote
    rw [if_pos quote] at content
    exact stringPiece_extend content rest
  · split
    · exact wordPiece_extend severs c more
    · split
      · rfl
      · exact numeralPiece_extend severs c more

/-! ## Layout before a seam -/

/-- A slash starts a comment before a seam only if it did without. -/
theorem head?_append_slash (text : List Char) {rest : List Char}
    (notSlash : ∀ d ∈ rest.head?, d ≠ '/') :
    (text ++ rest).head? = some '/' ↔ text.head? = some '/' := by
  cases text with
  | nil => exact ⟨fun slash => absurd rfl (notSlash '/' slash), nofun⟩
  | cons d more => exact Iff.rfl

/-- Whether a character is layout does not depend on what is behind a seam. -/
theorem splitLayout_cons_append (inComment : Bool) (d : Char) (text : List Char)
    {rest : List Char} (notSlash : ∀ d ∈ rest.head?, d ≠ '/') :
    (∃ started, splitLayout inComment (d :: text) = prepend d (splitLayout started text) ∧
        splitLayout inComment (d :: (text ++ rest)) =
          prepend d (splitLayout started (text ++ rest))) ∨
      (splitLayout inComment (d :: text) = ([], d :: text) ∧
        splitLayout inComment (d :: (text ++ rest)) = ([], d :: (text ++ rest))) := by
  have slash := head?_append_slash text notSlash
  rw [splitLayout, splitLayout]
  by_cases inside : inComment = true
  · rw [if_pos inside, if_pos inside]
    exact .inl ⟨_, rfl, rfl⟩
  by_cases blank : isLayoutChar d = true
  · rw [if_neg inside, if_neg inside, if_pos blank, if_pos blank]
    exact .inl ⟨_, rfl, rfl⟩
  by_cases slashes : d = '/' ∧ text.head? = some '/'
  · rw [if_neg inside, if_neg inside, if_neg blank, if_neg blank, if_pos slashes,
      if_pos ⟨slashes.1, slash.mpr slashes.2⟩]
    exact .inl ⟨_, rfl, rfl⟩
  · rw [if_neg inside, if_neg inside, if_neg blank, if_neg blank, if_neg slashes,
      if_neg fun both => slashes ⟨both.1, slash.mp both.2⟩]
    exact .inr ⟨rfl, rfl⟩

/-- Layout that ends before some character ends there whatever follows. -/
theorem splitLayout_append_of_stop {inComment : Bool} {text layout more : List Char} {c : Char}
    (split : splitLayout inComment text = (layout, c :: more)) {rest : List Char}
    (notSlash : ∀ d ∈ rest.head?, d ≠ '/') :
    splitLayout inComment (text ++ rest) = (layout, c :: (more ++ rest)) := by
  induction text generalizing inComment layout with
  | nil => cases split
  | cons d others ih =>
    rw [List.cons_append]
    rcases splitLayout_cons_append inComment d others notSlash with
      ⟨started, alone, before⟩ | ⟨alone, before⟩
    · rw [alone] at split
      obtain ⟨rfl, stop⟩ := Prod.mk.inj split
      rw [before, ih (Prod.ext rfl stop)]
      rfl
    · rw [alone] at split
      cases split
      exact before

/-- A text of layout goes on behind a line feed as if it started there. -/
theorem splitLayout_append_feed {inComment : Bool} {text layout : List Char}
    (split : splitLayout inComment text = (layout, [])) (rest : List Char) :
    splitLayout inComment (text ++ '\n' :: rest) =
      (text ++ '\n' :: (splitLayout false rest).1, (splitLayout false rest).2) := by
  induction text generalizing inComment layout with
  | nil =>
    rw [List.nil_append, List.nil_append, splitLayout]
    split
    · rfl
    · rfl
  | cons d others ih =>
    have notSlash : ∀ d ∈ ('\n' :: rest).head?, d ≠ '/' := by simp
    rw [List.cons_append]
    rcases splitLayout_cons_append inComment d others notSlash with
      ⟨started, alone, before⟩ | ⟨alone, before⟩
    · rw [alone] at split
      have nothing := (Prod.mk.inj split).2
      rw [before, ih (Prod.ext rfl nothing)]
      rfl
    · rw [alone] at split
      cases split

/-! ## Scans across a seam -/

/-- A text that is scanned without fault is scanned in the same way before a line feed, and what
follows the line feed is scanned from there. -/
theorem scanFrom_append_feed {position : Position} {text : List Char} {lexemes : List Lexeme}
    (clean : scanFrom position text = lexemes.map .ok) (rest : List Char) :
    scanFrom position (text ++ '\n' :: rest) =
      lexemes.map .ok ++ scanFrom (position.past (text ++ ['\n'])) rest := by
  induction position, text using scan_induction generalizing lexemes with
  | @finish position text layout split =>
    have blank : splitLayout false ((text ++ ['\n']) ++ rest) =
        ((text ++ ['\n']) ++ (splitLayout false rest).1, (splitLayout false rest).2) := by
      simpa using splitLayout_append_feed split rest
    rw [scanFrom_of_layout split] at clean
    rw [← clean, List.nil_append, List.append_cons]
    exact scanFrom_past _ blank position
  | @piece position text layout more c split ih =>
    have whole : text = layout ++ ((firstPiece c more).taken ++ (firstPiece c more).behind) := by
      rw [firstPiece_append, ← splitLayout_append false text, split]
    rw [scanFrom_of_split split] at clean
    obtain ⟨lexeme, others, rfl, first, later⟩ := List.map_eq_cons_iff.mp clean.symm
    have severed := firstPiece_severed (Piece.content_of_item first.symm) (.feed rest)
    have stop : splitLayout false (text ++ '\n' :: rest) =
        (layout, c :: (more ++ '\n' :: rest)) := splitLayout_append_of_stop split (by simp)
    have behind := ih later.symm
    rw [scanFrom_of_split stop, severed, List.map_cons, first, List.cons_append]
    refine congrArg _ ?_
    calc scanFrom ((position.past layout).past (firstPiece c more).taken)
          ((firstPiece c more).behind ++ '\n' :: rest)
        = others.map .ok ++ scanFrom (((position.past layout).past
            (firstPiece c more).taken).past ((firstPiece c more).behind ++ ['\n'])) rest := behind
      _ = others.map .ok ++ scanFrom (position.past (text ++ ['\n'])) rest := by
        rw [← Position.past_append, ← Position.past_append, whole]
        simp only [List.append_assoc]

end JsonShape
