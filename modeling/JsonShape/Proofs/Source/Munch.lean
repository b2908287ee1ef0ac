import JsonShape.Proofs.Source.Pieces
import JsonShape.Proofs.Text.Position

/-!
# Maximal munch

A scan takes a source text apart into layout and pieces, without a gap and without an overlap, and
every piece is the longest match at its place.

* `Layout layout rest`: blanks and comments, in front of a rest.
* `Tiles position text stretches`: a text is layout and pieces in turn, each where it starts.  What
  is known of the order of stretches follows from this (`Tiles.ordered`, `Tiles.length_le`).
* `scan_maximal_munch` says of every source text that the items of its scan tile it, with exact
  pieces.
-/

namespace JsonShape

/-! ## Layout -/

/-- Blanks and comments in front of a rest.  A comment goes on to the end of its line. -/
inductive Layout : List Char → List Char → Prop
  | nil (rest : List Char) : Layout [] rest
  | blank {c : Char} {text rest : List Char} :
    isLayoutChar c = true → Layout text rest → Layout (c :: text) rest
  | comment {remark text rest : List Char} :
    remark.head? = some '/' → '\n' ∉ remark → (∀ c ∈ (text ++ rest).head?, c = '\n') →
    Layout text rest → Layout ('/' :: (remark ++ text)) rest

/-- The rest of a comment, and layout behind it, in front of a rest. -/
def GoesOnInComment (text rest : List Char) : Prop :=
  ∃ remark more, text = remark ++ more ∧ '\n' ∉ remark ∧
    (∀ c ∈ (more ++ rest).head?, c = '\n') ∧ Layout more rest

theorem GoesOnInComment.cons {c : Char} {text rest : List Char} (inLine : c ≠ '\n')
    (comment : GoesOnInComment text rest) : GoesOnInComment (c :: text) rest := by
  obtain ⟨remark, more, rfl, within, stop, layout⟩ := comment
  refine ⟨c :: remark, more, rfl, fun listed => ?_, stop, layout⟩
  rcases List.mem_cons.mp listed with same | later
  · exact inLine same.symm
  · exact within later

/-- A slash before another one starts a comment. -/
theorem Layout.slash {text rest : List Char} (comment : GoesOnInComment text rest)
    (second : (text ++ rest).head? = some '/') : Layout ('/' :: text) rest := by
  obtain ⟨remark, more, rfl, within, stop, layout⟩ := comment
  refine .comment ?_ within stop layout
  cases remark with
  | nil => exact absurd (stop '/' second) (by decide)
  | cons d others => exact second

/-- What is split off in front of a text is layout, or the rest of a comment and layout. -/
theorem layout_of_split (text : List Char) :
    Layout (splitLayout false text).1 (splitLayout false text).2 ∧
      GoesOnInComment (splitLayout true text).1 (splitLayout true text).2 := by
  induction text with
  | nil => exact ⟨.nil [], [], [], rfl, nofun, nofun, .nil []⟩
  | cons c rest ih =>
    obtain ⟨layout, comment⟩ := ih
    constructor
    · rw [splitLayout, if_neg Bool.false_ne_true]
      split
      · next blank => exact .blank blank layout
      · split
        · next slashes =>
          obtain ⟨rfl, second⟩ := slashes
          refine Layout.slash comment ?_
          rwa [prepend_snd, splitLayout_append]
        · exact .nil _
    · rw [splitLayout, if_pos rfl]
      by_cases feed : c = '\n'
      · subst feed
        refine ⟨[], _, rfl, nofun, fun d first => ?_, .blank rfl layout⟩
        exact (Option.some.inj first).symm
      · rw [bne_iff_ne.mpr feed]
        exact comment.cons feed

/-- Behind layout stands none. -/
theorem splitLayout_stop {inComment : Bool} {text layout rest : List Char} {c : Char}
    (split : splitLayout inComment text = (layout, c :: rest)) :
    isLayoutChar c = false ∧ ¬(c = '/' ∧ rest.head? = some '/') := by
  induction text generalizing inComment layout with
  | nil => cases split
  | cons d more ih =>
    rw [splitLayout] at split
    split at split
    · exact ih (Prod.ext rfl (Prod.mk.inj split).2)
    · split at split
      · exact ih (Prod.ext rfl (Prod.mk.inj split).2)
      · next shown =>
        split at split
        · exact ih (Prod.ext rfl (Prod.mk.inj split).2)
        · next noComment =>
          cases split
          exact ⟨Bool.eq_false_iff.mpr shown, noComment⟩

/-! ## Tilings -/

/-- A piece of a text with the position where it starts. -/
structure Stretch where
  start : Position
  piece : Piece

/-- The position behind a piece. -/
def Stretch.stop (stretch : Stretch) : Position := stretch.start.past stretch.piece.taken

/-- What a scan says of a piece. -/
def Stretch.item (stretch : Stretch) : Item := stretch.piece.item stretch.start

theorem Stretch.start_of_item {stretch : Stretch} {lexeme : Lexeme}
    (item : stretch.item = .ok lexeme) : lexeme.start = stretch.start := by
  unfold Stretch.item Piece.item at item
  split at item
  · cases item
    rfl
  · cases item

theorem Stretch.stop_of_item {stretch : Stretch} {lexeme : Lexeme}
    (item : stretch.item = .ok lexeme) : lexeme.stop = stretch.stop := by
  unfold Stretch.item Piece.item at item
  split at item
  · cases item
    rfl
  · cases item

/-- A text that starts at a position is layout and pieces in turn.  Each piece starts behind the
layout that stands in front of it, and takes a character. -/
inductive Tiles : Position → List Char → List Stretch → Prop
  | finish {position : Position} {text : List Char} : Layout text [] → Tiles position text []
  | stretch {position : Position} {layout : List Char} {piece : Piece} {rest : List Stretch} :
    Layout layout (piece.taken ++ piece.behind) → piece.taken ≠ [] →
    Tiles ((position.past layout).past piece.taken) piece.behind rest →
    Tiles position (layout ++ (piece.taken ++ piece.behind)) (⟨position.past layout, piece⟩ :: rest)

theorem byteLength_pos {text : List Char} (nonempty : text ≠ []) : 0 < byteLength text := by
  obtain ⟨c, rest, rfl⟩ := List.exists_cons_of_ne_nil nonempty
  exact Nat.add_pos_left c.utf8Size_pos _

theorem eq_nil_of_byteLength {text : List Char} (none : byteLength text = 0) : text = [] := by
  by_contra nonempty
  exact absurd none (byteLength_pos nonempty).ne'

namespace Tiles

variable {position : Position} {text : List Char} {stretches : List Stretch}

/-- There are no more pieces than characters. -/
theorem length_le (tiles : Tiles position text stretches) : stretches.length ≤ text.length := by
  induction tiles with
  | finish _ => exact Nat.zero_le _
  | stretch _ nonempty _ ih =>
    have taken := List.length_pos_iff.mpr nonempty
    simp only [List.length_cons, List.length_append]
    omega

/-- Every piece stands behind the start of the text, and in front of what it leaves behind. -/
theorem exists_before (tiles : Tiles position text stretches) {s : Stretch}
    (listed : s ∈ stretches) :
    ∃ before, text = before ++ (s.piece.taken ++ s.piece.behind) ∧ s.start = position.past before ∧
      s.piece.taken ≠ [] := by
  induction tiles with
  | finish _ => cases listed
  | @stretch position layout piece rest _ nonempty _ ih =>
    rcases List.mem_cons.mp listed with rfl | later
    · exact ⟨layout, rfl, rfl, nonempty⟩
    · obtain ⟨before, whole, start, taken⟩ := ih later
      refine ⟨layout ++ (piece.taken ++ before), ?_, ?_, taken⟩
      · simp only [whole, List.append_assoc]
      · rw [start, Position.past_append, Position.past_append]

/-- Every piece takes a byte. -/
theorem start_lt_stop (tiles : Tiles position text stretches) {s : Stretch}
    (listed : s ∈ stretches) : s.start.offset < s.stop.offset := by
  obtain ⟨_, _, _, nonempty⟩ := tiles.exists_before listed
  have size := byteLength_pos nonempty
  rw [Stretch.stop, Position.offset_past]
  omega

/-- No piece starts before the one in front of it ends. -/
theorem ordered (tiles : Tiles position text stretches) :
    stretches.Pairwise fun a b => a.stop.offset ≤ b.start.offset := by
  induction tiles with
  | finish _ => exact List.Pairwise.nil
  | stretch _ _ others ih =>
    refine List.pairwise_cons.mpr ⟨fun s later => ?_, ih⟩
    obtain ⟨before, _, start, _⟩ := others.exists_before later
    rw [start, Position.offset_past]
    exact Nat.le_add_right _ _

/-- The pieces of a text start at different locations, one behind the other. -/
theorem starts_ordered (tiles : Tiles position text stretches) :
    stretches.Pairwise fun a b => a.start.toLocation.Before b.start.toLocation := by
  induction tiles with
  | finish _ => exact List.Pairwise.nil
  | stretch _ nonempty others ih =>
    refine List.pairwise_cons.mpr ⟨fun s later => ?_, ih⟩
    obtain ⟨before, _, start, _⟩ := others.exists_before later
    rw [start, ← Position.past_append, Position.toLocation_past _ (_ ++ before)]
    exact Location.before_past _ (List.append_ne_nil_of_left_ne_nil nonempty before)

end Tiles

/-! ## Scans -/

/-- The items of a scan tile the text, and each is cut off where no layout starts. -/
theorem exists_tiles_firstPiece (position : Position) (text : List Char) :
    ∃ stretches, scanFrom position text = stretches.map Stretch.item ∧
      Tiles position text stretches ∧ ∀ s ∈ stretches, ∃ c rest, s.piece = firstPiece c rest ∧
        isLayoutChar c = false ∧ ¬(c = '/' ∧ rest.head? = some '/') := by
  induction position, text using scan_induction with
  | @finish position text blanks split =>
    have lossless := splitLayout_append false text
    have layout := (layout_of_split text).1
    rw [split] at lossless layout
    obtain rfl : blanks = text := (List.append_nil blanks).symm.trans lossless
    refine ⟨[], scanFrom_of_layout split, .finish layout, fun _ listed => ?_⟩
    exact absurd listed List.not_mem_nil
  | @piece position text blanks rest c split ih =>
    obtain ⟨others, scanned, tiles, all⟩ := ih
    obtain ⟨shown, noComment⟩ := splitLayout_stop split
    refine ⟨⟨position.past blanks, firstPiece c rest⟩ :: others, ?_, ?_, ?_⟩
    · rw [scanFrom_of_split split, scanned]
      rfl
    · have lossless := splitLayout_append false text
      have layout := (layout_of_split text).1
      rw [split, ← firstPiece_append c rest] at lossless layout
      rw [← lossless]
      exact .stretch layout (firstPiece_taken_ne_nil c rest) tiles
    · intro s listed
      rcases List.mem_cons.mp listed with rfl | later
      · exact ⟨c, rest, rfl, shown, noComment⟩
      · exact all s later

/-- The items of a scan tile the text, each with an exact piece. -/
theorem exists_tiles (position : Position) (text : List Char) :
    ∃ stretches, scanFrom position text = stretches.map Stretch.item ∧
      Tiles position text stretches ∧ ∀ s ∈ stretches, s.piece.Exact := by
  obtain ⟨stretches, scanned, tiles, cut⟩ := exists_tiles_firstPiece position text
  refine ⟨stretches, scanned, tiles, fun s listed => ?_⟩
  obtain ⟨c, rest, piece, shown, noComment⟩ := cut s listed
  rw [piece]
  exact firstPiece_exact shown noComment

/-- The scanner is lossless, and it takes the longest match everywhere.  It stops after at most as
many items as there are characters; these items, and layout between them, make up the source; each
item takes a character and starts where the one in front has ended or later, at the position that
the text before it leads to; and every piece is exact. -/
theorem scan_maximal_munch (source : List Char) :
    (scan source).length ≤ source.length ∧
    ∃ stretches, scan source = stretches.map Stretch.item ∧ Tiles .start source stretches ∧
      stretches.Pairwise (fun a b => a.stop.offset ≤ b.start.offset) ∧
      ∀ s ∈ stretches, s.start.offset < s.stop.offset ∧ s.piece.Exact ∧
        ∃ before, source = before ++ (s.piece.taken ++ s.piece.behind) ∧
          s.start = Position.start.past before := by
  obtain ⟨stretches, scanned, tiles, exact⟩ := exists_tiles .start source
  have items : scan source = stretches.map Stretch.item := scanned
  refine ⟨?_, stretches, items, tiles, tiles.ordered, fun s listed => ?_⟩
  · rw [items, List.length_map]
    exact tiles.length_le
  · obtain ⟨before, whole, start, _⟩ := tiles.exists_before listed
    exact ⟨tiles.start_lt_stop listed, exact s listed, before, whole, start⟩

end JsonShape
