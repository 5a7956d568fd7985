import Lox.Proofs.Token.Bytes
import Lox.Proofs.Token.Pieces
import Mathlib.Data.List.Forall2

/-!
# Scanning loses nothing

A source text is a skipped first line, which may be empty, and the pieces that the rest is
split into.  There is exactly one such cutting of each source text (`Cutting.IsOf.unique`).

**Answer.** If no piece of it is bad, the scan answers with one token for each token piece
and the end token; if some are bad, with one error for each of these.  Tokens and errors
come in the order of their pieces and stand where these stand, counted in bytes and lines
of the source (`scan_lossless`).
-/

namespace Lox

/-! ## Cuttings -/

/-- A first line that starts with a hash and an exclamation mark is skipped, with its line
feed. -/
inductive Skips : List Char → List Char → List Char → Prop
  | none {text : List Char} (h : ¬ ['#', '!'] <+: text) : Skips text [] text
  | line {line text : List Char} (hline : '\n' ∉ line) :
      Skips ('#' :: '!' :: (line ++ '\n' :: text)) ('#' :: '!' :: (line ++ ['\n'])) text
  | last {line : List Char} (hline : '\n' ∉ line) :
      Skips ('#' :: '!' :: line) ('#' :: '!' :: line) []

/-- The text that pieces make up. -/
def Piece.textOf (pieces : List Piece) : List Char := pieces.flatMap Piece.text

/-- A source text, cut. -/
structure Cutting where
  /-- The first line, if it is skipped. -/
  skipped : List Char
  /-- The pieces of what follows. -/
  pieces : List Piece

namespace Cutting

/-- The cutting is one of the source. -/
structure IsOf (source : String) (c : Cutting) : Prop where
  /-- What is skipped, and what is not. -/
  skips : Skips source.toList c.skipped (Piece.textOf c.pieces)
  /-- The pieces are as long as they can be. -/
  splits : Piece.Splits c.pieces (Piece.textOf c.pieces)

/-- Pieces, each with the text before it. -/
def withBefore (before : List Char) : List Piece → List (List Char × Piece)
  | [] => []
  | piece :: pieces => (before, piece) :: withBefore (before ++ piece.text) pieces

/-- The pieces of the cutting, each with the part of the source before it. -/
def placed (c : Cutting) : List (List Char × Piece) := withBefore c.skipped c.pieces

end Cutting

/-! ## Answers -/

/-- The piece is a token. -/
def Piece.isToken : Piece → Bool
  | .token .. => true
  | _ => false

/-- The piece is a stray character or an open string. -/
def Piece.isBad : Piece → Bool
  | .stray _ => true
  | .openString _ => true
  | _ => false

/-- The token is the piece that stands after `before` in the source. -/
structure Token.ReadFrom (source : String) (t : Token) (place : List Char × Piece) : Prop where
  /-- Kind, text and value are those of the piece. -/
  piece : place.2 = .token t.kind t.lexeme.toList t.literal
  /-- The token begins where the piece does. -/
  offset : t.span.offset = byteLength place.1
  /-- Its span is where its text stands. -/
  covers : t.span.Covers source t.lexeme

/-- What an error says about a bad piece. -/
inductive CompileError.Tells (e : CompileError) : Piece → Prop
  | stray {c : Char} (hmessage : e.message = "unexpected character '" ++ c.toString ++ "'")
      (hlocation : e.location = "at '" ++ c.toString ++ "'") : Tells e (.stray c)
  | openString {text : List Char} (hmessage : e.message = "unterminated string")
      (hlocation : e.location = "at end") : Tells e (.openString text)

/-- The error is about the bad piece that stands after `before` in the source. -/
structure CompileError.ReportedAt (source : String) (e : CompileError)
    (place : List Char × Piece) : Prop where
  /-- The error is one of the scan. -/
  code : e.code = "lox::scan"
  /-- Its words are those for the piece. -/
  tells : e.Tells place.2
  /-- It stands where the piece begins. -/
  offset : e.span.offset = byteLength place.1
  /-- This is a place in the source. -/
  inside : e.span.offset < (sourceBytes source).length
  /-- It is one byte long. -/
  len : e.span.len = 1
  /-- Its line is one more than the line feeds before it. -/
  line : e.line = 1 + ((sourceBytes source).take e.span.offset).count lineFeed

/-- What the scan of a source answers, by the cutting of the source. -/
inductive Cutting.Answers (source : String) (c : Cutting) :
    Except (List CompileError) (List Token) → Prop
  | tokens {tokens : List Token} {stop : Token} (hgood : ∀ piece ∈ c.pieces, ¬ piece.isBad)
      (htokens : List.Forall₂ (Token.ReadFrom source) tokens
        (c.placed.filter fun place => place.2.isToken))
      (hkind : stop.kind = .eof) (hlexeme : stop.lexeme = "") (hliteral : stop.literal = none)
      (hspan : stop.span.Covers source "")
      (hoffset : stop.span.offset = (sourceBytes source).length) (hlen : stop.span.len = 0) :
      Answers source c (.ok (tokens ++ [stop]))
  | errors {errors : List CompileError} (hbad : ∃ piece ∈ c.pieces, piece.isBad)
      (herrors : List.Forall₂ (CompileError.ReportedAt source) errors
        (c.placed.filter fun place => place.2.isBad))
      (hsorted : errors.Pairwise fun e e' => e.span.offset < e'.span.offset) :
      Answers source c (.error errors)

/-! ## Each source text has one cutting -/

theorem Skips.append_eq {source skipped text : List Char} (h : Skips source skipped text) :
    skipped ++ text = source := by
  cases h <;> simp

theorem skips_splitShebang (source : List Char) :
    Skips source (splitShebang source).1 (splitShebang source).2 := by
  unfold splitShebang
  split
  · next rest =>
    have hline : '\n' ∉ rest.takeWhile (· ≠ '\n') := by
      intro hmem
      simpa using of_mem_takeWhile hmem
    have hall := List.takeWhile_append_dropWhile (p := (· ≠ '\n')) (l := rest)
    dsimp only
    split
    · next c text htext =>
      have hc : c = '\n' := by
        have hhead : c ∈ (rest.dropWhile (· ≠ '\n')).head? := by
          rw [htext]
          rfl
        simpa using not_of_head?_dropWhile hhead
      subst hc
      rw [htext] at hall
      have hskips : Skips _ _ text := .line hline
      rwa [hall] at hskips
    · next htext =>
      rw [htext, List.append_nil] at hall
      have hskips := Skips.last hline
      rwa [hall] at hskips ⊢
  · next hnone =>
    apply Skips.none
    rintro ⟨rest, rfl⟩
    exact hnone rest rfl

theorem Skips.splitShebang_eq {source skipped text : List Char}
    (h : Skips source skipped text) : splitShebang source = (skipped, text) := by
  cases h with
  | none h =>
    unfold splitShebang
    split
    · exact absurd (by simp) h
    · rfl
  | @line line text hline =>
    have hline := Piece.not_newline_of_not_mem hline
    have hstop : ∀ c ∈ ('\n' :: text).head?, decide (c ≠ '\n') = false := by simp
    simp only [splitShebang, takeWhile_of_stop hline hstop, dropWhile_of_stop hline hstop]
    simp
  | @last line hline =>
    have hline := Piece.not_newline_of_not_mem hline
    have hstop : ∀ c ∈ ([] : List Char).head?, decide (c ≠ '\n') = false := by simp
    have htake := takeWhile_of_stop hline hstop
    have hdrop := dropWhile_of_stop hline hstop
    rw [List.append_nil] at htake hdrop
    simp only [splitShebang, htake, hdrop]

theorem Piece.Splits.textOf_eq {pieces : List Piece} {text : List Char}
    (h : Splits pieces text) : textOf pieces = text := by
  induction h with
  | nil => rfl
  | cons _ _ ih => rw [← ih, textOf, List.flatMap_cons, textOf]

namespace Cutting

/-- The cutting that the scan makes. -/
def ofSource (source : List Char) : Cutting :=
  ⟨(splitShebang source).1, Piece.ofText (splitShebang source).2⟩

theorem isOf_ofSource (source : String) : (ofSource source.toList).IsOf source := by
  have hsplits := Piece.splits_ofText (splitShebang source.toList).2
  have htext := hsplits.textOf_eq
  constructor
  · rw [ofSource, htext]
    exact skips_splitShebang source.toList
  · rw [ofSource, htext]
    exact hsplits

/-- A source text has only one cutting. -/
theorem IsOf.unique {source : String} {c c' : Cutting} (h : c.IsOf source)
    (h' : c'.IsOf source) : c = c' := by
  have heq := h.skips.splitShebang_eq.symm.trans h'.skips.splitShebang_eq
  obtain ⟨hskipped, htext⟩ := Prod.mk.inj heq
  have hpieces : c.pieces = c'.pieces := by
    apply Piece.Splits.unique h.splits
    rw [htext]
    exact h'.splits
  cases c
  cases c'
  simp_all

theorem IsOf.text_eq {source : String} {c : Cutting} (h : c.IsOf source) :
    c.skipped ++ Piece.textOf c.pieces = source.toList :=
  h.skips.append_eq

end Cutting

/-! ## Places -/

namespace Piece

/-- Only the last piece can be an open string. -/
theorem Splits.openString_last {pieces before after : List Piece} {raw text : List Char}
    (h : Splits pieces text) (hpieces : pieces = before ++ .openString raw :: after) :
    after = [] := by
  induction h generalizing before with
  | nil => simp at hpieces
  | cons hfits hrest ih =>
    cases before with
    | nil =>
      obtain ⟨rfl, rfl⟩ := List.cons.inj hpieces
      obtain ⟨-, rfl, -⟩ := hfits
      exact hrest.unique .nil
    | cons piece before => exact ih (List.cons.inj hpieces).2

theorem Splits.text_ne_nil {pieces : List Piece} {text : List Char} (h : Splits pieces text) :
    ∀ piece ∈ pieces, piece.text ≠ [] := by
  induction h with
  | nil => simp
  | cons hfits _ ih => simpa using ⟨hfits.text_ne_nil, ih⟩

end Piece

namespace Cutting

theorem placed_eq (before : List Char) (pieces : List Piece) :
    Piece.placed (Position.start.after before) pieces =
      (withBefore before pieces).map fun place =>
        (Position.start.after place.1, place.2) := by
  induction pieces generalizing before with
  | nil => rfl
  | cons piece pieces ih =>
    simp only [Piece.placed, withBefore, List.map_cons, ← Position.after_append, ih]

theorem map_snd_withBefore (before : List Char) (pieces : List Piece) :
    (withBefore before pieces).map Prod.snd = pieces := by
  induction pieces generalizing before with
  | nil => rfl
  | cons piece pieces ih => simp [withBefore, ih]

/-- Each piece stands between the text before it and the text after it. -/
theorem exists_of_mem_withBefore {before : List Char} {pieces : List Piece}
    {place : List Char × Piece} (h : place ∈ withBefore before pieces) :
    ∃ after, before ++ Piece.textOf pieces = place.1 ++ (place.2.text ++ after) := by
  induction pieces generalizing before with
  | nil => simp [withBefore] at h
  | cons piece pieces ih =>
    rcases List.mem_cons.1 h with rfl | h
    · exact ⟨Piece.textOf pieces, rfl⟩
    · obtain ⟨after, hafter⟩ := ih h
      refine ⟨after, ?_⟩
      rw [← hafter]
      simp [Piece.textOf]

theorem offset_le_of_mem_withBefore {before : List Char} {pieces : List Piece}
    {place : List Char × Piece} (h : place ∈ withBefore before pieces) :
    byteLength before ≤ byteLength place.1 := by
  induction pieces generalizing before with
  | nil => simp [withBefore] at h
  | cons piece pieces ih =>
    rcases List.mem_cons.1 h with rfl | h
    · exact Nat.le_refl _
    · have hle := ih h
      rw [byteLength_append] at hle
      exact Nat.le_of_add_right_le hle

/-- Each piece stands behind the ones before it. -/
theorem pairwise_withBefore (before : List Char) {pieces : List Piece}
    (h : ∀ piece ∈ pieces, piece.text ≠ []) :
    (withBefore before pieces).Pairwise fun place place' =>
      byteLength place.1 < byteLength place'.1 := by
  induction pieces generalizing before with
  | nil => exact .nil
  | cons piece pieces ih =>
    constructor
    · intro place hplace
      have hle := offset_le_of_mem_withBefore hplace
      have hpos := byteLength_pos (h piece (List.mem_cons_self ..))
      rw [byteLength_append] at hle
      exact Nat.lt_of_lt_of_le (Nat.lt_add_of_pos_right hpos) hle
    · exact ih _ fun piece hpiece => h piece (List.mem_cons_of_mem _ hpiece)

end Cutting

/-! ## What the scan answers -/

section

variable {source : String} {place : List Char × Piece}

/-- A token piece gives the token that is read from it. -/
theorem readFrom_of_token? {t : Token}
    (hinside : ∃ after, source.toList = place.1 ++ (place.2.text ++ after))
    (h : place.2.token? (Position.start.after place.1) = some t) : t.ReadFrom source place := by
  obtain ⟨before, piece⟩ := place
  obtain ⟨after, hsource⟩ := hinside
  cases piece <;> cases h
  exact ⟨by simp, Nat.zero_add _, Span.covers_ofText hsource⟩

/-- A bad piece gives the error that reports it. -/
theorem reportedAt_of_error? {e : CompileError}
    (hinside : ∃ after, source.toList = place.1 ++ (place.2.text ++ after))
    (hne : place.2.text ≠ [])
    (h : place.2.error? (Position.start.after place.1) = some e) : e.ReportedAt source place := by
  obtain ⟨before, piece⟩ := place
  obtain ⟨after, hsource⟩ := hinside
  have hcovers := Span.covers_ofText hsource
  have hoffset : (Position.start.after before).offset = byteLength before := Nat.zero_add _
  have hbytes : (sourceBytes source).length =
      byteLength before + (byteLength piece.text + byteLength after) := by
    rw [length_sourceBytes, hsource, byteLength_append, byteLength_append]
  have hpos : 0 < byteLength piece.text := byteLength_pos hne
  cases piece <;> cases h
  case stray.refl c =>
    exact ⟨rfl, .stray rfl rfl, hoffset, by simp only [CompileError.span]; omega, rfl,
      hcovers.line⟩
  case openString.refl text =>
    exact ⟨rfl, .openString rfl rfl, hoffset, by simp only [CompileError.span]; omega, rfl,
      hcovers.line⟩

end

/-- Choosing from a list answers for each chosen member in turn. -/
theorem forall₂_filterMap {α β : Type} {f : α → Option β} {chosen : α → Bool}
    {related : β → α → Prop} {xs : List α} (hchosen : ∀ x ∈ xs, (f x).isSome = chosen x)
    (hrelated : ∀ x ∈ xs, ∀ y, f x = some y → related y x) :
    List.Forall₂ related (xs.filterMap f) (xs.filter chosen) := by
  induction xs with
  | nil => exact .nil
  | cons x xs ih =>
    have ih := ih (fun x hx => hchosen x (List.mem_cons_of_mem _ hx))
      fun x hx => hrelated x (List.mem_cons_of_mem _ hx)
    have hx := hchosen x (List.mem_cons_self ..)
    cases hfx : f x with
    | none =>
      rw [hfx] at hx
      rwa [List.filterMap_cons_none hfx, List.filter_cons_of_neg (by simp [← hx])]
    | some y =>
      rw [hfx] at hx
      rw [List.filterMap_cons_some hfx, List.filter_cons_of_pos (by simp [← hx])]
      exact .cons (hrelated x (List.mem_cons_self ..) y hfx) ih

theorem isToken_eq (p : Position) (piece : Piece) :
    (piece.token? p).isSome = piece.isToken := by
  cases piece <;> rfl

theorem isBad_eq (p : Position) (piece : Piece) : (piece.error? p).isSome = piece.isBad := by
  cases piece <;> rfl

namespace Cutting

variable {source : String} {c : Cutting}

/-- The tokens of the pieces of a cutting. -/
def tokens (c : Cutting) : List Token :=
  c.placed.filterMap fun place => place.2.token? (Position.start.after place.1)

/-- The errors of the pieces of a cutting. -/
def errors (c : Cutting) : List CompileError :=
  c.placed.filterMap fun place => place.2.error? (Position.start.after place.1)

theorem IsOf.exists_after (h : c.IsOf source) :
    ∀ place ∈ c.placed, ∃ after, source.toList = place.1 ++ (place.2.text ++ after) := by
  intro place hplace
  rw [← h.text_eq]
  exact exists_of_mem_withBefore hplace

theorem mem_of_mem_placed {place : List Char × Piece} (h : place ∈ c.placed) :
    place.2 ∈ c.pieces := by
  rw [← map_snd_withBefore c.skipped c.pieces]
  exact List.mem_map_of_mem h

/-- The tokens are read from the token pieces, in order. -/
theorem IsOf.tokens_readFrom (h : c.IsOf source) :
    List.Forall₂ (Token.ReadFrom source) c.tokens
      (c.placed.filter fun place => place.2.isToken) := by
  apply forall₂_filterMap
  · exact fun place _ => isToken_eq _ _
  · exact fun place hplace t ht => readFrom_of_token? (h.exists_after place hplace) ht

/-- The errors report the bad pieces, in order. -/
theorem IsOf.errors_reportedAt (h : c.IsOf source) :
    List.Forall₂ (CompileError.ReportedAt source) c.errors
      (c.placed.filter fun place => place.2.isBad) := by
  apply forall₂_filterMap
  · exact fun place _ => isBad_eq _ _
  · exact fun place hplace e he => reportedAt_of_error? (h.exists_after place hplace)
      (h.splits.text_ne_nil _ (mem_of_mem_placed hplace)) he

theorem IsOf.errors_sorted (h : c.IsOf source) :
    c.errors.Pairwise fun e e' => e.span.offset < e'.span.offset := by
  have hplaced := pairwise_withBefore c.skipped h.splits.text_ne_nil
  have hplaces := hplaced.filter fun place => place.2.isBad
  have hoffsets : c.errors.map (fun e => e.span.offset) =
      (c.placed.filter fun place => place.2.isBad).map fun place => byteLength place.1 := by
    rw [← List.forall₂_eq_eq_eq, List.forall₂_map_left_iff, List.forall₂_map_right_iff]
    exact h.errors_reportedAt.imp fun e place he => he.offset
  rw [← List.pairwise_map, hoffsets, List.pairwise_map]
  exact hplaces

theorem exists_isBad_iff : (∃ piece ∈ c.pieces, piece.isBad) ↔ c.errors ≠ [] := by
  rw [Ne, errors, List.filterMap_eq_nil_iff, ← map_snd_withBefore c.skipped c.pieces]
  simp only [List.mem_map, ← Option.not_isSome_iff_eq_none, isBad_eq]
  constructor
  · rintro ⟨_, ⟨place, hplace, rfl⟩, hbad⟩ hnone
    exact hnone place hplace hbad
  · intro hnone
    by_contra hgood
    exact hnone fun place hplace hbad => hgood ⟨place.2, ⟨place, hplace, rfl⟩, hbad⟩

/-- The scan, in terms of the cutting. -/
theorem scan_eq (source : String) :
    scan source = match (ofSource source.toList).errors with
      | [] => .ok ((ofSource source.toList).tokens ++
          [Token.endAt (Position.start.after source.toList)])
      | errors => .error errors := by
  simp only [scan, sourcePieces, placed_eq, List.filterMap_map]
  rfl

theorem covers_endAt (source : String) :
    (Token.endAt (Position.start.after source.toList)).span.Covers source "" := by
  have hsource : source.toList = source.toList ++ ([] ++ []) := by simp
  have hcovers := Span.covers_ofText hsource
  exact hcovers

theorem answers_scan (source : String) :
    (ofSource source.toList).Answers source (scan source) := by
  have hcut := isOf_ofSource source
  have hbad := exists_isBad_iff (c := ofSource source.toList)
  have herrors := hcut.errors_reportedAt
  have hsorted := hcut.errors_sorted
  rw [scan_eq]
  split
  · next hnone =>
    refine .tokens ?_ hcut.tokens_readFrom rfl rfl rfl (covers_endAt source) ?_ rfl
    · intro piece hpiece hpieceBad
      exact hbad.1 ⟨piece, hpiece, hpieceBad⟩ hnone
    · rw [length_sourceBytes]
      exact Nat.zero_add _
  · next hsome => exact .errors (hbad.2 hsome) herrors hsorted

end Cutting

/-- Every source text has exactly one cutting: a skipped first line and pieces that make up
the rest, each as long as it can be, an open string only at the end.  The scan answers with
the tokens among the pieces, or with one error for each bad piece. -/
theorem scan_lossless (source : String) :
    ∃ c : Cutting, c.IsOf source ∧ (∀ other : Cutting, other.IsOf source → other = c) ∧
      c.skipped ++ c.pieces.flatMap Piece.text = source.toList ∧
      (∀ before raw after, c.pieces = before ++ .openString raw :: after → after = []) ∧
      c.Answers source (scan source) := by
  have hcut := Cutting.isOf_ofSource source
  refine ⟨Cutting.ofSource source.toList, hcut, fun other hother => hother.unique hcut,
    hcut.text_eq, ?_, Cutting.answers_scan source⟩
  intro before raw after hpieces
  exact hcut.splits.openString_last hpieces

end Lox
