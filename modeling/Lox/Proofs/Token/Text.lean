import Lox.Proofs.Syntax.Extent
import Lox.Proofs.Token.Lossless
import Lox.Proofs.Token.Words
import Lox.Proofs.Syntax.Progress

/-!
# Tokens and errors of the scan in the text

The tokens of a source text stand in it one behind the other, and so do the errors of the scan
(`inText_of_scan`, `inText_of_scan_error`).  A stretch from one place in the text to another is a
place in the text as well (`Span.InText.through`).
-/

namespace Lox

/-- The stretch ends in the text, and its line is one more than the line feeds before it. -/
structure Span.InText (source : String) (s : Span) : Prop where
  inside : s.offset + s.len ≤ (sourceBytes source).length
  line : s.line = 1 + ((sourceBytes source).take s.offset).count lineFeed

section

variable {source : String} {s t : Span} {text : String}

theorem Span.Covers.inText (h : s.Covers source text) : s.InText source := ⟨h.inside, h.line⟩

theorem Span.Covers.len_eq (h : s.Covers source text) : s.len = byteLength text.toList := by
  have hlength := congrArg List.length h.bytes
  have hinside := h.inside
  rw [List.length_take, List.length_drop, length_sourceBytes text] at hlength
  omega

theorem Span.InText.through (hs : s.InText source) (ht : t.InText source) :
    (s.through t).InText source := by
  refine ⟨?_, hs.line⟩
  have hsstop : s.stop ≤ _ := hs.inside
  have htstop : t.stop ≤ _ := ht.inside
  show (s.through t).stop ≤ _
  rw [Span.through_stop]
  exact Nat.max_le.2 ⟨htstop, hsstop⟩

theorem CompileError.ReportedAt.inText {e : CompileError} {place : List Char × Piece}
    (h : e.ReportedAt source place) : e.span.InText source := by
  refine ⟨?_, h.line⟩
  rw [h.len]
  exact h.inside

theorem Token.ReadFrom.stop_eq {t : Token} {place : List Char × Piece}
    (h : t.ReadFrom source place) :
    t.span.stop = byteLength place.1 + byteLength place.2.text := by
  rw [Span.stop, h.offset, h.covers.len_eq, h.piece, Piece.text]

end

namespace Cutting

/-- Each piece begins where the ones before it end, or later. -/
theorem pairwise_stop_withBefore (before : List Char) (pieces : List Piece) :
    (withBefore before pieces).Pairwise fun place place' =>
      byteLength place.1 + byteLength place.2.text ≤ byteLength place'.1 := by
  induction pieces generalizing before with
  | nil => exact .nil
  | cons piece pieces ih =>
    refine .cons (fun place hplace => ?_) (ih _)
    have hle := offset_le_of_mem_withBefore hplace
    rwa [byteLength_append] at hle

/-- Tokens that were read from pieces stand as the pieces do. -/
theorem ordered_of_readFrom {source : String} {tokens : List Token}
    {places : List (List Char × Piece)}
    (h : List.Forall₂ (Token.ReadFrom source) tokens places)
    (hplaces : places.Pairwise fun place place' =>
      byteLength place.1 + byteLength place.2.text ≤ byteLength place'.1) :
    Ordered tokens := by
  induction h with
  | nil => exact .nil
  | @cons t place tokens places hfirst hothers ih =>
    obtain ⟨hbehind, hplaces⟩ := List.pairwise_cons.1 hplaces
    refine .cons (fun t' ht' => ?_) (ih hplaces)
    obtain ⟨place', hplace', hread⟩ : ∃ place' ∈ places, Token.ReadFrom source t' place' := by
      obtain ⟨i, hi, rfl⟩ := List.mem_iff_getElem.1 ht'
      exact ⟨_, List.get_mem _ _, hothers.get hi (hothers.length_eq ▸ hi)⟩
    rw [hfirst.stop_eq, hread.offset]
    exact hbehind place' hplace'

end Cutting

section

variable {source : String}

/-- The tokens of a text stand in it, one behind the other. -/
theorem inText_of_scan {tokens : List Token} (h : scan source = .ok tokens) :
    Ordered tokens ∧ ∀ t ∈ tokens, t.span.InText source := by
  obtain ⟨c, -, -, -, -, hanswers⟩ := scan_lossless source
  rw [h] at hanswers
  cases hanswers with
  | @tokens ts stop _ htokens _ _ _ hspan hoffset _ =>
    have hall : ∀ t ∈ ts, t.span.InText source := fun t ht => by
      obtain ⟨i, hi, rfl⟩ := List.mem_iff_getElem.1 ht
      exact (htokens.get hi (htokens.length_eq ▸ hi)).covers.inText
    have hplaces := (Cutting.pairwise_stop_withBefore c.skipped c.pieces).filter
      fun place => place.2.isToken
    constructor
    · refine List.pairwise_append.2 ⟨Cutting.ordered_of_readFrom htokens hplaces,
        List.pairwise_singleton _ _, fun t ht t' ht' => ?_⟩
      rw [List.mem_singleton.1 ht', hoffset]
      exact (hall t ht).inside
    · intro t ht
      rcases List.mem_append.1 ht with ht | ht
      · exact hall t ht
      · rw [List.mem_singleton.1 ht]
        exact hspan.inText

/-- Every token of a text but the end token has a text of its own. -/
theorem len_pos_of_scan {tokens : List Token} (h : scan source = .ok tokens) {t : Token}
    (ht : t ∈ tokens) (hkind : t.kind ≠ .eof) : 0 < t.span.len := by
  obtain ⟨c, hcut, -, -, -, hanswers⟩ := scan_lossless source
  rw [h] at hanswers
  cases hanswers with
  | @tokens ts stop _ htokens hstop _ _ _ _ _ =>
    rcases List.mem_append.1 ht with ht | ht
    · obtain ⟨i, hi, rfl⟩ := List.mem_iff_getElem.1 ht
      have hplace := htokens.length_eq ▸ hi
      have hread := htokens.get hi hplace
      have hpiece := Cutting.mem_of_mem_placed (List.mem_of_mem_filter (List.getElem_mem hplace))
      have hne := hcut.splits.text_ne_nil _ hpiece
      rw [List.get_eq_getElem, List.get_eq_getElem] at hread
      rw [hread.piece, Piece.text] at hne
      rw [hread.covers.len_eq]
      exact byteLength_pos hne
    · rw [List.mem_singleton.1 ht] at hkind
      exact absurd hstop hkind

/-- The errors of the scan stand in the text. -/
theorem inText_of_scan_error {errors : List CompileError} (h : scan source = .error errors) :
    ∀ e ∈ errors, e.span.InText source := by
  obtain ⟨c, -, -, -, -, hanswers⟩ := scan_lossless source
  rw [h] at hanswers
  cases hanswers with
  | errors _ herrors _ =>
    intro e he
    obtain ⟨i, hi, rfl⟩ := List.mem_iff_getElem.1 he
    exact (herrors.get hi (herrors.length_eq ▸ hi)).inText

theorem closed_of_scan {tokens : List Token} (h : scan source = .ok tokens) : Closed tokens := by
  obtain ⟨ts, last, htokens, hlast, -⟩ := endsOnce_of_scan h
  exact ⟨ts, last, htokens, hlast⟩

end

end Lox
