import Lox.Proofs.Echo.Lines

/-!
# Ends of lines

The last piece of a line without surrounding white space is its last token, or a comment
(`Scanned.last_piece`).  A semicolon behind a text is one more token, unless a comment or an open
string takes it (`Piece.Splits.closed`).
-/

namespace Lox

open Piece

variable {kind : Token.Kind} {lexeme text rest line : List Char} {literal : Option Literal}
  {pieces : List Piece} {tokens : List Token}

/-- No lexeme takes a semicolon behind a text. -/
theorem Lexeme.of_prefix_semicolon (h : Lexeme kind lexeme literal)
    (hstarts : lexeme <+: text ++ [';']) (hne : text ≠ []) : lexeme <+: text := by
  rcases List.prefix_concat_iff.1 hstarts with hwhole | hpart
  · have hlast : lexeme.getLast? = some ';' := by simp [hwhole]
    have hkind := (h.getLast?_eq_iff Echo.closes_semicolon).1 hlast
    obtain ⟨hlexeme, -⟩ := h.eq_of_singleKind? (c := ';') (by rw [hkind]; rfl)
    rw [hwhole] at hlexeme
    exact absurd (List.append_eq_singleton_iff.1 hlexeme) (by simpa using hne)
  · exact hpart

/-! ## A semicolon behind a text -/

namespace Piece

/-- Comments and open strings go on to the end of a line. -/
def takesLine : Piece → Bool
  | comment _ | openString _ => true
  | _ => false

/-- The pieces of a text with a semicolon behind it. -/
def closed (pieces : List Piece) : List Piece :=
  match pieces.getLast? with
  | some (comment text) => pieces.dropLast ++ [comment (text ++ [';'])]
  | some (openString text) => pieces.dropLast ++ [openString (text ++ [';'])]
  | _ => pieces ++ [token .semicolon [';'] none]

theorem closed_comment (front : List Piece) (text : List Char) :
    closed (front ++ [comment text]) = front ++ [comment (text ++ [';'])] := by
  simp [closed]

theorem closed_cons (piece next : Piece) (pieces : List Piece) :
    closed (piece :: next :: pieces) = piece :: closed (next :: pieces) := by
  simp only [closed, List.getLast?_cons_cons]
  split <;> rfl

theorem fits_semicolon : (token .semicolon [';'] none).Fits [] :=
  ⟨.single rfl, fun _ _ _ _ hstarts => by simpa using hstarts.length_le, by decide⟩

/-- A piece that does not go on stays as it is in front of a semicolon. -/
theorem Fits.append_semicolon {piece : Piece} (h : piece.Fits rest)
    (hrest : rest = [] → piece.takesLine = false) : piece.Fits (rest ++ [';']) := by
  have hhead {p : Char → Prop} (hall : ∀ c ∈ rest.head?, p c) (hsemicolon : rest = [] → p ';') :
      ∀ c ∈ (rest ++ [';']).head?, p c := by
    cases rest with
    | nil => simpa using hsemicolon rfl
    | cons c rest => exact hall
  cases piece with
  | blank text => exact ⟨h.1, h.2.1, hhead h.2.2 fun _ => rfl⟩
  | comment text => exact ⟨h.1, hhead h.2 fun hnil => by cases hrest hnil⟩
  | token kind text literal =>
    obtain ⟨hlexeme, hlongest, hcomment⟩ := h
    have hne : text ++ rest ≠ [] := by simp [hlexeme.ne_nil]
    rw [Fits, ← List.append_assoc]
    refine ⟨hlexeme, fun _ _ _ hother hstarts => ?_, fun hstarts => ?_⟩
    · exact hlongest _ _ _ hother (hother.of_prefix_semicolon hstarts hne)
    · -- no comment begins with a semicolon as its second character
      rcases List.prefix_concat_iff.1 hstarts with hwhole | hpart
      · exact absurd (congrArg List.getLast? hwhole) (by simp)
      · exact hcomment hpart
  | stray c =>
    refine ⟨h.1, h.2.1, fun _ _ _ hother hstarts => ?_⟩
    exact h.2.2 _ _ _ hother (hother.of_prefix_semicolon hstarts (by simp))
  | openString text => cases hrest h.2.1

/-- With a semicolon behind it, a text has one more token, unless its last piece goes on. -/
theorem Splits.closed (h : Splits pieces text) : Splits (closed pieces) (text ++ [';']) := by
  induction h with
  | nil => exact .cons fits_semicolon .nil
  | @cons piece pieces rest hfits hrest ih =>
    cases pieces with
    | cons next pieces =>
      rw [closed_cons, List.append_assoc]
      refine .cons (hfits.append_semicolon fun hnil => ?_) ih
      rw [hnil] at hrest
      cases hrest.unique .nil
    | nil =>
      cases hrest
      rw [List.append_nil]
      by_cases hline : piece.takesLine
      · cases piece with
        | comment text =>
          obtain ⟨⟨others, rfl, hothers⟩, -⟩ := hfits
          have hlonger : (comment ('/' :: '/' :: others ++ [';'])).Fits [] :=
            ⟨⟨others ++ [';'], rfl, by simp [hothers]⟩, by simp⟩
          simpa [Piece.closed, Piece.text] using Splits.cons hlonger .nil
        | openString text =>
          obtain ⟨hquote, -, hnone⟩ := hfits
          have hne : text ≠ [] := by
            rintro rfl
            cases hquote
          have hlonger : (openString (text ++ [';'])).Fits [] :=
            ⟨by simp [List.head?_append, hquote], rfl, fun _ _ _ hother hstarts =>
              hnone _ _ _ hother (hother.of_prefix_semicolon hstarts hne)⟩
          simpa [Piece.closed, Piece.text] using Splits.cons hlonger .nil
        | _ => cases hline
      · have hsplits := Splits.cons (hfits.append_semicolon fun _ => by simpa using hline)
          (.cons fits_semicolon .nil)
        cases piece <;> first | exact hsplits | exact absurd rfl hline

end Piece

namespace Scanned

/-- The semicolon behind a line without comments is a token. -/
theorem of_append_semicolon (h : Scanned (line ++ [';']) pieces tokens)
    (hcomments : ∀ text, .comment text ∉ ofText line) :
    ∃ others semicolon, tokens = others ++ [semicolon] ∧ semicolon.kind = .semicolon ∧
      Scanned line (ofText line) others := by
  have hsplits := splits_ofText line
  have hgood := h.not_isBad
  obtain ⟨hwhole, hmarks⟩ := h
  rw [hwhole.unique hsplits.closed] at hgood hmarks
  unfold closed at hgood hmarks
  split at hmarks
  · next text hlast => exact absurd (List.mem_of_getLast? hlast) (hcomments text)
  · next text hlast =>
    rw [hlast] at hgood
    exact absurd rfl (hgood (.openString (text ++ [';'])) (by simp))
  · rw [List.filter_append] at hmarks
    obtain ⟨others, last, rfl, hothers, hlast⟩ := List.append_eq_map_iff.1 hmarks
    obtain ⟨semicolon, rfl, hpiece⟩ := List.map_eq_singleton_iff.1 hlast
    exact ⟨others, semicolon, rfl, (Piece.token.inj hpiece).1, hsplits, hothers.symm⟩

/-- A comment at the end takes the semicolon. -/
theorem append_semicolon {front : List Piece} (h : Scanned line (front ++ [.comment text]) tokens) :
    Scanned (line ++ [';']) (front ++ [.comment (text ++ [';'])]) tokens := by
  obtain ⟨hsplits, hmarks⟩ := h
  refine ⟨closed_comment front text ▸ hsplits.closed, ?_⟩
  rw [← hmarks]
  simp [isMark, isToken, isBad]

/-! ## The last piece -/

/-- A line without white space at its end ends in a comment or in its last token, which is a
semicolon or a closing brace if the last character is. -/
theorem last_piece (h : Scanned line pieces tokens) (hne : line ≠ [])
    (hend : ∀ c ∈ line.getLast?, isBlank c = false) :
    (∃ front text, pieces = front ++ [.comment text]) ∨
      ∃ others last, tokens = others ++ [last] ∧ ∀ c kind, Echo.closes c kind = true →
        (line.getLast? = some c ↔ last.kind = kind) := by
  have hgood := h.not_isBad
  obtain ⟨hsplits, hmarks⟩ := h
  rcases List.eq_nil_or_concat pieces with rfl | ⟨front, piece, rfl⟩
  · cases hsplits
    exact absurd rfl hne
  · rw [List.concat_eq_append] at hsplits hmarks hgood ⊢
    have hmem : piece ∈ front ++ [piece] := by simp
    obtain ⟨rest, hfits⟩ := hsplits.exists_fits hmem
    have hlast : line.getLast? = piece.text.getLast? := by
      rw [← hsplits.textOf_eq, textOf, List.flatMap_append, List.flatMap_singleton,
        List.getLast?_append_of_ne_nil _ hfits.text_ne_nil]
    rw [List.filter_append] at hmarks
    cases piece with
    | comment text => exact .inl ⟨front, text, rfl⟩
    | blank text =>
      exfalso
      obtain ⟨hne', hall, -⟩ := hfits
      have hblank := hend _ (hlast.trans (List.getLast?_eq_some_getLast hne'))
      rw [hall _ (List.getLast_mem hne')] at hblank
      cases hblank
    | token kind lexeme literal =>
      obtain ⟨others, last, rfl, -, htoken⟩ := List.append_eq_map_iff.1 hmarks
      obtain ⟨last, rfl, hpiece⟩ := List.map_eq_singleton_iff.1 htoken
      cases hpiece
      refine .inr ⟨others, last, rfl, fun c kind hc => ?_⟩
      rw [hlast]
      exact hfits.1.getLast?_eq_iff hc
    | stray _ | openString _ => exact absurd rfl (hgood _ hmem)

end Scanned

end Lox
