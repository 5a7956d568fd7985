import Lox.Proofs.Token.Joining
import Lox.Proofs.Token.Words

/-!
# Layout

White space and comments between the tokens of a text do nothing but keep them apart.  The
texts of the tokens of a source may therefore stand behind one another with other white
space and other comments between them: the scan finds the same tokens again, at other
places (`scan_spaced`).

**One token.** A token that fits somewhere fits at the end of a text, and so it fits in
front of a blank character, whatever follows that one (`Piece.Fits.token_joined`).  Layout
is cut into blank pieces and comments, neither of which is a token.
-/

namespace Lox

/-! ## Spaced words -/

/-- White space and comments, each comment with the line feed that ends it. -/
inductive Layout : List Char → Prop
  | nil : Layout []
  | blank {c : Char} {rest : List Char} (hc : Piece.isBlank c) (hrest : Layout rest) :
      Layout (c :: rest)
  | comment {line rest : List Char} (hline : '\n' ∉ line) (hrest : Layout rest) :
      Layout ('/' :: '/' :: (line ++ '\n' :: rest))

/-- Layout that begins with a blank character keeps words apart. -/
structure Separates (gap : String) : Prop where
  /-- There is nothing but white space and comments. -/
  layout : Layout gap.toList
  /-- The first character is blank. -/
  begins : ∃ c ∈ gap.toList.head?, Piece.isBlank c

/-- The text is made of the words, in order, with separators between them. -/
inductive Spaced : List String → String → Prop
  | nil : Spaced [] ""
  | one (word : String) : Spaced [word] word
  | cons {word gap next text : String} {words : List String} (hgap : Separates gap)
      (hrest : Spaced (next :: words) text) :
      Spaced (word :: next :: words) (word ++ gap ++ text)

/-! ## Layout in front of a text -/

/-- Layout in front of a text adds neither tokens nor bad pieces. -/
theorem Layout.splits_append {gap text : List Char} {pieces : List Piece} (hgap : Layout gap)
    (h : Piece.Splits pieces text) :
    ∃ pieces', Piece.Splits pieces' (gap ++ text) ∧
      pieces'.filter Piece.isMark = pieces.filter Piece.isMark := by
  induction hgap with
  | nil => exact ⟨pieces, h, rfl⟩
  | @blank c rest hc _ ih =>
    obtain ⟨behind, hbehind, hmarks⟩ := ih
    have hfirst : ∀ d ∈ [c], Piece.isBlank d := by simpa using hc
    obtain ⟨whole, hwhole, hmarks'⟩ := hbehind.blank_append hfirst
    exact ⟨whole, hwhole, hmarks'.trans hmarks⟩
  | @comment line rest hline _ ih =>
    obtain ⟨behind, hbehind, hmarks⟩ := ih
    have hfeed : ∀ c ∈ ['\n'], Piece.isBlank c := by
      intro c hc
      rw [List.mem_singleton.1 hc]
      rfl
    obtain ⟨behind', hbehind', hmarks'⟩ := hbehind.blank_append hfeed
    have hfits : (Piece.comment ('/' :: '/' :: line)).Fits ('\n' :: (rest ++ text)) :=
      ⟨⟨line, rfl, hline⟩, by simp⟩
    have hsplits := Piece.Splits.cons hfits hbehind'
    exact ⟨.comment ('/' :: '/' :: line) :: behind', by simpa [Piece.text] using hsplits,
      hmarks'.trans hmarks⟩

namespace Piece

theorem Splits.exists_fits {pieces : List Piece} {text : List Char} (h : Splits pieces text)
    {piece : Piece} (hpiece : piece ∈ pieces) : ∃ rest, piece.Fits rest := by
  induction h with
  | nil => simp at hpiece
  | cons hfits _ ih =>
    rcases List.mem_cons.1 hpiece with rfl | hpiece
    · exact ⟨_, hfits⟩
    · exact ih hpiece

/-- A token that fits in front of some text fits at the end as well. -/
theorem Fits.token_last {kind : Token.Kind} {lexeme rest : List Char} {literal : Option Literal}
    (h : (token kind lexeme literal).Fits rest) : (token kind lexeme literal).Fits [] := by
  obtain ⟨hlexeme, -, hcomment⟩ := h
  refine ⟨hlexeme, ?_, ?_⟩
  · intro kind' other literal' _ hstarts
    simpa using hstarts.length_le
  · intro hstarts
    rw [List.append_nil] at hstarts
    exact hcomment (hstarts.trans (List.prefix_append ..))

/-- A hash where a piece should begin is bad. -/
theorem Splits.exists_isBad_of_hash {pieces : List Piece} {rest : List Char}
    (h : Splits pieces ('#' :: rest)) : ∃ piece ∈ pieces, piece.isBad := by
  generalize htext : '#' :: rest = text at h
  cases h with
  | nil => cases htext
  | @cons piece pieces _ hfits _ =>
    have hbegins := hfits.begins htext.symm
    cases piece with
    | blank _ => cases hbegins
    | comment _ => cases (List.cons_prefix_cons.1 hbegins.2).1
    | token _ lexeme _ =>
      have hstarts : lexeme <+: '#' :: rest := htext ▸ List.prefix_append ..
      obtain ⟨-, ⟨_, -, hkind⟩ | ⟨-, hkind⟩⟩ :=
        hfits.1.of_other (by decide) (by decide) (by decide) hstarts
      · cases hkind
      · cases hkind
    | stray c => exact ⟨.stray c, List.mem_cons_self .., rfl⟩
    | openString _ => cases hbegins.1

end Piece

/-! ## Tokens with layout between them -/

/-- The piece that the token was cut as. -/
def Token.piece (t : Token) : Piece := .token t.kind t.lexeme.toList t.literal

theorem Token.word?_piece (t : Token) : t.piece.word? = some t.word := by
  simp [Token.piece, Token.word, Piece.word?]

/-- Every token of a text fits at the end of one. -/
theorem Cutting.IsOf.fits_last {source : String} {c : Cutting} (h : c.IsOf source) {t : Token}
    (ht : t ∈ c.tokens) : t.piece.Fits [] := by
  obtain ⟨⟨before, piece⟩, hplace, htoken⟩ := List.mem_filterMap.1 ht
  have hpiece := (readFrom_of_token? (h.exists_after _ hplace) htoken).piece
  obtain ⟨rest, hfits⟩ := h.splits.exists_fits (Cutting.mem_of_mem_placed hplace)
  exact Piece.Fits.token_last (hpiece ▸ hfits)

/-- Tokens with separators between them are the marks of the text that they make up. -/
theorem Spaced.splits {words : List String} {text : String} (h : Spaced words text)
    {tokens : List Token} (hwords : tokens.map Token.lexeme = words)
    (hfits : ∀ t ∈ tokens, t.piece.Fits []) :
    ∃ pieces, Piece.Splits pieces text.toList ∧
      pieces.filter Piece.isMark = tokens.map Token.piece := by
  induction h generalizing tokens with
  | nil =>
    obtain rfl := List.map_eq_nil_iff.1 hwords
    exact ⟨[], .nil, rfl⟩
  | one word =>
    obtain ⟨t, rfl, rfl⟩ := List.map_eq_singleton_iff.1 hwords
    have hsplits := Piece.Splits.cons (hfits t (List.mem_singleton_self t)) .nil
    exact ⟨[t.piece], by simpa [Token.piece, Piece.text] using hsplits, rfl⟩
  | @cons word gap next text words hgap _ ih =>
    obtain ⟨t, others, rfl, rfl, hothers⟩ := List.map_eq_cons_iff.1 hwords
    obtain ⟨pieces, hpieces, hmarks⟩ :=
      ih hothers fun t ht => hfits t (List.mem_cons_of_mem _ ht)
    obtain ⟨behind, hbehind, hmarks'⟩ := hgap.layout.splits_append hpieces
    obtain ⟨c, hc, hblank⟩ := hgap.begins
    obtain ⟨gap', hgap'⟩ := List.head?_eq_some_iff.1 hc
    have hfirst : t.piece.Fits (gap.toList ++ text.toList) := by
      rw [hgap']
      exact (hfits t (List.mem_cons_self ..)).token_joined hblank (gap' ++ text.toList)
    have hsplits := Piece.Splits.cons hfirst hbehind
    refine ⟨t.piece :: behind, by simpa [Token.piece, Piece.text] using hsplits, ?_⟩
    rw [List.map_cons, ← hmarks, ← hmarks']
    rfl

/-- If the marks are tokens, there are no bad pieces. -/
theorem not_isBad_of_marks {pieces : List Piece} {tokens : List Token}
    (hmarks : pieces.filter Piece.isMark = tokens.map Token.piece) :
    ∀ piece ∈ pieces, ¬ piece.isBad := by
  intro piece hpiece hbad
  have hmark : piece ∈ pieces.filter Piece.isMark :=
    List.mem_filter.2 ⟨hpiece, by simp [Piece.isMark, hbad]⟩
  rw [hmarks] at hmark
  obtain ⟨t, -, rfl⟩ := List.mem_map.1 hmark
  cases hbad

/-- A text whose marks are tokens is scanned as these tokens and an end token. -/
theorem scan_of_splits {text : String} {pieces : List Piece} {tokens : List Token}
    (h : Piece.Splits pieces text.toList)
    (hmarks : pieces.filter Piece.isMark = tokens.map Token.piece) :
    ∃ whole, scan text = .ok whole ∧ whole.map Token.word = tokens.map Token.word ++
      [(.eof, "", none)] := by
  have hgood := not_isBad_of_marks hmarks
  have hfirst : ¬ ['#', '!'] <+: text.toList := by
    rintro ⟨rest, hrest⟩
    rw [← hrest] at h
    obtain ⟨piece, hpiece, hbad⟩ := h.exists_isBad_of_hash
    exact hgood piece hpiece hbad
  have hcut : (⟨[], pieces⟩ : Cutting).IsOf text := by
    have htext := h.textOf_eq
    exact ⟨htext.symm ▸ .none hfirst, htext.symm ▸ h⟩
  have hwords : pieces.filterMap Piece.word? = tokens.map Token.word := by
    rw [Cutting.filterMap_word?, hmarks, List.filterMap_map, ← List.filterMap_eq_map]
    exact List.filterMap_congr fun t _ => t.word?_piece
  refine ⟨_, hcut.scan_eq_ok.2 ⟨hgood, rfl⟩, ?_⟩
  rw [List.map_append, Cutting.map_word_tokens, hwords]
  rfl

/-- The tokens of a source, with any separators between their texts, are scanned again as the
same tokens at other places. -/
theorem scan_spaced {source text : String} {tokens : List Token} (h : scan source = .ok tokens)
    (htext : Spaced ((tokens.filter fun t => t.kind ≠ .eof).map Token.lexeme) text) :
    ∃ tokens', scan text = .ok tokens' ∧ tokens'.map Token.word = tokens.map Token.word := by
  have hcut := Cutting.isOf_ofSource source
  obtain ⟨ts, last, htokens, hlast, hts⟩ := endsOnce_of_scan h
  obtain ⟨-, hcutTokens⟩ := hcut.scan_eq_ok.1 h
  obtain ⟨rfl, hend⟩ := List.append_inj' (htokens.symm.trans hcutTokens) rfl
  have hwords : tokens.filter (fun t => t.kind ≠ .eof) =
      (Cutting.ofSource source.toList).tokens := by
    rw [htokens, List.filter_append, List.filter_eq_self.2 fun t ht => by simpa using hts t ht]
    simp [hlast]
  rw [hwords] at htext
  obtain ⟨pieces, hpieces, hmarks⟩ := htext.splits rfl fun t ht => hcut.fits_last ht
  obtain ⟨whole, hwhole, hwholeWords⟩ := scan_of_splits hpieces hmarks
  refine ⟨whole, hwhole, hwholeWords.trans ?_⟩
  rw [hcutTokens, List.map_append]
  rfl

/-- A number in front of a point, a slash in front of a comment, and a string with slashes and
a quote in it. -/
theorem scan_spaced_comments :
    let source := "1.a/\"//\\\"\""
    let text := "1 .\ta //half\n/\r//of\n\"//\\\"\""
    ∃ tokens tokens', scan source = .ok tokens ∧
      Spaced ((tokens.filter fun t => t.kind ≠ .eof).map Token.lexeme) text ∧
      scan text = .ok tokens' ∧ tokens'.map Token.word = tokens.map Token.word := by
  intro source text
  let words : Except (List CompileError) (List Token) → List String
    | .ok tokens => (tokens.filter fun t => t.kind ≠ .eof).map Token.lexeme
    | .error _ => []
  have hwords : words (scan source) = ["1", ".", "a", "/", "\"//\\\"\""] := by decide +kernel
  obtain ⟨tokens, htokens⟩ : ∃ tokens, scan source = .ok tokens := by
    cases hscan : scan source with
    | ok tokens => exact ⟨tokens, rfl⟩
    | error errors =>
      rw [hscan] at hwords
      cases hwords
  rw [htokens] at hwords
  have separates (c : Char) (rest : List Char) (hc : Piece.isBlank c) (hrest : Layout rest) :
      Separates (String.ofList (c :: rest)) := by
    constructor
    · rw [String.toList_ofList]
      exact .blank hc hrest
    · rw [String.toList_ofList]
      exact ⟨c, rfl, hc⟩
  have half : Separates " //half\n" :=
    separates ' ' ('/' :: '/' :: (['h', 'a', 'l', 'f'] ++ ['\n'])) rfl (.comment (by decide) .nil)
  have of : Separates "\r//of\n" :=
    separates '\r' ('/' :: '/' :: (['o', 'f'] ++ ['\n'])) rfl (.comment (by decide) .nil)
  have hspaced : Spaced ["1", ".", "a", "/", "\"//\\\"\""]
      ("1" ++ " " ++ ("." ++ "\t" ++ ("a" ++ " //half\n" ++ ("/" ++ "\r//of\n" ++ _)))) :=
    .cons (separates ' ' [] rfl .nil) (.cons (separates '\t' [] rfl .nil)
      (.cons half (.cons of (.one _))))
  have htext : Spaced (words (.ok tokens)) text := by
    rw [hwords]
    exact hspaced
  obtain ⟨tokens', htokens', hsame⟩ := scan_spaced htokens htext
  exact ⟨tokens, tokens', htokens, htext, htokens', hsame⟩

end Lox
