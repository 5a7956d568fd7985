import Lox.Proofs.Token.Lossless
import Lox.Proofs.Token.Words

/-!
# Texts behind one another

A line feed between two texts keeps their pieces apart.  Stretches of white space may grow
together, but tokens and bad pieces of the whole text are those of the first text and then
those of the second one, raised by the bytes and the lines before them.  So the scan of the
whole text is made of the two scans (`scan_line_break`).

**Longest match.** Apart from strings, no lexeme reaches over a blank character, and a
string ends at its first closing quote.  What is a longest match in the first text therefore
stays one if more text follows behind a blank character.
-/

namespace Lox

/-! ## Lexemes in front of a blank character -/

/-- A lexeme without the character in it stands in front of the next one. -/
theorem starts_of_starts_joined {lexeme text more : List Char} {stop : Char}
    (hstop : stop ∉ lexeme) (h : lexeme <+: text ++ stop :: more) : lexeme <+: text := by
  rcases List.prefix_or_prefix_of_prefix h (List.prefix_append text (stop :: more)) with h' | h'
  · exact h'
  · obtain ⟨others, rfl⟩ := h'
    rw [List.prefix_append_right_inj] at h
    cases others with
    | nil => rw [List.append_nil]
    | cons c others =>
      obtain ⟨rfl, -⟩ := List.cons_prefix_cons.1 h
      simp at hstop

/-- A lexeme that is no string has no blank character in it. -/
theorem Lexeme.blank_not_mem {kind : Token.Kind} {lexeme : List Char}
    {literal : Option Literal} {stop : Char} (h : Lexeme kind lexeme literal)
    (hquote : lexeme.head? ≠ some '"') (hstop : Piece.isBlank stop) : stop ∉ lexeme := by
  have not_digits {digits : List Char} (hdigits : ∀ d ∈ digits, d.isDigit) : stop ∉ digits :=
    fun hmem => by simp [not_isBlank_of_isDigit (hdigits _ hmem)] at hstop
  have not_part {c : Char} (hc : Piece.isBlank c = false) : stop ≠ c := by
    rintro rfl
    simp [hc] at hstop
  cases h with
  | string => exact absurd rfl hquote
  | whole _ hdigits => exact not_digits hdigits
  | fraction _ hdigits _ hdigits' =>
    have hpoint : stop ≠ '.' := not_part rfl
    simp [not_digits hdigits, not_digits hdigits', hpoint]
  | word hfirst hothers =>
    rw [List.mem_cons, not_or]
    exact ⟨not_part (not_isBlank_of_isAlpha hfirst),
      fun hmem => by simp [not_isBlank_of_isWordPart (hothers _ hmem)] at hstop⟩
  | @pair c d _ hkind =>
    have hd : stop ≠ d := by
      rintro rfl
      unfold Piece.pairKind? at hkind
      split at hkind <;> first | exact absurd hstop (by decide) | cases hkind
    simp [not_part (isPunctuation_of_pairKind? hkind).blank, hd]
  | single hkind => simpa using not_part (isPunctuation_of_singleKind? hkind).blank

section

variable {kind : Token.Kind} {lexeme text rest more : List Char} {literal : Option Literal}
  {c stop : Char}

/-- A lexeme at a character that is no quote stands in front of the next blank character. -/
theorem Lexeme.starts_of_starts_joined (h : Lexeme kind lexeme literal) (hc : c ≠ '"')
    (hstop : Piece.isBlank stop) (hstarts : lexeme <+: c :: text ++ stop :: more) :
    lexeme <+: c :: text := by
  refine Lox.starts_of_starts_joined (h.blank_not_mem ?_ hstop) hstarts
  cases lexeme with
  | nil => simp
  | cons d others =>
    obtain ⟨rfl, -⟩ := List.cons_prefix_cons.1 hstarts
    simpa using hc

theorem startsNoLexeme_joined (hc : c ≠ '"') (hstop : Piece.isBlank stop)
    (h : StartsNoLexeme (c :: text)) (more : List Char) :
    StartsNoLexeme (c :: text ++ stop :: more) :=
  fun kind lexeme literal hlexeme hstarts =>
    h kind lexeme literal hlexeme (hlexeme.starts_of_starts_joined hc hstop hstarts)

/-- A longest match stays one behind a blank character. -/
theorem IsLongest.joined (hlexeme : Lexeme kind lexeme literal)
    (h : IsLongest lexeme (lexeme ++ rest)) (hstop : Piece.isBlank stop) (more : List Char) :
    IsLongest lexeme (lexeme ++ rest ++ stop :: more) := by
  intro kind' other literal' hother hstarts
  obtain ⟨c, others, rfl⟩ := List.exists_cons_of_ne_nil hlexeme.ne_nil
  by_cases hc : c = '"'
  · -- both are strings, and both end at the first closing quote
    subst hc
    obtain ⟨raw, value, hraw, -, heq, -⟩ := hlexeme.of_quote List.prefix_rfl
    rw [List.append_assoc, List.cons_append] at hstarts
    obtain ⟨raw', value', hraw', -, rfl, -⟩ := hother.of_quote hstarts
    obtain ⟨after, hafter⟩ := (List.cons_prefix_cons.1 hstarts).2
    rw [(List.cons.inj heq).2] at hafter ⊢
    have htext : raw' ++ '"' :: after = raw ++ '"' :: (rest ++ stop :: more) := by
      simpa using hafter
    rw [(hraw'.unique hraw htext).1]
  · exact h kind' other literal' hother (hother.starts_of_starts_joined hc hstop hstarts)

end

namespace Piece

/-- The piece is a token, a stray character or an open string. -/
def isMark (piece : Piece) : Bool := piece.isToken || piece.isBad

/-! ## Pieces in front of a line feed -/

/-- A token fits as before if more text follows behind a blank character. -/
theorem Fits.token_joined {kind : Token.Kind} {lexeme rest : List Char}
    {literal : Option Literal} {stop : Char} (h : (token kind lexeme literal).Fits rest)
    (hstop : isBlank stop) (more : List Char) :
    (token kind lexeme literal).Fits (rest ++ stop :: more) := by
  obtain ⟨hlexeme, hlongest, hcomment⟩ := h
  have hslash : stop ∉ ['/', '/'] := by
    rintro hmem
    simp only [List.mem_cons, List.not_mem_nil, or_false, or_self] at hmem
    subst hmem
    cases hstop
  rw [Fits, ← List.append_assoc]
  exact ⟨hlexeme, hlongest.joined hlexeme hstop more,
    fun hstarts => hcomment (starts_of_starts_joined hslash hstarts)⟩

/-- A piece fits as before if more text follows behind a line feed, unless it is blank or an
open string. -/
theorem Fits.joined {piece : Piece} {rest : List Char} (h : piece.Fits rest)
    (hblank : ∀ text, piece ≠ .blank text) (hopen : ∀ text, piece ≠ .openString text)
    (more : List Char) : piece.Fits (rest ++ '\n' :: more) := by
  cases piece with
  | blank text => exact absurd rfl (hblank text)
  | openString text => exact absurd rfl (hopen text)
  | comment text =>
    obtain ⟨hline, hhead⟩ := h
    refine ⟨hline, ?_⟩
    cases rest with
    | nil => simp
    | cons c rest => exact hhead
  | token kind text literal => exact h.token_joined rfl more
  | stray c =>
    obtain ⟨hc, hquote, hnone⟩ := h
    exact ⟨hc, hquote, startsNoLexeme_joined hquote rfl hnone more⟩

/-- Only a blank piece begins with a blank character. -/
theorem Fits.isBlank_of_ne {piece : Piece} {rest text : List Char} {c : Char}
    (h : piece.Fits rest) (htext : piece.text ++ rest = c :: text)
    (hblank : ∀ text, piece ≠ .blank text) : isBlank c = false := by
  have hbegins := h.begins htext
  cases piece with
  | blank text => exact absurd rfl (hblank text)
  | comment _ => exact hbegins.1
  | token _ _ _ => exact hbegins.1
  | stray _ => exact hbegins.1
  | openString _ =>
    rw [hbegins.1]
    rfl

/-- The tokens and bad pieces among pieces, each with the text before it. -/
def marks (before : List Char) (pieces : List Piece) : List (List Char × Piece) :=
  (Cutting.withBefore before pieces).filter fun place => place.2.isMark

theorem marks_cons (before : List Char) (piece : Piece) (pieces : List Piece) :
    marks before (piece :: pieces) =
      if piece.isMark then (before, piece) :: marks (before ++ piece.text) pieces
      else marks (before ++ piece.text) pieces :=
  List.filter_cons

theorem map_snd_marks (before : List Char) (pieces : List Piece) :
    (marks before pieces).map Prod.snd = pieces.filter isMark := by
  induction pieces generalizing before with
  | nil => rfl
  | cons piece pieces ih =>
    rw [marks_cons, List.filter_cons]
    split
    · rw [List.map_cons, ih]
    · exact ih _

/-- More text in front stands in front of every mark. -/
theorem marks_append (front before : List Char) (pieces : List Piece) :
    marks (front ++ before) pieces =
      (marks before pieces).map fun place => (front ++ place.1, place.2) := by
  induction pieces generalizing before with
  | nil => rfl
  | cons piece pieces ih =>
    rw [marks_cons, marks_cons, List.append_assoc, ih]
    split <;> rfl

namespace Splits

variable {pieces pieces' : List Piece} {text text' : List Char}

/-- White space in front of a text grows together with a blank piece there, and moves no
mark. -/
theorem marks_blank_append {blanks : List Char} (h : Splits pieces text)
    (hblanks : ∀ c ∈ blanks, isBlank c) :
    ∃ pieces', Splits pieces' (blanks ++ text) ∧
      ∀ before, marks before pieces' = marks (before ++ blanks) pieces := by
  cases blanks with
  | nil => exact ⟨pieces, h, fun before => by rw [List.append_nil]⟩
  | cons b blanks =>
    cases h with
    | nil =>
      exact ⟨[.blank (b :: blanks)], .cons ⟨by simp, hblanks, by simp⟩ .nil, fun _ => rfl⟩
    | @cons piece pieces rest hfits hrest =>
      by_cases hblank : ∃ text, piece = .blank text
      · obtain ⟨text, rfl⟩ := hblank
        obtain ⟨-, hall, hstop⟩ := hfits
        have hfits : (Piece.blank (b :: blanks ++ text)).Fits rest := by
          refine ⟨by simp, fun c hc => ?_, hstop⟩
          rcases List.mem_append.1 hc with hc | hc
          · exact hblanks c hc
          · exact hall c hc
        have hsplits := Splits.cons hfits hrest
        rw [show (Piece.blank (b :: blanks ++ text)).text = b :: blanks ++ text from rfl,
          List.append_assoc] at hsplits
        refine ⟨_, hsplits, fun before => ?_⟩
        rw [marks_cons, marks_cons, List.append_assoc]
        rfl
      · have hstop : ∀ c ∈ (piece.text ++ rest).head?, isBlank c = false := by
          intro c hc
          obtain ⟨others, heq⟩ := List.head?_eq_some_iff.1 hc
          exact hfits.isBlank_of_ne heq fun text htext => hblank ⟨text, htext⟩
        have hfirst : (Piece.blank (b :: blanks)).Fits (piece.text ++ rest) :=
          ⟨by simp, hblanks, hstop⟩
        exact ⟨_, .cons hfirst (.cons hfits hrest), fun _ => rfl⟩

/-- White space in front of a text adds neither tokens nor bad pieces. -/
theorem blank_append {blanks : List Char} (h : Splits pieces text)
    (hblanks : ∀ c ∈ blanks, isBlank c) :
    ∃ pieces', Splits pieces' (blanks ++ text) ∧
      pieces'.filter isMark = pieces.filter isMark := by
  obtain ⟨pieces', hsplits, hmarks⟩ := h.marks_blank_append hblanks
  refine ⟨pieces', hsplits, ?_⟩
  rw [← map_snd_marks [], hmarks, map_snd_marks]

/-- Behind a line feed, the marks of a second text follow those of the first one. -/
theorem joined (h : Splits pieces text) (h' : Splits pieces' text')
    (hopen : ∀ raw, .openString raw ∉ pieces) :
    ∃ whole, Splits whole (text ++ '\n' :: text') ∧
      ∀ before, marks before whole =
        marks before pieces ++ marks (before ++ text ++ ['\n']) pieces' := by
  induction h with
  | nil =>
    have hline : ∀ c ∈ ['\n'], isBlank c := by
      intro c hc
      rw [List.mem_singleton.1 hc]
      rfl
    obtain ⟨whole, hwhole, hmarks⟩ := h'.marks_blank_append hline
    refine ⟨whole, hwhole, fun before => ?_⟩
    rw [hmarks, List.append_nil]
    rfl
  | @cons piece pieces rest hfits _ ih =>
    obtain ⟨whole, hwhole, hmarks⟩ := ih fun raw hmem => hopen raw (List.mem_cons_of_mem _ hmem)
    simp only [List.append_assoc]
    by_cases hblank : ∃ text, piece = .blank text
    · obtain ⟨blanks, rfl⟩ := hblank
      obtain ⟨whole', hwhole', hmarks'⟩ := hwhole.marks_blank_append hfits.2.1
      refine ⟨whole', hwhole', fun before => ?_⟩
      rw [hmarks', hmarks, marks_cons]
      simp [isMark, isToken, isBad, Piece.text]
    · have hjoined := hfits.joined (fun text htext => hblank ⟨text, htext⟩)
        (fun raw hraw => hopen raw (hraw ▸ List.mem_cons_self ..)) text'
      refine ⟨piece :: whole, .cons hjoined hwhole, fun before => ?_⟩
      rw [marks_cons, marks_cons, hmarks]
      split <;> simp

end Splits

end Piece

/-! ## Tokens -/

/-- A token apart from its place. -/
def Token.word (t : Token) : Token.Kind × String × Option Literal :=
  (t.kind, t.lexeme, t.literal)

/-- The token that the piece is, apart from its place. -/
def Piece.word? : Piece → Option (Token.Kind × String × Option Literal)
  | .token kind text literal => some (kind, String.ofList text, literal)
  | _ => none

namespace Cutting

variable {source source' : String} {c c' : Cutting}

theorem map_word_tokens (c : Cutting) :
    c.tokens.map Token.word = c.pieces.filterMap Piece.word? := by
  have hword (place : List Char × Piece) :
      (place.2.token? (Position.start.after place.1)).map Token.word = place.2.word? := by
    cases place.2 <;> rfl
  rw [tokens, List.map_filterMap, ← map_snd_withBefore c.skipped c.pieces, List.filterMap_map]
  exact List.filterMap_congr fun place _ => hword place

/-- A source without bad pieces has the tokens of its pieces, and an end token. -/
theorem IsOf.scan_eq_ok (h : c.IsOf source) {tokens : List Token} :
    scan source = .ok tokens ↔ (∀ piece ∈ c.pieces, ¬ piece.isBad) ∧
      tokens = c.tokens ++ [Token.endAt (Position.start.after source.toList)] := by
  rw [h.unique (isOf_ofSource source), scan_eq]
  have hbad := exists_isBad_iff (c := ofSource source.toList)
  constructor
  · intro hscan
    split at hscan
    · next hnone =>
      cases hscan
      exact ⟨fun piece hpiece hpieceBad => hbad.1 ⟨piece, hpiece, hpieceBad⟩ hnone, rfl⟩
    · cases hscan
  · rintro ⟨hgood, rfl⟩
    have hnone : (ofSource source.toList).errors = [] := by
      by_contra hsome
      obtain ⟨piece, hpiece, hpieceBad⟩ := hbad.2 hsome
      exact hgood piece hpiece hpieceBad
    rw [hnone]

end Cutting

theorem Cutting.filterMap_word? (pieces : List Piece) :
    pieces.filterMap Piece.word? = (pieces.filter Piece.isMark).filterMap Piece.word? := by
  rw [List.filterMap_filter]
  exact List.filterMap_congr fun piece _ => by cases piece <;> rfl

/-! ## Raised places -/

/-- The place with more bytes and lines before it. -/
def Position.raise (bytes lines : Nat) (p : Position) : Position :=
  ⟨p.offset + bytes, p.line + lines⟩

/-- The stretch with more bytes and lines before it. -/
def Span.raise (bytes lines : Nat) (s : Span) : Span :=
  ⟨s.offset + bytes, s.len, s.line + lines⟩

/-- The token with more bytes and lines before it. -/
def Token.raise (bytes lines : Nat) (t : Token) : Token :=
  { t with span := t.span.raise bytes lines }

/-- The error with more bytes and lines before its place. -/
def CompileError.raise (bytes lines : Nat) : CompileError → CompileError
  | .scan fault place => .scan fault (place.raise bytes lines)
  | .parse fault token => .parse fault (token.raise bytes lines)
  | .resolve fault span => .resolve fault (span.raise bytes lines)

/-- A place behind a text and a line feed is raised by both. -/
theorem Position.after_line_feed (text behind : List Char) :
    Position.start.after (text ++ '\n' :: behind) =
      (Position.start.after behind).raise (byteLength text + 1) (text.count '\n' + 1) := by
  have hsize : '\n'.utf8Size = 1 := rfl
  simp only [after, raise, start, byteLength_append, byteLength_cons, hsize, List.count_append,
    List.count_cons_self]
  congr 1 <;> omega

section

variable (bytes lines : Nat) (p : Position) (piece : Piece)

theorem Piece.token?_raise :
    piece.token? (p.raise bytes lines) = (piece.token? p).map (Token.raise bytes lines) := by
  cases piece <;> rfl

theorem Token.endAt_raise :
    Token.endAt (p.raise bytes lines) = (Token.endAt p).raise bytes lines := rfl

theorem Piece.error?_raise :
    piece.error? (p.raise bytes lines) =
      (piece.error? p).map (CompileError.raise bytes lines) := by
  cases piece <;> rfl

end

/-! ## Cuttings behind one another -/

/-- A skipped first line stays one if more text follows behind a line feed, which may be the
end of that line. -/
theorem Skips.joined {source skipped text : List Char} (h : Skips source skipped text)
    (more : List Char) :
    Skips (source ++ '\n' :: more) skipped (text ++ '\n' :: more) ∨
      text = [] ∧ Skips (source ++ '\n' :: more) (source ++ ['\n']) more := by
  cases h with
  | none h => exact .inl (.none fun hstarts => h (starts_of_starts_joined (by decide) hstarts))
  | @line line text hline =>
    have hskips : Skips _ _ (text ++ '\n' :: more) := .line hline
    exact .inl (by simpa using hskips)
  | @last line hline => exact .inr ⟨rfl, .line hline⟩

namespace Cutting

variable {source source' : String} {c c' : Cutting}

/-- The tokens and bad pieces of the cutting, each with the part of the source before it. -/
def marks (c : Cutting) : List (List Char × Piece) := Piece.marks c.skipped c.pieces

theorem tokens_eq_marks (c : Cutting) :
    c.tokens = c.marks.filterMap fun place => place.2.token? (Position.start.after place.1) := by
  rw [tokens, marks, Piece.marks, List.filterMap_filter]
  exact List.filterMap_congr fun place _ => by cases place.2 <;> rfl

theorem errors_eq_marks (c : Cutting) :
    c.errors = c.marks.filterMap fun place => place.2.error? (Position.start.after place.1) := by
  rw [errors, marks, Piece.marks, List.filterMap_filter]
  exact List.filterMap_congr fun place _ => by cases place.2 <;> rfl

/-- A source that does not start with a skipped line is all cut into pieces. -/
theorem IsOf.of_not_skipped (h : c.IsOf source) (hfirst : ¬ ['#', '!'] <+: source.toList) :
    c.skipped = [] ∧ Piece.textOf c.pieces = source.toList := by
  have heq := (Skips.none hfirst).splitShebang_eq.symm.trans h.skips.splitShebang_eq
  exact ⟨(Prod.mk.inj heq).1.symm, (Prod.mk.inj heq).2.symm⟩

/-- The cutting of two texts with a line feed between them has the marks of both. -/
theorem IsOf.joined (h : c.IsOf source) (h' : c'.IsOf source')
    (hopen : ∀ raw, .openString raw ∉ c.pieces) (hfirst : ¬ ['#', '!'] <+: source'.toList) :
    ∃ whole : Cutting, whole.IsOf (source ++ "\n" ++ source') ∧
      whole.marks = c.marks ++
        c'.marks.map fun place => (source.toList ++ '\n' :: place.1, place.2) := by
  have hsource : (source ++ "\n" ++ source').toList = source.toList ++ '\n' :: source'.toList := by
    simp
  obtain ⟨hskipped', htext'⟩ := h'.of_not_skipped hfirst
  have hmarks' : c'.marks.map (fun place => (source.toList ++ '\n' :: place.1, place.2)) =
      Piece.marks (source.toList ++ ['\n']) c'.pieces := by
    rw [← List.append_nil (source.toList ++ ['\n']), Piece.marks_append, marks, hskipped']
    simp
  have of_splits {skipped : List Char} {pieces : List Piece} {text : List Char}
      (hskips : Skips (source.toList ++ '\n' :: source'.toList) skipped text)
      (hsplits : Piece.Splits pieces text) :
      (⟨skipped, pieces⟩ : Cutting).IsOf (source ++ "\n" ++ source') := by
    obtain rfl := hsplits.textOf_eq
    exact ⟨hsource ▸ hskips, hsplits⟩
  rw [hmarks']
  rcases h.skips.joined source'.toList with hskips | ⟨hnil, hskips⟩
  · obtain ⟨pieces, hpieces, hmarks⟩ := h.splits.joined (htext' ▸ h'.splits) hopen
    refine ⟨⟨c.skipped, pieces⟩, of_splits hskips hpieces, ?_⟩
    rw [marks, hmarks, h.text_eq]
    rfl
  · have hnone : c.pieces = [] := (hnil ▸ h.splits).unique .nil
    refine ⟨⟨source.toList ++ ['\n'], c'.pieces⟩, of_splits hskips (htext' ▸ h'.splits), ?_⟩
    rw [marks, marks, hnone]
    rfl

/-- Two texts with a line feed between them have the tokens and errors of both, those of the
second one raised by what stands before it. -/
theorem IsOf.answers_joined (h : c.IsOf source) (h' : c'.IsOf source')
    (hopen : ∀ raw, .openString raw ∉ c.pieces) (hfirst : ¬ ['#', '!'] <+: source'.toList) :
    ∃ whole : Cutting, whole.IsOf (source ++ "\n" ++ source') ∧
      whole.tokens = c.tokens ++ c'.tokens.map
        (Token.raise (byteLength source.toList + 1) (source.toList.count '\n' + 1)) ∧
      whole.errors = c.errors ++ c'.errors.map
        (CompileError.raise (byteLength source.toList + 1) (source.toList.count '\n' + 1)) := by
  obtain ⟨whole, hwhole, hmarks⟩ := h.joined h' hopen hfirst
  refine ⟨whole, hwhole, ?_, ?_⟩
  · rw [tokens_eq_marks, hmarks, List.filterMap_append, List.filterMap_map, tokens_eq_marks,
      tokens_eq_marks, List.map_filterMap]
    simp only [Function.comp_def, Position.after_line_feed, Piece.token?_raise]
  · rw [errors_eq_marks, hmarks, List.filterMap_append, List.filterMap_map, errors_eq_marks,
      errors_eq_marks, List.map_filterMap]
    simp only [Function.comp_def, Position.after_line_feed, Piece.error?_raise]

end Cutting

/-! ## Scans behind one another -/

/-- The errors of an answer. -/
def errorsOf {α : Type} : Except (List CompileError) α → List CompileError
  | .ok _ => []
  | .error errors => errors

namespace Cutting

variable {source : String} {c : Cutting}

/-- A source without bad pieces has the tokens of its pieces. -/
theorem IsOf.scan_of_nil (h : c.IsOf source) (herrors : c.errors = []) :
    scan source = .ok (c.tokens ++ [Token.endAt (Position.start.after source.toList)]) := by
  rw [h.unique (isOf_ofSource source)] at herrors ⊢
  rw [scan_eq, herrors]

/-- A source with bad pieces has the errors of these. -/
theorem IsOf.scan_of_ne_nil (h : c.IsOf source) (herrors : c.errors ≠ []) :
    scan source = .error c.errors := by
  rw [h.unique (isOf_ofSource source)] at herrors ⊢
  rw [scan_eq]
  split
  · next hnone => exact absurd hnone herrors
  · rfl

theorem IsOf.errorsOf_scan (h : c.IsOf source) : errorsOf (scan source) = c.errors := by
  by_cases herrors : c.errors = []
  · rw [h.scan_of_nil herrors, herrors, errorsOf]
  · rw [h.scan_of_ne_nil herrors, errorsOf]

/-- An open string is reported. -/
theorem exists_error_of_openString {raw : List Char} (h : .openString raw ∈ c.pieces) :
    ∃ e ∈ c.errors, e.message = "unterminated string" := by
  rw [← map_snd_withBefore c.skipped c.pieces] at h
  obtain ⟨⟨before, piece⟩, hplace, rfl⟩ := List.mem_map.1 h
  exact ⟨_, List.mem_filterMap.2 ⟨_, hplace, rfl⟩, rfl⟩

end Cutting

/-- Two sources without errors, with a line feed between them, have the tokens of both, the
second one's at other places. -/
theorem scan_joined {source source' : String} {tokens tokens' : List Token}
    (h : scan source = .ok tokens) (h' : scan source' = .ok tokens')
    (hfirst : ¬ ['#', '!'] <+: source'.toList) :
    ∃ whole, scan (source ++ "\n" ++ source') = .ok whole ∧
      whole.map Token.word = (tokens.dropLast ++ tokens').map Token.word := by
  have hcut := Cutting.isOf_ofSource source
  have hcut' := Cutting.isOf_ofSource source'
  obtain ⟨hgood, rfl⟩ := hcut.scan_eq_ok.1 h
  obtain ⟨-, rfl⟩ := hcut'.scan_eq_ok.1 h'
  obtain ⟨whole, hwhole, htokens, herrors⟩ :=
    hcut.answers_joined hcut' (fun raw hraw => hgood _ hraw rfl) hfirst
  rw [← hcut.errorsOf_scan, ← hcut'.errorsOf_scan, h, h'] at herrors
  refine ⟨_, hwhole.scan_of_nil herrors, ?_⟩
  rw [htokens, List.dropLast_concat, List.append_assoc, List.map_append, List.map_append,
    List.map_append, List.map_append, List.map_map]
  rfl

/-- The tokens of a source apart from the end token are those of its pieces. -/
theorem Cutting.IsOf.filter_ne_eof {source : String} {c : Cutting} {tokens : List Token}
    (h : c.IsOf source) (hscan : scan source = .ok tokens) :
    tokens.filter (fun t => t.kind ≠ .eof) = c.tokens := by
  obtain ⟨-, hcut⟩ := h.scan_eq_ok.1 hscan
  obtain ⟨ts, last, htokens, hlast, hts⟩ := endsOnce_of_scan hscan
  obtain ⟨rfl, -⟩ := List.append_inj' (htokens.symm.trans hcut) rfl
  rw [htokens, List.filter_append, List.filter_eq_self.2 fun t ht => by simpa using hts t ht]
  simp [hlast]

/-- A line feed keeps two texts apart, unless a string is open there or the second text has a
first line to be skipped.  The scan of the whole text has the tokens of both, or the errors
of both, and those of the second text are raised by the bytes and lines before it. -/
theorem scan_line_break {source source' : String}
    (hclosed : ∀ e ∈ errorsOf (scan source), e.message ≠ "unterminated string")
    (hfirst : ¬ ['#', '!'] <+: source'.toList) :
    let bytes := (sourceBytes source).length + 1
    let lines := source.toList.count '\n' + 1
    scan (source ++ "\n" ++ source') =
      match scan source, scan source' with
      | .ok tokens, .ok tokens' =>
        .ok (tokens.filter (fun t => t.kind ≠ .eof) ++ tokens'.map (Token.raise bytes lines))
      | answer, answer' =>
        .error (errorsOf answer ++ (errorsOf answer').map (CompileError.raise bytes lines)) := by
  intro bytes lines
  have hcut := Cutting.isOf_ofSource source
  have hcut' := Cutting.isOf_ofSource source'
  have hopen (raw : List Char) : .openString raw ∉ (Cutting.ofSource source.toList).pieces := by
    intro hraw
    obtain ⟨e, he, hmessage⟩ := Cutting.exists_error_of_openString hraw
    exact hclosed e (hcut.errorsOf_scan ▸ he) hmessage
  obtain ⟨whole, hwhole, htokens, herrors⟩ := hcut.answers_joined hcut' hopen hfirst
  rw [← length_sourceBytes] at htokens herrors
  by_cases hgood : (Cutting.ofSource source.toList).errors = []
  · have hscan := hcut.scan_of_nil hgood
    rw [hgood, List.nil_append] at herrors
    by_cases hgood' : (Cutting.ofSource source'.toList).errors = []
    · rw [hgood', List.map_nil] at herrors
      rw [hwhole.scan_of_nil herrors, htokens, hcut'.scan_of_nil hgood', hscan]
      dsimp only
      have hsource : (source ++ "\n" ++ source').toList =
          source.toList ++ '\n' :: source'.toList := by simp
      rw [hcut.filter_ne_eof hscan, List.map_append, List.append_assoc, hsource,
        Position.after_line_feed, ← length_sourceBytes, Token.endAt_raise]
      rfl
    · rw [hwhole.scan_of_ne_nil (by simpa [herrors] using hgood'), hscan,
        hcut'.scan_of_ne_nil hgood', herrors]
      rfl
  · rw [hwhole.scan_of_ne_nil (by simp [herrors, hgood]), hcut.scan_of_ne_nil hgood, herrors,
      ← hcut'.errorsOf_scan]
    rfl

/-- A skipped line, a string over two lines, a stray character of three bytes, and slashes on
both sides of the line feed. -/
theorem scan_line_break_errors :
    let source := "#!é\n\"é\n\" € /"
    let source' := "/ x\n@ \"y"
    (∀ e ∈ errorsOf (scan source), e.message ≠ "unterminated string") ∧
      ¬ ['#', '!'] <+: source'.toList ∧
      (errorsOf (scan (source ++ "\n" ++ source'))).map (fun e => (e.message, e.span)) =
        [("unexpected character '€'", ⟨11, 1, 3⟩), ("unexpected character '@'", ⟨17 + 4, 1, 3 + 2⟩),
          ("unterminated string", ⟨17 + 6, 1, 3 + 2⟩)] := by
  intro source source'
  have hclosed : ∀ e ∈ errorsOf (scan source), e.message ≠ "unterminated string" := by
    decide +kernel
  have hfirst : ¬ ['#', '!'] <+: source'.toList := by decide
  refine ⟨hclosed, hfirst, ?_⟩
  rw [scan_line_break hclosed hfirst]
  decide +kernel

end Lox
