import Lox.Echo
import Lox.Text
import Lox.Proofs.Token.Layout

/-!
# Lines and their tokens

The echo looks at the first word and at the last character of a line.  The first word is an
opening one exactly if the first token is a keyword with which a statement begins, or one without
a use (`Scanned.openingWord_iff`).  With the word `print` in front of it, a line has the same
tokens behind one more (`Scanned.printed`).

**Single lines.** A comment takes the rest of a line, so that the first token of a line without
surrounding white space stands at its beginning.
-/

namespace Lox

open Piece

/-! ## White space around a line -/

theorem isWhiteSpace_of_isBlank {c : Char} (h : isBlank c) : isWhiteSpace c = true := by
  simp only [isBlank, Bool.or_eq_true, decide_eq_true_eq] at h
  rcases h with ((rfl | rfl) | rfl) | rfl <;> decide

/-- A line without surrounding white space begins and ends with other characters. -/
theorem not_isBlank_of_trim {line : List Char} (h : trim line = line) :
    (∀ c ∈ line.head?, isBlank c = false) ∧ ∀ c ∈ line.getLast?, isBlank c = false := by
  have hplain {c : Char} (hc : isWhiteSpace c = false) : isBlank c = false := by
    by_contra hblank
    rw [isWhiteSpace_of_isBlank (by simpa using hblank)] at hc
    cases hc
  rw [trim] at h
  have hfront : line <+: line.dropWhile isWhiteSpace := by
    have hback := List.dropWhile_suffix isWhiteSpace (l := (line.dropWhile isWhiteSpace).reverse)
    rw [← List.reverse_prefix, List.reverse_reverse, h] at hback
    exact hback
  constructor
  · intro c hc
    obtain ⟨others, rfl⟩ := List.head?_eq_some_iff.1 hc
    obtain ⟨rest, hrest⟩ := hfront
    have hhead : c ∈ ((c :: others).dropWhile isWhiteSpace).head? := by
      rw [← hrest]
      rfl
    exact hplain (not_of_head?_dropWhile hhead)
  · intro c hc
    rw [← h, List.getLast?_reverse] at hc
    exact hplain (not_of_head?_dropWhile hc)

/-! ## Scanned lines -/

/-- The pieces of a text without bad ones, and the tokens among them. -/
structure Scanned (text : List Char) (pieces : List Piece) (tokens : List Token) : Prop where
  /-- The pieces make up the text. -/
  splits : Splits pieces text
  /-- Those that are neither blank nor comments are the tokens. -/
  marks : pieces.filter isMark = tokens.map Token.piece

theorem Cutting.map_piece_tokens (c : Cutting) :
    c.tokens.map Token.piece = c.pieces.filter isToken := by
  have hpiece (place : List Char × Piece) :
      (place.2.token? (Position.start.after place.1)).map Token.piece =
        Option.guard isToken place.2 := by
    cases place.2 <;> simp [Piece.token?, Token.piece, isToken, Option.guard]
  rw [tokens, List.map_filterMap, ← List.filterMap_eq_filter,
    ← map_snd_withBefore c.skipped c.pieces, List.filterMap_map]
  exact List.filterMap_congr fun place _ => hpiece place

/-- A single line is skipped, or it is made up of pieces with its tokens among them. -/
theorem exists_scanned {line : List Char} {tokens : List Token} (hsingle : '\n' ∉ line)
    (hscan : scan (String.ofList line) = .ok tokens) :
    ∃ ts stop, tokens = ts ++ [stop] ∧ stop.kind = .eof ∧
      (ts = [] ∧ ['#', '!'] <+: line ∨ ∃ pieces, Scanned line pieces ts) := by
  have hcut := Cutting.isOf_ofSource (String.ofList line)
  obtain ⟨hgood, htokens⟩ := hcut.scan_eq_ok.1 hscan
  refine ⟨_, _, htokens, rfl, ?_⟩
  have hskips := hcut.skips
  have hsplits := hcut.splits
  have hmarks : (Cutting.ofSource (String.ofList line).toList).pieces.filter isMark =
      (Cutting.ofSource (String.ofList line).toList).tokens.map Token.piece := by
    rw [Cutting.map_piece_tokens]
    refine List.filter_congr fun piece hpiece => ?_
    simp [isMark, hgood piece hpiece]
  generalize Cutting.ofSource (String.ofList line).toList = c at hskips hsplits hmarks ⊢
  generalize htext : textOf c.pieces = text at hskips hsplits
  rw [String.toList_ofList] at hskips
  generalize c.skipped = skipped at hskips
  cases hskips with
  | none _ => exact .inr ⟨c.pieces, hsplits, hmarks⟩
  | line _ => simp at hsingle
  | last _ =>
    rw [hsplits.unique .nil] at hmarks
    exact .inl ⟨List.map_eq_nil_iff.1 hmarks.symm, by simp⟩

namespace Scanned

variable {line : List Char} {pieces : List Piece} {tokens : List Token} {first : Token}

theorem not_isBad (h : Scanned line pieces tokens) : ∀ piece ∈ pieces, ¬ piece.isBad :=
  not_isBad_of_marks h.marks

/-- The same tokens are scanned again, wherever they stand. -/
theorem scans (h : Scanned line pieces tokens) :
    ∃ words, scan (String.ofList line) = .ok words ∧
      words.map Token.word = tokens.map Token.word ++ [(.eof, "", none)] :=
  scan_of_splits (by rw [String.toList_ofList]; exact h.splits) h.marks

/-! ## The first token -/

/-- The first token of a single line stands at its beginning. -/
theorem eq_append (h : Scanned line pieces (first :: tokens)) (hsingle : '\n' ∉ line)
    (hstart : ∀ c ∈ line.head?, isBlank c = false) :
    ∃ rest, line = first.lexeme.toList ++ rest ∧ first.piece.Fits rest := by
  obtain ⟨hsplits, hmarks⟩ := h
  cases hsplits with
  | nil => simp at hmarks
  | @cons piece pieces rest hfits hrest =>
    by_cases hmark : piece.isMark
    · rw [List.filter_cons_of_pos hmark, List.map_cons] at hmarks
      obtain rfl := (List.cons.inj hmarks).1
      exact ⟨rest, rfl, hfits⟩
    · exfalso
      cases piece with
      | blank text =>
        obtain ⟨hne, hall, -⟩ := hfits
        obtain ⟨c, others, rfl⟩ := List.exists_cons_of_ne_nil hne
        have hblank := hstart c rfl
        rw [hall c (.head _)] at hblank
        cases hblank
      | comment text =>
        -- the comment takes the whole line
        have hnil : rest = [] := by
          cases rest with
          | nil => rfl
          | cons c rest =>
            rw [hfits.2 c rfl] at hsingle
            simp at hsingle
        subst hnil
        rw [hrest.unique .nil, List.filter_cons_of_neg hmark] at hmarks
        simp at hmarks
      | token _ _ _ => simp [isMark, isToken] at hmark
      | stray _ => simp [isMark, isBad] at hmark
      | openString _ => simp [isMark, isBad] at hmark

end Scanned

/-- The keywords with which a declaration or statement begins. -/
def Echo.startsStatement : Token.Kind → Bool
  | .class | .fun | .var | .for | .if | .while | .print | .return => true
  | _ => false

/-- The kinds of the opening words. -/
def Echo.isOpening : Token.Kind → Bool
  | .let | .const => true
  | kind => startsStatement kind

theorem Echo.isOpening_of_startsStatement {kind : Token.Kind} (h : startsStatement kind = true) :
    isOpening kind = true := by
  cases kind <;> first | rfl | cases h

/-- A keyword begins with a letter. -/
theorem Lexeme.isAlpha_of_keyword {kind : Token.Kind} {c : Char} {others : List Char}
    {literal : Option Literal} (h : Lexeme kind (c :: others) literal)
    (hkind : Echo.isOpening kind = true) : c.isAlpha := by
  generalize hlexeme : c :: others = lexeme at h
  cases h with
  | word hfirst _ => exact (List.cons.inj hlexeme).1 ▸ hfirst
  | pair hpair =>
    unfold pairKind? at hpair
    split at hpair <;> cases hpair <;> cases hkind
  | single hsingle =>
    unfold singleKind? at hsingle
    split at hsingle <;> cases hsingle <;> cases hkind
  | _ => cases hkind

/-- Only one lexeme is of the kind of a single character. -/
theorem Lexeme.eq_of_singleKind? {kind : Token.Kind} {lexeme : List Char}
    {literal : Option Literal} {c : Char} (h : Lexeme kind lexeme literal)
    (hc : singleKind? c = some kind) : lexeme = [c] ∧ literal = none := by
  cases h with
  | word =>
    unfold Token.Kind.ofWord Token.Kind.keyword? at hc
    unfold singleKind? at hc
    split at hc <;> split at hc <;> cases hc
  | pair hpair =>
    unfold singleKind? at hc
    unfold pairKind? at hpair
    split at hpair <;> cases hpair <;> split at hc <;> cases hc
  | single hsingle =>
    unfold singleKind? at hc hsingle
    split at hsingle <;> cases hsingle <;> split at hc <;> cases hc <;> exact ⟨rfl, rfl⟩
  | _ =>
    unfold singleKind? at hc
    split at hc <;> cases hc

/-- A token that begins with a letter is the word at its place. -/
theorem Piece.Fits.takeWhile_eq {kind : Token.Kind} {c : Char} {others rest : List Char}
    {literal : Option Literal} (h : (token kind (c :: others) literal).Fits rest)
    (hc : c.isAlpha) :
    (c :: others ++ rest).takeWhile isWordPart = c :: others ∧
      kind = .ofWord (String.ofList (c :: others)) := by
  obtain ⟨hlexeme, hlongest, -⟩ := h
  obtain ⟨hparts, hkind, -⟩ := hlexeme.of_alpha hc List.prefix_rfl
  have hword := List.takeWhile_prefix isWordPart (l := c :: others ++ rest)
  have hle := length_le_takeWhile hparts (List.prefix_append (c :: others) rest)
  have hge : ((c :: others ++ rest).takeWhile isWordPart).length ≤ (c :: others).length := by
    have hfirst : isWordPart c = true := by simp [isWordPart, hc]
    rw [List.cons_append, List.takeWhile_cons_of_pos hfirst] at hword ⊢
    exact hlongest _ _ _ (.word hc fun d hd => of_mem_takeWhile hd) hword
  have hsame := List.prefix_of_prefix_length_le hword (List.prefix_append (c :: others) rest) hge
  exact ⟨hsame.eq_of_length (Nat.le_antisymm hge hle), hkind⟩

namespace Echo

theorem isWordPart_eq : isWordPart = Piece.isWordPart := rfl

theorem openingWord_iff (word : String) :
    openingWords.contains word = true ↔ isOpening (.ofWord word) = true := by
  unfold Token.Kind.ofWord Token.Kind.keyword?
  split
  case h_20 => simp_all [openingWords, isOpening, startsStatement]
  all_goals decide

end Echo

namespace Scanned

variable {line : List Char} {pieces : List Piece} {tokens : List Token} {first : Token}

/-- The line begins with an opening word exactly if the first token is one. -/
theorem openingWord_iff (h : Scanned line pieces (first :: tokens)) (hsingle : '\n' ∉ line)
    (hstart : ∀ c ∈ line.head?, isBlank c = false) :
    Echo.openingWords.contains (Echo.firstWord line) = true ↔
      Echo.isOpening first.kind = true := by
  obtain ⟨rest, rfl, hfits⟩ := h.eq_append hsingle hstart
  rw [Token.piece] at hfits
  obtain ⟨c, others, hcons⟩ := List.exists_cons_of_ne_nil hfits.1.ne_nil
  rw [hcons] at hfits ⊢
  rw [Echo.firstWord, Echo.isWordPart_eq]
  by_cases halpha : c.isAlpha
  · obtain ⟨hword, hkind⟩ := hfits.takeWhile_eq halpha
    rw [hword, hkind]
    exact Echo.openingWord_iff _
  · -- neither an opening word nor a keyword begins with another character
    constructor
    · intro hopening
      have hword : ∀ word ∈ Echo.openingWords, word.toList.head?.any Char.isAlpha := by decide
      have hhead := hword _ (List.contains_iff_mem.1 hopening)
      rw [String.toList_ofList, List.cons_append, List.takeWhile_cons] at hhead
      split at hhead
      · exact absurd hhead halpha
      · cases hhead
    · intro hkind
      exact absurd (hfits.1.isAlpha_of_keyword hkind) halpha

/-- The line begins with a brace exactly if the first token is one. -/
theorem leftBrace_iff (h : Scanned line pieces (first :: tokens)) (hsingle : '\n' ∉ line)
    (hstart : ∀ c ∈ line.head?, isBlank c = false) :
    line.head? = some '\x7b' ↔ first.kind = .leftBrace := by
  obtain ⟨rest, rfl, hlexeme, -⟩ := h.eq_append hsingle hstart
  rw [List.head?_append_of_ne_nil _ hlexeme.ne_nil]
  constructor
  · intro hhead
    obtain ⟨others, hothers⟩ := List.head?_eq_some_iff.1 hhead
    rw [hothers] at hlexeme
    obtain ⟨-, ⟨_, -, hkind⟩ | ⟨-, hkind⟩⟩ :=
      hlexeme.of_other (by decide) (by decide) (by decide) List.prefix_rfl
    · cases hkind
    · exact (Option.some.inj hkind).symm
  · intro hkind
    have hbrace : singleKind? '\x7b' = some first.kind := by rw [hkind]; rfl
    rw [(hlexeme.eq_of_singleKind? hbrace).1]
    rfl

/-- The line is taken for an expression if neither its ends nor an equals sign speak against. -/
theorem isBareExpression_iff (h : Scanned line pieces (first :: tokens)) (hsingle : '\n' ∉ line)
    (hstart : ∀ c ∈ line.head?, isBlank c = false) :
    Echo.isBareExpression line = true ↔ line.getLast? ≠ some '\x7d' ∧
      Echo.isOpening first.kind = false ∧ first.kind ≠ .leftBrace ∧
        Echo.isAssignment line = false := by
  rw [Echo.isBareExpression]
  simp only [Bool.and_eq_true, Bool.not_eq_true', ← Bool.not_eq_true, decide_eq_true_eq,
    h.openingWord_iff hsingle hstart, ne_eq, h.leftBrace_iff hsingle hstart, and_assoc]

end Scanned

/-! ## The last token -/

/-- A semicolon or a closing brace. -/
def Echo.closes : Char → Token.Kind → Bool
  | ';', .semicolon => true
  | '\x7d', .rightBrace => true
  | _, _ => false

theorem Echo.closes_semicolon : closes ';' .semicolon = true := rfl

theorem Echo.closes_rightBrace : closes '\x7d' .rightBrace = true := rfl

/-- Semicolons and closing braces end no other token. -/
theorem Lexeme.getLast?_eq_iff {kind kind' : Token.Kind} {c : Char} {lexeme : List Char}
    {literal : Option Literal} (h : Lexeme kind lexeme literal)
    (hc : Echo.closes c kind' = true) : lexeme.getLast? = some c ↔ kind = kind' := by
  have hplain : isWordPart c = false ∧ c ≠ '"' := by
    unfold Echo.closes at hc
    split at hc <;> first | decide | cases hc
  have hkinds : kind' = .semicolon ∨ kind' = .rightBrace := by
    unfold Echo.closes at hc
    split at hc <;> first | decide | cases hc
  have of_parts (front : List Char) {text : List Char} (hne : text ≠ [])
      (hparts : ∀ d ∈ text, isWordPart d) : (front ++ text).getLast? ≠ some c := by
    intro hlast
    rw [List.getLast?_append_of_ne_nil _ hne] at hlast
    have hpart := hparts c (List.mem_of_getLast? hlast)
    rw [hplain.1] at hpart
    cases hpart
  have of_digit {d : Char} (hd : d.isDigit) : isWordPart d := by simp [isWordPart, hd]
  cases h with
  | string =>
    refine iff_of_false ?_ ?_
    · simpa [List.getLast?_cons] using hplain.2.symm
    · rcases hkinds with rfl | rfl <;> decide
  | whole hne hdigits =>
    refine iff_of_false ?_ ?_
    · exact of_parts [] hne fun d hd => of_digit (hdigits d hd)
    · rcases hkinds with rfl | rfl <;> decide
  | fraction _ _ hne hdigits =>
    refine iff_of_false ?_ ?_
    · rw [List.append_cons]
      exact of_parts _ hne fun d hd => of_digit (hdigits d hd)
    · rcases hkinds with rfl | rfl <;> decide
  | @word first others hfirst hothers =>
    refine iff_of_false ?_ ?_
    · refine of_parts [] (by simp) fun d hd => ?_
      rcases List.mem_cons.1 hd with rfl | hd
      · simp [isWordPart, hfirst]
      · exact hothers d hd
    · unfold Token.Kind.ofWord Token.Kind.keyword?
      rcases hkinds with rfl | rfl <;> split <;> decide
  | pair hpair =>
    unfold pairKind? at hpair
    unfold Echo.closes at hc
    split at hc <;> split at hpair <;> cases hpair <;> first | decide | cases hc
  | single hsingle =>
    unfold singleKind? at hsingle
    unfold Echo.closes at hc
    split at hc <;> split at hsingle <;> cases hsingle <;> first | decide | cases hc

/-! ## Printing -/

/-- The word that is put in front of a line. -/
def Token.printWord : Token := ⟨.print, "print", none, .blank⟩

theorem fits_printWord : Token.printWord.piece.Fits [] := by
  have hprint : "print".toList = 'p' :: ['r', 'i', 'n', 't'] := rfl
  rw [Token.piece, Fits]
  refine ⟨?_, fun _ _ _ _ hstarts => by simpa using hstarts.length_le, ?_⟩
  · rw [show Token.printWord.lexeme.toList = _ from hprint]
    have hothers : ∀ c ∈ ['r', 'i', 'n', 't'], isWordPart c := by simp [isWordPart]
    have hfirst : 'p'.isAlpha := rfl
    exact Lexeme.word hfirst hothers
  · rintro ⟨rest, hrest⟩
    cases (List.cons.inj hrest).1

/-- With the word in front of it, a text has the same tokens and bad pieces behind one more. -/
theorem Piece.Splits.printed {text : List Char} {pieces : List Piece} (h : Splits pieces text) :
    ∃ behind, Splits (Token.printWord.piece :: behind) ("print ".toList ++ text) ∧
      behind.filter isMark = pieces.filter isMark := by
  have hspace : ∀ c ∈ [' '], isBlank c := by
    intro c hc
    rw [List.mem_singleton.1 hc]
    rfl
  obtain ⟨behind, hbehind, hmarks⟩ := h.blank_append hspace
  exact ⟨behind, .cons (fits_printWord.token_joined rfl text) hbehind, hmarks⟩

/-- With the word in front of it, a text has the same tokens behind one more. -/
theorem Scanned.printed {text : List Char} {pieces : List Piece} {tokens : List Token}
    (h : Scanned text pieces tokens) :
    ∃ pieces', Scanned ("print ".toList ++ text) pieces' (.printWord :: tokens) := by
  obtain ⟨behind, hsplits, hmarks⟩ := h.splits.printed
  refine ⟨_, hsplits, ?_⟩
  rw [List.filter_cons_of_pos rfl, hmarks, h.marks, List.map_cons]

end Lox
