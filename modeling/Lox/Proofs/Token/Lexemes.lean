import Lox.Token.Piece
import Mathlib.Data.List.Infix

/-!
# Lexemes

A lexeme is a text that can be a token: a string, digits with or without a fraction, a
word, or punctuation.  A piece of a text *fits* in front of what follows it if it is as
long as it can be: no lexeme that begins there is longer than a token, none at all begins
at a stray character or at an open string, and blank stretches and comments end only where
they must.

**Pieces.** `Piece.Splits pieces text` says that the pieces make up the text and that each
of them fits.  Every text is split in exactly one way, which `Piece.ofText` finds
(`Piece.splits_iff`).
-/

namespace Lox

/-- What can stand between the quotes of a string, with what it stands for. -/
inductive StringText : List Char → List Char → Prop
  | nil : StringText [] []
  | plain {c : Char} {raw value : List Char} (hquote : c ≠ '"') (hbackslash : c ≠ '\\')
      (hrest : StringText raw value) : StringText (c :: raw) (c :: value)
  | escape {c : Char} {raw value : List Char} (hrest : StringText raw value) :
      StringText ('\\' :: c :: raw) (Piece.unescape c ++ value)

/-- The text of a token, with its kind and value. -/
inductive Lexeme : Token.Kind → List Char → Option Literal → Prop
  | string {raw value : List Char} (hraw : StringText raw value) :
      Lexeme .string ('"' :: (raw ++ ['"'])) (some (.text (String.ofList value)))
  | whole {digits : List Char} (hne : digits ≠ []) (hdigits : ∀ d ∈ digits, d.isDigit) :
      Lexeme .number digits (some (.ofWhole digits))
  | fraction {whole fraction : List Char} (hwhole : whole ≠ [])
      (hdigits : ∀ d ∈ whole, d.isDigit) (hfraction : fraction ≠ [])
      (hdigits' : ∀ d ∈ fraction, d.isDigit) :
      Lexeme .float (whole ++ '.' :: fraction) (some (.ofFraction whole fraction))
  | word {first : Char} {others : List Char} (hfirst : first.isAlpha)
      (hothers : ∀ c ∈ others, Piece.isWordPart c) :
      Lexeme (.ofWord (String.ofList (first :: others))) (first :: others) none
  | pair {c d : Char} {kind : Token.Kind} (hkind : Piece.pairKind? c d = some kind) :
      Lexeme kind [c, d] none
  | single {c : Char} {kind : Token.Kind} (hkind : Piece.singleKind? c = some kind) :
      Lexeme kind [c] none

/-- No lexeme stands at the beginning of the text. -/
def StartsNoLexeme (text : List Char) : Prop :=
  ∀ kind lexeme literal, Lexeme kind lexeme literal → ¬ lexeme <+: text

/-- No longer lexeme stands at the beginning of the text. -/
def IsLongest (lexeme text : List Char) : Prop :=
  ∀ kind other literal, Lexeme kind other literal → other <+: text →
    other.length ≤ lexeme.length

namespace Piece

/-- The piece is what its class says, and as long as it can be in front of `rest`. -/
def Fits (rest : List Char) : Piece → Prop
  | blank text =>
    text ≠ [] ∧ (∀ c ∈ text, isBlank c) ∧ ∀ c ∈ rest.head?, isBlank c = false
  | comment text =>
    (∃ line, text = '/' :: '/' :: line ∧ '\n' ∉ line) ∧ ∀ c ∈ rest.head?, c = '\n'
  | token kind text literal =>
    Lexeme kind text literal ∧ IsLongest text (text ++ rest) ∧ ¬ ['/', '/'] <+: text ++ rest
  | stray c => isBlank c = false ∧ c ≠ '"' ∧ StartsNoLexeme (c :: rest)
  | openString text => text.head? = some '"' ∧ rest = [] ∧ StartsNoLexeme text

/-- The pieces make up the text, and each of them fits. -/
inductive Splits : List Piece → List Char → Prop
  | nil : Splits [] []
  | cons {piece : Piece} {pieces : List Piece} {rest : List Char} (hfits : piece.Fits rest)
      (hrest : Splits pieces rest) : Splits (piece :: pieces) (piece.text ++ rest)

end Piece

/-! ## Characters -/

theorem isAlpha_of_isDigit {c : Char} (h : c.isDigit) : c.isAlpha = false := by
  have hdigit : (decide (c.val ≥ '0'.val) && decide (c.val ≤ '9'.val)) = true := h
  have halpha : c.isAlpha = (decide (c.val ≥ 'A'.val ∧ c.val ≤ 'Z'.val) ||
      (decide (c.val ≥ 'a'.val) && decide (c.val ≤ 'z'.val))) := rfl
  simp only [halpha, Bool.and_eq_true, decide_eq_true_eq, Bool.or_eq_false_iff,
    Bool.and_eq_false_iff, decide_eq_false_iff_not] at hdigit ⊢
  grind

theorem not_isBlank_of_isDigit {c : Char} (h : c.isDigit) : Piece.isBlank c = false := by
  simp only [Piece.isBlank, Bool.or_eq_false_iff, decide_eq_false_iff_not]
  refine ⟨⟨⟨?_, ?_⟩, ?_⟩, ?_⟩ <;> rintro rfl <;> cases h

theorem not_isBlank_of_isAlpha {c : Char} (h : c.isAlpha) : Piece.isBlank c = false := by
  simp only [Piece.isBlank, Bool.or_eq_false_iff, decide_eq_false_iff_not]
  refine ⟨⟨⟨?_, ?_⟩, ?_⟩, ?_⟩ <;> rintro rfl <;> cases h

theorem not_isBlank_of_isWordPart {c : Char} (h : Piece.isWordPart c) :
    Piece.isBlank c = false := by
  simp only [Piece.isBlank, Bool.or_eq_false_iff, decide_eq_false_iff_not]
  refine ⟨⟨⟨?_, ?_⟩, ?_⟩, ?_⟩ <;> rintro rfl <;> cases h

/-- Punctuation is of a class of its own. -/
structure IsPunctuation (c : Char) : Prop where
  /-- It is no blank character. -/
  blank : Piece.isBlank c = false
  /-- It is no quote. -/
  quote : c ≠ '"'
  /-- It is no digit. -/
  digit : c.isDigit = false
  /-- It is no letter. -/
  alpha : c.isAlpha = false

theorem isPunctuation_of_pairKind? {c d : Char} {kind : Token.Kind}
    (h : Piece.pairKind? c d = some kind) : IsPunctuation c := by
  unfold Piece.pairKind? at h
  split at h <;> cases h <;> constructor <;> decide

theorem isPunctuation_of_singleKind? {c : Char} {kind : Token.Kind}
    (h : Piece.singleKind? c = some kind) : IsPunctuation c := by
  unfold Piece.singleKind? at h
  split at h <;> cases h <;> constructor <;> decide

/-! ## Stretches of characters -/

section

variable {p : Char → Bool} {text rest : List Char}

/-- A stretch of characters of a class is no longer than the longest one. -/
theorem length_le_takeWhile {stretch : List Char} (hstretch : ∀ c ∈ stretch, p c)
    (h : stretch <+: text) : stretch.length ≤ (text.takeWhile p).length := by
  obtain ⟨rest, rfl⟩ := h
  rw [List.takeWhile_append_of_pos hstretch, List.length_append]
  exact Nat.le_add_right _ _

theorem takeWhile_of_stop (htext : ∀ c ∈ text, p c) (hrest : ∀ c ∈ rest.head?, p c = false) :
    (text ++ rest).takeWhile p = text := by
  rw [List.takeWhile_append_of_pos htext]
  cases rest with
  | nil => simp
  | cons c rest => simp [hrest c rfl]

theorem dropWhile_of_stop (htext : ∀ c ∈ text, p c) (hrest : ∀ c ∈ rest.head?, p c = false) :
    (text ++ rest).dropWhile p = rest := by
  rw [List.dropWhile_append_of_pos htext]
  cases rest with
  | nil => rfl
  | cons c rest => simp [hrest c rfl]

/-- Where the longest stretch of a class ends, a character of another class stands. -/
theorem not_of_head?_dropWhile {c : Char} (h : c ∈ (text.dropWhile p).head?) : p c = false := by
  have hstop := List.head?_dropWhile_not p text
  rw [Option.mem_def] at h
  simpa [h] using hstop

theorem of_mem_takeWhile {c : Char} (h : c ∈ text.takeWhile p) : p c := by
  induction text with
  | nil => simp at h
  | cons d text ih =>
    rw [List.takeWhile_cons] at h
    split at h
    · next hd =>
      rcases List.mem_cons.1 h with rfl | h
      · exact hd
      · exact ih h
    · simp at h

end

/-! ## Strings -/

theorem StringText.stringBody? {raw value : List Char} (h : StringText raw value)
    (rest : List Char) :
    Piece.stringBody? (raw ++ '"' :: rest) = some ⟨raw ++ ['"'], value, rest⟩ := by
  induction h with
  | nil => simp [Piece.stringBody?]
  | plain hquote hbackslash _ ih =>
    simp [Piece.stringBody?, hbackslash, ih, Piece.StringBody.extend]
  | escape _ ih => simp [Piece.stringBody?, ih, Piece.StringBody.extend]

theorem stringText_of_stringBody? {text : List Char} {body : Piece.StringBody}
    (h : Piece.stringBody? text = some body) :
    ∃ raw, StringText raw body.value ∧ body.raw = raw ++ ['"'] ∧
      text = raw ++ '"' :: body.rest := by
  fun_induction Piece.stringBody? text generalizing body with
  | case1 => cases h
  | case2 rest =>
    cases h
    exact ⟨[], .nil, rfl, rfl⟩
  | case3 => cases h
  | case4 c rest ih =>
    obtain ⟨inner, hinner, rfl⟩ := Option.map_eq_some_iff.1 h
    obtain ⟨raw, htext, hraw, rfl⟩ := ih hinner
    exact ⟨'\\' :: c :: raw, .escape htext, by simp [Piece.StringBody.extend, hraw], rfl⟩
  | case5 c rest hquote hlast hescape ih =>
    obtain ⟨inner, hinner, rfl⟩ := Option.map_eq_some_iff.1 h
    obtain ⟨raw, htext, hraw, rfl⟩ := ih hinner
    have hbackslash : c ≠ '\\' := by
      rintro rfl
      cases raw with
      | nil => exact hescape _ _ rfl rfl
      | cons d raw => exact hescape _ _ rfl rfl
    exact ⟨c :: raw, .plain (fun heq => hquote heq) hbackslash htext,
      by simp [Piece.StringBody.extend, hraw], rfl⟩

/-- A string ends at its first closing quote. -/
theorem StringText.unique {raw raw' value value' rest rest' : List Char}
    (h : StringText raw value) (h' : StringText raw' value')
    (heq : raw ++ '"' :: rest = raw' ++ '"' :: rest') : raw = raw' ∧ value = value' := by
  have hbody := h.stringBody? rest
  rw [heq, h'.stringBody? rest'] at hbody
  simp_all

/-! ## Lexemes by their first character -/

section

variable {kind : Token.Kind} {lexeme text : List Char} {literal : Option Literal} {c : Char}

/-- A number begins with a digit. -/
theorem isDigit_of_starts {digits more : List Char} (hne : digits ≠ [])
    (hdigits : ∀ d ∈ digits, d.isDigit) (hstarts : digits ++ more <+: c :: text) :
    c.isDigit := by
  obtain ⟨d, digits, rfl⟩ := List.exists_cons_of_ne_nil hne
  obtain ⟨rfl, -⟩ := List.cons_prefix_cons.1 hstarts
  exact hdigits d (List.mem_cons_self ..)

/-- A lexeme at a quote is a string. -/
theorem Lexeme.of_quote (h : Lexeme kind lexeme literal) (hstarts : lexeme <+: '"' :: text) :
    ∃ raw value, StringText raw value ∧ kind = .string ∧ lexeme = '"' :: (raw ++ ['"']) ∧
      literal = some (.text (String.ofList value)) := by
  cases h with
  | @string raw value hraw => exact ⟨raw, value, hraw, rfl, rfl, rfl⟩
  | whole hne hdigits =>
    rw [← List.append_nil lexeme] at hstarts
    cases isDigit_of_starts hne hdigits hstarts
  | fraction hne hdigits => cases isDigit_of_starts hne hdigits hstarts
  | word hfirst =>
    obtain ⟨rfl, -⟩ := List.cons_prefix_cons.1 hstarts
    cases hfirst
  | pair hkind =>
    exact absurd (List.cons_prefix_cons.1 hstarts).1 (isPunctuation_of_pairKind? hkind).quote
  | single hkind =>
    exact absurd (List.cons_prefix_cons.1 hstarts).1 (isPunctuation_of_singleKind? hkind).quote

/-- A lexeme at a digit is a number. -/
theorem Lexeme.of_digit (h : Lexeme kind lexeme literal) (hc : c.isDigit)
    (hstarts : lexeme <+: c :: text) :
    (lexeme ≠ [] ∧ (∀ d ∈ lexeme, d.isDigit) ∧ kind = .number ∧
      literal = some (.ofWhole lexeme)) ∨
    ∃ whole fraction, (∀ d ∈ whole, d.isDigit) ∧ fraction ≠ [] ∧
      (∀ d ∈ fraction, d.isDigit) ∧ kind = .float ∧ lexeme = whole ++ '.' :: fraction ∧
      literal = some (.ofFraction whole fraction) := by
  cases h with
  | string =>
    obtain ⟨rfl, -⟩ := List.cons_prefix_cons.1 hstarts
    cases hc
  | whole hne hdigits => exact .inl ⟨hne, hdigits, rfl, rfl⟩
  | fraction _ hdigits hne hdigits' =>
    exact .inr ⟨_, _, hdigits, hne, hdigits', rfl, rfl, rfl⟩
  | word hfirst =>
    obtain ⟨rfl, -⟩ := List.cons_prefix_cons.1 hstarts
    simp [isAlpha_of_isDigit hc] at hfirst
  | pair hkind =>
    obtain ⟨rfl, -⟩ := List.cons_prefix_cons.1 hstarts
    simp [(isPunctuation_of_pairKind? hkind).digit] at hc
  | single hkind =>
    obtain ⟨rfl, -⟩ := List.cons_prefix_cons.1 hstarts
    simp [(isPunctuation_of_singleKind? hkind).digit] at hc

/-- A lexeme at a letter is a word. -/
theorem Lexeme.of_alpha (h : Lexeme kind lexeme literal) (hc : c.isAlpha)
    (hstarts : lexeme <+: c :: text) :
    (∀ d ∈ lexeme, Piece.isWordPart d) ∧ kind = .ofWord (String.ofList lexeme) ∧
      literal = none := by
  cases h with
  | string =>
    obtain ⟨rfl, -⟩ := List.cons_prefix_cons.1 hstarts
    cases hc
  | whole hne hdigits =>
    rw [← List.append_nil lexeme] at hstarts
    simp [isAlpha_of_isDigit (isDigit_of_starts hne hdigits hstarts)] at hc
  | fraction hne hdigits =>
    simp [isAlpha_of_isDigit (isDigit_of_starts hne hdigits hstarts)] at hc
  | word hfirst hothers =>
    refine ⟨?_, rfl, rfl⟩
    intro d hd
    rcases List.mem_cons.1 hd with rfl | hd
    · simp [Piece.isWordPart, hfirst]
    · exact hothers d hd
  | pair hkind =>
    obtain ⟨rfl, -⟩ := List.cons_prefix_cons.1 hstarts
    simp [(isPunctuation_of_pairKind? hkind).alpha] at hc
  | single hkind =>
    obtain ⟨rfl, -⟩ := List.cons_prefix_cons.1 hstarts
    simp [(isPunctuation_of_singleKind? hkind).alpha] at hc

/-- A lexeme at any other character is punctuation. -/
theorem Lexeme.of_other (h : Lexeme kind lexeme literal) (hquote : c ≠ '"')
    (hdigit : ¬ c.isDigit) (halpha : ¬ c.isAlpha) (hstarts : lexeme <+: c :: text) :
    literal = none ∧
      ((∃ d, lexeme = [c, d] ∧ Piece.pairKind? c d = some kind) ∨
        lexeme = [c] ∧ Piece.singleKind? c = some kind) := by
  cases h with
  | string => exact absurd (List.cons_prefix_cons.1 hstarts).1.symm hquote
  | whole hne hdigits =>
    rw [← List.append_nil lexeme] at hstarts
    exact absurd (isDigit_of_starts hne hdigits hstarts) hdigit
  | fraction hne hdigits => exact absurd (isDigit_of_starts hne hdigits hstarts) hdigit
  | word hfirst =>
    obtain ⟨rfl, -⟩ := List.cons_prefix_cons.1 hstarts
    exact absurd hfirst halpha
  | @pair _ d _ hkind =>
    obtain ⟨rfl, -⟩ := List.cons_prefix_cons.1 hstarts
    exact ⟨rfl, .inl ⟨d, rfl, hkind⟩⟩
  | single hkind =>
    obtain ⟨rfl, -⟩ := List.cons_prefix_cons.1 hstarts
    exact ⟨rfl, .inr ⟨rfl, hkind⟩⟩

/-- No lexeme begins with a blank character. -/
theorem Lexeme.not_blank (h : Lexeme kind lexeme literal) (hstarts : lexeme <+: c :: text) :
    Piece.isBlank c = false := by
  cases h with
  | string =>
    obtain ⟨rfl, -⟩ := List.cons_prefix_cons.1 hstarts
    rfl
  | whole hne hdigits =>
    rw [← List.append_nil lexeme] at hstarts
    exact not_isBlank_of_isDigit (isDigit_of_starts hne hdigits hstarts)
  | fraction hne hdigits =>
    exact not_isBlank_of_isDigit (isDigit_of_starts hne hdigits hstarts)
  | word hfirst =>
    obtain ⟨rfl, -⟩ := List.cons_prefix_cons.1 hstarts
    exact not_isBlank_of_isAlpha hfirst
  | pair hkind =>
    obtain ⟨rfl, -⟩ := List.cons_prefix_cons.1 hstarts
    exact (isPunctuation_of_pairKind? hkind).blank
  | single hkind =>
    obtain ⟨rfl, -⟩ := List.cons_prefix_cons.1 hstarts
    exact (isPunctuation_of_singleKind? hkind).blank

end

theorem Lexeme.ne_nil {kind : Token.Kind} {lexeme : List Char} {literal : Option Literal}
    (h : Lexeme kind lexeme literal) : lexeme ≠ [] := by
  cases h <;> simp_all

/-- The text of a token determines its kind and value. -/
theorem Lexeme.unique {kind kind' : Token.Kind} {lexeme : List Char}
    {literal literal' : Option Literal} (h : Lexeme kind lexeme literal)
    (h' : Lexeme kind' lexeme literal') : kind = kind' ∧ literal = literal' := by
  obtain ⟨c, others, rfl⟩ := List.exists_cons_of_ne_nil h.ne_nil
  have hstarts : c :: others <+: c :: others := List.prefix_rfl
  by_cases hquote : c = '"'
  · subst hquote
    obtain ⟨raw, value, hraw, rfl, hlexeme, rfl⟩ := h.of_quote hstarts
    obtain ⟨raw', value', hraw', rfl, hlexeme', rfl⟩ := h'.of_quote hstarts
    have heq : raw ++ ['"'] = raw' ++ ['"'] := by simp_all
    rw [(hraw.unique hraw' heq).2]
    exact ⟨rfl, rfl⟩
  · by_cases hdigit : c.isDigit
    · have point_not_digit {whole fraction : List Char}
          (hdigits : ∀ d ∈ whole ++ '.' :: fraction, d.isDigit) : False := by
        cases hdigits '.' (by simp)
      rcases h.of_digit hdigit hstarts with
        ⟨-, hdigits, rfl, rfl⟩ | ⟨whole, fraction, hwhole, -, -, rfl, hlexeme, rfl⟩ <;>
      rcases h'.of_digit hdigit hstarts with
        ⟨-, hdigits', rfl, rfl⟩ | ⟨whole', fraction', hwhole', -, -, rfl, hlexeme', rfl⟩
      · exact ⟨rfl, rfl⟩
      · exact (point_not_digit (hlexeme' ▸ hdigits)).elim
      · exact (point_not_digit (hlexeme ▸ hdigits')).elim
      · have hstop (more : List Char) :
            ∀ d ∈ ('.' :: more).head?, d.isDigit = false := by simp
        have heq : whole = whole' := by
          rw [← takeWhile_of_stop hwhole (hstop fraction), ← hlexeme, hlexeme',
            takeWhile_of_stop hwhole' (hstop fraction')]
        subst heq
        have heq : fraction = fraction' := by
          rw [hlexeme] at hlexeme'
          simpa using hlexeme'
        rw [heq]
        exact ⟨rfl, rfl⟩
    · by_cases halpha : c.isAlpha
      · obtain ⟨-, rfl, rfl⟩ := h.of_alpha halpha hstarts
        obtain ⟨-, rfl, rfl⟩ := h'.of_alpha halpha hstarts
        exact ⟨rfl, rfl⟩
      · obtain ⟨rfl, hkind⟩ := h.of_other hquote hdigit halpha hstarts
        obtain ⟨rfl, hkind'⟩ := h'.of_other hquote hdigit halpha hstarts
        refine ⟨?_, rfl⟩
        rcases hkind with ⟨d, heq, hkind⟩ | ⟨heq, hkind⟩ <;>
        rcases hkind' with ⟨d', heq', hkind'⟩ | ⟨heq', hkind'⟩ <;> simp_all

/-- An identifier is a letter with letters and digits behind it. -/
theorem Lexeme.of_identifier {text : List Char} {literal : Option Literal}
    (h : Lexeme .identifier text literal) :
    ∃ first others, text = first :: others ∧ first.isAlpha ∧
      ∀ c ∈ others, Piece.isWordPart c := by
  generalize hkind : Token.Kind.identifier = kind at h
  cases h with
  | word hfirst hothers => exact ⟨_, _, rfl, hfirst, hothers⟩
  | pair hpair =>
    rw [← hkind] at hpair
    unfold Piece.pairKind? at hpair
    split at hpair <;> cases hpair
  | single hsingle =>
    rw [← hkind] at hsingle
    unfold Piece.singleKind? at hsingle
    split at hsingle <;> cases hsingle
  | _ => cases hkind

end Lox
