import Lox.CompileError

/-!
# Pieces of a source text

A source text is cut into consecutive pieces: blank stretches, comments, tokens,
stray characters that start no token, and at most one string without a closing
quote, which reaches to the end of the text.  The text of the pieces, put
together, is the source text again.

**Longest match.** At each place the piece is as long as its class allows: two
character operators go before their first character, digits with a fraction before
digits, and words are read to their end.
-/

namespace Lox

/-- A piece of a source text. -/
inductive Piece where
  /-- Spaces, tabs, carriage returns and line feeds. -/
  | blank (text : List Char)
  /-- Two slashes and what follows up to the line feed. -/
  | comment (text : List Char)
  | token (kind : Token.Kind) (text : List Char) (literal : Option Literal)
  /-- A character that starts no token. -/
  | stray (c : Char)
  /-- A quote and what follows, without a closing quote. -/
  | openString (text : List Char)

namespace Piece

/-- The text that the piece was cut from. -/
def text : Piece → List Char
  | .blank text => text
  | .comment text => text
  | .token _ text _ => text
  | .stray c => [c]
  | .openString text => text

/-- The four blank characters. -/
def isBlank (c : Char) : Bool := c = ' ' || c = '\t' || c = '\r' || c = '\n'

/-- Characters after the first one of a word: ASCII letters and digits. -/
def isWordPart (c : Char) : Bool := c.isAlpha || c.isDigit

/-- What a backslash and a character stand for in a string.  A character without
a meaning of its own is kept together with the backslash. -/
def unescape : Char → List Char
  | 'n' => ['\n']
  | 't' => ['\t']
  | '\\' => ['\\']
  | '"' => ['"']
  | c => ['\\', c]

/-- A string after its opening quote. -/
structure StringBody where
  /-- Text up to and including the closing quote. -/
  raw : List Char
  /-- What the string stands for. -/
  value : List Char
  /-- Text after the closing quote. -/
  rest : List Char

/-- Adds a character, or a backslash and a character, in front of a string body. -/
def StringBody.extend (raw value : List Char) (body : StringBody) : StringBody :=
  ⟨raw ++ body.raw, value ++ body.value, body.rest⟩

/-- Reads a string after its opening quote; none if there is no closing quote. -/
def stringBody? : List Char → Option StringBody
  | [] => none
  | '"' :: rest => some ⟨['"'], [], rest⟩
  | ['\\'] => none
  | '\\' :: c :: rest => (stringBody? rest).map (.extend ['\\', c] (unescape c))
  | c :: rest => (stringBody? rest).map (.extend [c] [c])

/-- A piece and the text after it. -/
abbrev Cut := Piece × List Char

/-- A string, or an open string that takes all the text. -/
def cutString (rest : List Char) : Cut :=
  match stringBody? rest with
  | some body =>
    (.token .string ('"' :: body.raw) (some (.text (String.ofList body.value))), body.rest)
  | none => (.openString ('"' :: rest), [])

/-- Digits, with a fraction if a point and a digit follow. -/
def cutNumber (text : List Char) : Cut :=
  let whole := text.takeWhile Char.isDigit
  match text.dropWhile Char.isDigit with
  | '.' :: d :: rest =>
    if d.isDigit then
      let fraction := (d :: rest).takeWhile Char.isDigit
      (.token .float (whole ++ '.' :: fraction) (some (.ofFraction whole fraction)),
        (d :: rest).dropWhile Char.isDigit)
    else (.token .number whole (some (.ofWhole whole)), '.' :: d :: rest)
  | rest => (.token .number whole (some (.ofWhole whole)), rest)

/-- An identifier or keyword. -/
def cutWord (text : List Char) : Cut :=
  let word := text.takeWhile isWordPart
  (.token (Token.Kind.ofWord (String.ofList word)) word none, text.dropWhile isWordPart)

/-- Operators of two characters. -/
def pairKind? : Char → Char → Option Token.Kind
  | '!', '=' => some .bangEqual
  | '=', '=' => some .equalEqual
  | '>', '=' => some .greaterEqual
  | '<', '=' => some .lessEqual
  | '&', '&' => some .and
  | '|', '|' => some .or
  | _, _ => none

/-- Tokens of one character. -/
def singleKind? : Char → Option Token.Kind
  | '(' => some .leftParen
  | ')' => some .rightParen
  | '\x7b' => some .leftBrace
  | '\x7d' => some .rightBrace
  | ',' => some .comma
  | '.' => some .dot
  | '-' => some .minus
  | '+' => some .plus
  | ';' => some .semicolon
  | '/' => some .slash
  | '*' => some .star
  | '!' => some .bang
  | '=' => some .equal
  | '<' => some .less
  | '>' => some .greater
  | _ => none

/-- A token of one character, or a stray character. -/
def cutSingle (c : Char) (rest : List Char) : Cut :=
  match singleKind? c with
  | some kind => (.token kind [c] none, rest)
  | none => (.stray c, rest)

/-- Punctuation of two characters or one, or a stray character. -/
def cutPunctuation (c : Char) : List Char → Cut
  | [] => cutSingle c []
  | d :: rest =>
    match pairKind? c d with
    | some kind => (.token kind [c, d] none, rest)
    | none => cutSingle c (d :: rest)

/-- The first piece of a text that starts with `c`. -/
def cut (c : Char) (rest : List Char) : Cut :=
  if isBlank c then
    (.blank (c :: rest.takeWhile isBlank), rest.dropWhile isBlank)
  else if c = '/' ∧ rest.head? = some '/' then
    (.comment (c :: rest.takeWhile (· ≠ '\n')), rest.dropWhile (· ≠ '\n'))
  else if c = '"' then cutString rest
  else if c.isDigit then cutNumber (c :: rest)
  else if c.isAlpha then cutWord (c :: rest)
  else cutPunctuation c rest

/-- The pieces of a text, at most as many as the first argument. -/
def cutAll : Nat → List Char → List Piece
  | _, [] => []
  | 0, _ :: _ => []
  | n + 1, c :: rest =>
    let (piece, rest) := cut c rest
    piece :: cutAll n rest

/-- The pieces of a text.  Every piece has at least one character, so there are at
most as many pieces as characters. -/
def ofText (text : List Char) : List Piece := cutAll text.length text

/-- The token of a piece that stands at `p`. -/
def token? (p : Position) : Piece → Option Token
  | .token kind text literal =>
    some ⟨kind, String.ofList text, literal, Span.ofText p text⟩
  | _ => none

/-- The error of a piece that stands at `p`. -/
def error? (p : Position) : Piece → Option CompileError
  | .stray c => some (.scan (.strayCharacter c) p)
  | .openString _ => some (.scan .openString p)
  | _ => none

/-- Pieces with their places, the first one at `p`. -/
def placed (p : Position) : List Piece → List (Position × Piece)
  | [] => []
  | piece :: pieces => (p, piece) :: placed (p.after piece.text) pieces

end Piece

/-- A first line that starts with a hash and an exclamation mark, with its line
feed, and the text after it. -/
def splitShebang : List Char → List Char × List Char
  | '#' :: '!' :: rest =>
    let line := rest.takeWhile (· ≠ '\n')
    match rest.dropWhile (· ≠ '\n') with
    | c :: rest => ('#' :: '!' :: line ++ [c], rest)
    | [] => ('#' :: '!' :: line, [])
  | text => ([], text)

/-- The pieces of a source text with their places, after a skipped first line. -/
def sourcePieces (source : List Char) : List (Position × Piece) :=
  let (skipped, text) := splitShebang source
  Piece.placed (Position.start.after skipped) (Piece.ofText text)

/-- The tokens of a source text, closed by an end token, or else all its lexical
errors in order. -/
def scan (source : String) : Except (List CompileError) (List Token) :=
  let text := source.toList
  let pieces := sourcePieces text
  match pieces.filterMap fun (p, piece) => piece.error? p with
  | [] =>
    .ok ((pieces.filterMap fun (p, piece) => piece.token? p) ++
      [Token.endAt (Position.start.after text)])
  | errors => .error errors

end Lox
