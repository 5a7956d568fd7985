/-!
# Places in a source text

A source text is read as a list of characters.  A *position* is a place between
two of its characters, counted in UTF-8 bytes, together with the line it is on;
a *span* is a stretch of text, with the line it starts on.  Lines are counted
from one and end at a line feed only.

**Moving.** `Position.after` moves a position over a piece of text, and moving
over two pieces in turn is the same as moving over their concatenation.
-/

namespace Lox

/-- Number of UTF-8 bytes of a list of characters. -/
def byteLength (text : List Char) : Nat :=
  text.foldr (fun c bytes => c.utf8Size + bytes) 0

@[simp] theorem byteLength_nil : byteLength [] = 0 := rfl

@[simp] theorem byteLength_cons (c : Char) (text : List Char) :
    byteLength (c :: text) = c.utf8Size + byteLength text := rfl

@[simp] theorem byteLength_append (s t : List Char) :
    byteLength (s ++ t) = byteLength s + byteLength t := by
  induction s with
  | nil => simp
  | cons c s ih => simp [ih, Nat.add_assoc]

/-- A place between two characters: the bytes before it and its line. -/
structure Position where
  /-- Bytes of the text before this place. -/
  offset : Nat
  /-- Line of this place, counted from one. -/
  line : Nat
  deriving DecidableEq, Repr

namespace Position

/-- The place before the first character. -/
def start : Position := ⟨0, 1⟩

/-- The place reached by reading `text` from here. -/
def after (p : Position) (text : List Char) : Position :=
  ⟨p.offset + byteLength text, p.line + text.count '\n'⟩

@[simp] theorem after_nil (p : Position) : p.after [] = p := rfl

/-- Reading two pieces in turn is reading their concatenation. -/
theorem after_append (p : Position) (s t : List Char) :
    p.after (s ++ t) = (p.after s).after t := by
  simp [after, Nat.add_assoc]

end Position

/-- Line of a byte offset: one more than the line feeds that start before it. -/
def lineAt : List Char → Nat → Nat
  | [], _ => 1
  | _ :: _, 0 => 1
  | c :: text, offset + 1 =>
    lineAt text (offset + 1 - c.utf8Size) + if c = '\n' then 1 else 0

/-- A stretch of text, with the line it starts on. -/
structure Span where
  /-- Bytes of the text before the stretch. -/
  offset : Nat
  /-- Bytes of the stretch. -/
  len : Nat
  /-- Line of the first byte. -/
  line : Nat
  deriving DecidableEq, Repr

namespace Span

/-- Offset just past the last byte. -/
def stop (s : Span) : Nat := s.offset + s.len

/-- The stretch from the start of `s` to the later end of the two; it keeps the
line of `s`. -/
def through (s t : Span) : Span :=
  ⟨s.offset, max t.stop s.stop - s.offset, s.line⟩

/-- The stretch that `text` takes up when it is read from `p`. -/
def ofText (p : Position) (text : List Char) : Span :=
  ⟨p.offset, byteLength text, p.line⟩

@[simp] theorem through_offset (s t : Span) : (s.through t).offset = s.offset := rfl

@[simp] theorem through_line (s t : Span) : (s.through t).line = s.line := rfl

/-- The joined stretch ends where the later of the two ends. -/
@[simp] theorem through_stop (s t : Span) : (s.through t).stop = max t.stop s.stop := by
  simp only [through, stop]
  omega

end Span

end Lox
