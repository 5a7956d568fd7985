import Lox.Span
import Mathlib.Data.List.Basic

/-!
# Places and bytes

Positions are counted while a text is read character by character.  They are places in
the UTF-8 bytes of the text: the span of a stretch of text covers the bytes of the
stretch, and its line is one more than the line feed bytes before it.
-/

namespace Lox

/-- The bytes of a source text. -/
def sourceBytes (source : String) : List UInt8 := source.toUTF8.data.toList

/-- The byte of a line feed. -/
def lineFeed : UInt8 := 10

/-- The span is where the text stands in the source. -/
structure Span.Covers (source : String) (span : Span) (text : String) : Prop where
  /-- The bytes at the span are those of the text. -/
  bytes : ((sourceBytes source).drop span.offset).take span.len = sourceBytes text
  /-- The span ends in the source. -/
  inside : span.offset + span.len ≤ (sourceBytes source).length
  /-- The line is one more than the line feeds before the span. -/
  line : span.line = 1 + ((sourceBytes source).take span.offset).count lineFeed

/-- The bytes of a list of characters. -/
def utf8 (text : List Char) : List UInt8 := text.flatMap String.utf8EncodeChar

theorem utf8_append (s t : List Char) : utf8 (s ++ t) = utf8 s ++ utf8 t :=
  List.flatMap_append

theorem sourceBytes_ofList (text : List Char) :
    sourceBytes (String.ofList text) = utf8 text := by
  simp [sourceBytes, String.toUTF8, List.utf8Encode, utf8]

theorem sourceBytes_eq (source : String) : sourceBytes source = utf8 source.toList := by
  rw [← sourceBytes_ofList, String.ofList_toList]

theorem length_utf8 (text : List Char) : (utf8 text).length = byteLength text := by
  induction text with
  | nil => rfl
  | cons c text ih =>
    rw [utf8, List.flatMap_cons, List.length_append, String.length_utf8EncodeChar]
    exact congrArg _ ih

/-- A source text is as many bytes long as its characters take. -/
theorem length_sourceBytes (source : String) :
    (sourceBytes source).length = byteLength source.toList := by
  rw [sourceBytes_eq, length_utf8]

theorem byteLength_pos {text : List Char} (h : text ≠ []) : 0 < byteLength text := by
  obtain ⟨c, text, rfl⟩ := List.exists_cons_of_ne_nil h
  rw [byteLength_cons]
  exact Nat.add_pos_left c.utf8Size_pos _

/-- Only the line feed has the byte of a line feed. -/
theorem count_utf8EncodeChar (c : Char) :
    (String.utf8EncodeChar c).count lineFeed = if c = '\n' then 1 else 0 := by
  have hchar : c = '\n' ↔ c.val.toNat = 10 := by
    rw [Char.ext_iff, ← UInt32.toNat_inj]
    rfl
  have hbyte (n : Nat) : UInt8.ofNat n = lineFeed ↔ n % 256 = 10 := by
    rw [← UInt8.toNat_inj]
    simp [lineFeed]
  simp only [String.utf8EncodeChar, hchar]
  split
  · simp only [List.count_singleton, beq_iff_eq, hbyte]
    congr 1
    simp only [eq_iff_iff]
    omega
  · next hlong =>
    -- the bytes of a longer character are all above those of the single ones
    have hnot (n : Nat) (h : 128 ≤ n) (h' : n < 256) : UInt8.ofNat n ≠ lineFeed := by
      rw [Ne, hbyte]
      omega
    rw [if_neg (show ¬ c.val.toNat = 10 by omega), List.count_eq_zero]
    intro hmem
    split at hmem
    · simp only [List.mem_cons, List.not_mem_nil, or_false] at hmem
      rcases hmem with h | h <;> exact hnot _ (by omega) (by omega) h.symm
    · split at hmem <;> simp only [List.mem_cons, List.not_mem_nil, or_false] at hmem
      · rcases hmem with h | h | h <;> exact hnot _ (by omega) (by omega) h.symm
      · rcases hmem with h | h | h | h <;> exact hnot _ (by omega) (by omega) h.symm

/-- The line feeds of a text can be counted in its bytes. -/
theorem count_utf8 (text : List Char) : (utf8 text).count lineFeed = text.count '\n' := by
  induction text with
  | nil => rfl
  | cons c text ih =>
    rw [utf8, List.flatMap_cons, List.count_append, count_utf8EncodeChar, List.count_cons,
      Nat.add_comm]
    simp only [beq_iff_eq]
    exact congrArg (· + _) ih

/-- The span of a stretch of the source covers it. -/
theorem Span.covers_ofText {source : String} {before text after : List Char}
    (hsource : source.toList = before ++ (text ++ after)) :
    (Span.ofText (Position.start.after before) text).Covers source (String.ofList text) := by
  have hbytes : sourceBytes source = utf8 before ++ (utf8 text ++ utf8 after) := by
    rw [sourceBytes_eq, hsource, utf8_append, utf8_append]
  have hoffset : (Span.ofText (Position.start.after before) text).offset =
      (utf8 before).length := by
    rw [length_utf8]
    exact Nat.zero_add _
  have hlen : (Span.ofText (Position.start.after before) text).len = (utf8 text).length :=
    (length_utf8 text).symm
  constructor
  · rw [hbytes, hoffset, hlen, sourceBytes_ofList]
    simp
  · rw [hbytes, hoffset, hlen]
    simp
  · rw [hbytes, hoffset]
    simp [count_utf8, Span.ofText, Position.after, Position.start]

end Lox
