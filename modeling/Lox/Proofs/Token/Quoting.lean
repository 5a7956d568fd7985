import Lox.Proofs.Token.Joining
import Mathlib.Algebra.Group.Even
import Mathlib.Algebra.Ring.Parity

/-!
# Strings and their quotes

A text is quoted by a backslash in front of each of its backslashes and quotes, and a quote
at either end.  Scanning a quoted text reads it as one string that stands for the text.

**Closing quotes.** Reading a string goes forward and takes a backslash together with the
character behind it.  Looking back from a quote, it closes the string if an even number of
backslashes stands right before it.  The string ends at the first such quote, and is open if
there is none (`strings_quoted`).
-/

namespace Lox

/-! ## Quoted texts -/

/-- A character as it stands in a quoted text. -/
def escaped (c : Char) : List Char :=
  if c = '"' ∨ c = '\\' then ['\\', c] else [c]

/-- The text, quoted. -/
def quoted (value : String) : String :=
  String.ofList ('"' :: (value.toList.flatMap escaped ++ ['"']))

/-- An escaped text stands for the text. -/
theorem stringText_escaped (value : List Char) : StringText (value.flatMap escaped) value := by
  induction value with
  | nil => exact .nil
  | cons c value ih =>
    rw [List.flatMap_cons, escaped]
    split
    · next hc =>
      have hvalue : Piece.unescape c = [c] := by
        rcases hc with rfl | rfl <;> rfl
      have hescape := StringText.escape (c := c) ih
      rwa [hvalue] at hescape
    · next hc =>
      rw [not_or] at hc
      exact .plain hc.1 hc.2 ih

/-! ## Closing quotes -/

/-- Number of backslashes at the end of the text. -/
def backslashes (text : List Char) : Nat := (text.reverse.takeWhile (· = '\\')).length

/-- The character at the index is a quote with an even number of backslashes right before
it. -/
def Closes (text : List Char) (i : Nat) : Prop :=
  text[i]? = some '"' ∧ Even (backslashes (text.take i))

theorem backslashes_cons_of_ne {c : Char} (hc : c ≠ '\\') (text : List Char) :
    backslashes (c :: text) = backslashes text := by
  rw [backslashes, List.reverse_cons, List.takeWhile_append]
  split
  · next hall => simp [backslashes, hc, hall]
  · rfl

/-- A backslash with the character behind it does not change the parity. -/
theorem even_backslashes_escape (c : Char) (text : List Char) :
    Even (backslashes ('\\' :: c :: text)) ↔ Even (backslashes text) := by
  by_cases hc : c = '\\'
  · subst hc
    simp only [backslashes, List.reverse_cons, List.append_assoc, List.takeWhile_append]
    split
    · next hall => simp [hall, Nat.even_add]
    · rfl
  · simp only [backslashes, List.reverse_cons, List.append_assoc, List.takeWhile_append]
    split
    · next hall => simp [hall, hc]
    · rfl

section

variable {c : Char} {text : List Char}

theorem closes_plain (hc : c ≠ '\\') (i : Nat) : Closes (c :: text) (i + 1) ↔ Closes text i := by
  simp [Closes, backslashes_cons_of_ne hc]

theorem closes_escape (c : Char) (text : List Char) (i : Nat) :
    Closes ('\\' :: c :: text) (i + 2) ↔ Closes text i := by
  simp [Closes, even_backslashes_escape]

/-- A quote at the beginning closes. -/
theorem closes_zero : Closes (c :: text) 0 ↔ c = '"' := by
  simp [Closes, backslashes]

/-- The character behind the first backslash does not close. -/
theorem not_closes_one : ¬ Closes ('\\' :: text) 1 := by
  simp [Closes, backslashes]

end

/-- The quote behind the text of a string is the first one that closes. -/
theorem StringText.closes {raw value : List Char} (h : StringText raw value)
    (rest : List Char) :
    Closes (raw ++ '"' :: rest) raw.length ∧
      ∀ j < raw.length, ¬ Closes (raw ++ '"' :: rest) j := by
  induction h with
  | nil => exact ⟨closes_zero.2 rfl, fun j hj => absurd hj (Nat.not_lt_zero j)⟩
  | plain hquote hbackslash _ ih =>
    refine ⟨(closes_plain hbackslash _).2 ih.1, fun j hj => ?_⟩
    cases j with
    | zero => exact fun hcloses => hquote (closes_zero.1 hcloses)
    | succ j =>
      intro hcloses
      exact ih.2 j (Nat.lt_of_succ_lt_succ hj) ((closes_plain hbackslash j).1 hcloses)
  | @escape c raw value _ ih =>
    refine ⟨(closes_escape c _ _).2 ih.1, fun j hj => ?_⟩
    cases j with
    | zero => exact fun hcloses => absurd (closes_zero.1 hcloses) (by decide)
    | succ j =>
      cases j with
      | zero => exact not_closes_one
      | succ j =>
        intro hcloses
        have hj' : j < raw.length := Nat.lt_of_succ_lt_succ (Nat.lt_of_succ_lt_succ hj)
        exact ih.2 j hj' ((closes_escape c _ j).1 hcloses)

/-- Without the text of a string no quote closes. -/
theorem not_closes_of_stringBody? {rest : List Char} (h : Piece.stringBody? rest = none)
    (i : Nat) : ¬ Closes rest i := by
  fun_induction Piece.stringBody? rest generalizing i with
  | case1 => simp [Closes]
  | case2 => cases h
  | case3 =>
    cases i with
    | zero => exact fun hcloses => absurd (closes_zero.1 hcloses) (by decide)
    | succ i => simp [Closes]
  | case4 c rest ih =>
    cases i with
    | zero => exact fun hcloses => absurd (closes_zero.1 hcloses) (by decide)
    | succ i =>
      cases i with
      | zero => exact not_closes_one
      | succ i =>
        rw [closes_escape]
        exact ih (Option.map_eq_none_iff.1 h) i
  | case5 c rest hquote hlast hescape ih =>
    have hbackslash : c ≠ '\\' := by
      rintro rfl
      cases rest with
      | nil => exact hlast rfl rfl
      | cons d rest => exact hescape d rest rfl rfl
    cases i with
    | zero => exact fun hcloses => hquote (closes_zero.1 hcloses)
    | succ i =>
      rw [closes_plain hbackslash]
      exact ih (Option.map_eq_none_iff.1 h) i

namespace Piece

theorem ofText_cons (c : Char) (rest : List Char) :
    ofText (c :: rest) = (cut c rest).1 :: ofText (cut c rest).2 := by
  have hsplits := Splits.cons (fits_cut c rest) (splits_ofText (cut c rest).2)
  rw [text_cut] at hsplits
  exact splits_iff.1 hsplits

theorem cut_quote (rest : List Char) : cut '"' rest = cutString rest := rfl

/-- A string ends at the first quote that closes. -/
theorem cutString_of_closes {rest : List Char} {i : Nat} (hcloses : Closes rest i)
    (hfirst : ∀ j < i, ¬ Closes rest j) :
    ∃ value, StringText (rest.take i) value ∧
      (cutString rest).1 =
        .token .string ('"' :: rest.take (i + 1)) (some (.text (String.ofList value))) := by
  cases hbody : stringBody? rest with
  | none => exact absurd hcloses (not_closes_of_stringBody? hbody i)
  | some body =>
    obtain ⟨raw, hraw, hbodyRaw, htext⟩ := stringText_of_stringBody? hbody
    obtain ⟨hend, hbefore⟩ := hraw.closes body.rest
    rw [← htext] at hend hbefore
    have hi : i = raw.length := by
      rcases Nat.lt_trichotomy i raw.length with hlt | heq | hlt
      · exact absurd hcloses (hbefore i hlt)
      · exact heq
      · exact absurd hend (hfirst raw.length hlt)
    subst hi
    refine ⟨body.value, ?_, ?_⟩
    · rwa [htext, List.take_left]
    · have hlexeme : rest.take (raw.length + 1) = body.raw := by
        rw [htext, hbodyRaw, List.take_append]
        simp
      rw [cutString, hbody, hlexeme]

end Piece

/-! ## Scanning on -/

/-- What the scan answers by placed pieces, the last of which stops at the place. -/
def answerTo (pieces : List (Position × Piece)) (stop : Position) :
    Except (List CompileError) (List Token) :=
  match pieces.filterMap fun (p, piece) => piece.error? p with
  | [] => .ok ((pieces.filterMap fun (p, piece) => piece.token? p) ++ [Token.endAt stop])
  | errors => .error errors

/-- What the scan answers if it has come to `rest` and `before` is behind it. -/
def scanBehind (before rest : List Char) : Except (List CompileError) (List Token) :=
  answerTo (Piece.placed (Position.start.after before) (Piece.ofText rest))
    (Position.start.after (before ++ rest))

/-- The scan begins behind a skipped first line. -/
theorem scan_eq_scanBehind (source : String) :
    scan source =
      scanBehind (splitShebang source.toList).1 (splitShebang source.toList).2 := by
  rw [scanBehind, (skips_splitShebang source.toList).append_eq]
  rfl

/-- A token in front of other pieces is the first token of the answer. -/
theorem answerTo_token (p stop : Position) (kind : Token.Kind) (lexeme : List Char)
    (literal : Option Literal) (pieces : List (Position × Piece)) :
    answerTo ((p, .token kind lexeme literal) :: pieces) stop =
      (answerTo pieces stop).map
        (⟨kind, String.ofList lexeme, literal, .ofText p lexeme⟩ :: ·) := by
  rw [answerTo, answerTo, List.filterMap_cons_none rfl]
  split <;> rfl

/-- The pieces of a text that begins with a quoted one. -/
theorem ofText_quoted (value : String) (following : List Char) :
    Piece.ofText ((quoted value).toList ++ following) =
      .token .string (quoted value).toList (some (.text value)) :: Piece.ofText following := by
  have hbody := (stringText_escaped value.toList).stringBody? following
  have htext : (quoted value).toList ++ following =
      '"' :: (value.toList.flatMap escaped ++ '"' :: following) := by
    simp [quoted]
  rw [htext, Piece.ofText_cons, Piece.cut_quote, Piece.cutString, hbody]
  simp [quoted]

/-- A quoted text is read as a string, and the scan goes on behind it. -/
theorem scanBehind_quoted (before : List Char) (value : String) (following : List Char) :
    scanBehind before ((quoted value).toList ++ following) =
      (scanBehind (before ++ (quoted value).toList) following).map
        (⟨.string, quoted value, some (.text value),
          .ofText (Position.start.after before) (quoted value).toList⟩ :: ·) := by
  rw [scanBehind, ofText_quoted, Piece.placed, answerTo_token, Piece.text,
    ← Position.after_append, ← List.append_assoc, String.ofList_toList]
  rfl

/-! ## Strings of a source -/

namespace Cutting

variable {source : String} {c : Cutting} {before : List Char} {piece : Piece}

/-- The pieces from a placed one on are those of the text from there on. -/
theorem exists_splits_of_mem_withBefore {start text : List Char} {pieces : List Piece}
    (h : Piece.Splits pieces text) (hmem : (before, piece) ∈ withBefore start pieces) :
    ∃ following after, start ++ text = before ++ after ∧
      Piece.Splits (piece :: following) after := by
  induction h generalizing start with
  | nil => simp [withBefore] at hmem
  | @cons first pieces rest hfits hrest ih =>
    rcases List.mem_cons.1 hmem with heq | hmem
    · obtain ⟨rfl, rfl⟩ := Prod.mk.inj heq
      exact ⟨pieces, _, rfl, .cons hfits hrest⟩
    · obtain ⟨following, after, htext, hsplits⟩ := ih hmem
      exact ⟨following, after, by rw [← htext, List.append_assoc], hsplits⟩

/-- The piece at a quote is the string that is cut there, or an open one. -/
theorem IsOf.eq_cutString (h : c.IsOf source) (hmem : (before, piece) ∈ c.placed)
    {rest : List Char} (hquote : source.toList = before ++ '"' :: rest) :
    piece = (Piece.cutString rest).1 := by
  obtain ⟨following, after, htext, hsplits⟩ := exists_splits_of_mem_withBefore h.splits hmem
  rw [h.text_eq, hquote] at htext
  obtain rfl := List.append_cancel_left htext
  have hpieces := Piece.splits_iff.1 hsplits
  rw [Piece.ofText_cons, Piece.cut_quote] at hpieces
  exact (List.cons.inj hpieces).1.symm

/-- The message about a stray character is not the one about an open string. -/
theorem stray_message_ne (ch : Char) (p : Position) :
    (CompileError.scan (.strayCharacter ch) p).message ≠ "unterminated string" := by
  intro h
  have hmessage : "unexpected character '" ++ (ch.toString ++ "'") = "unterminated string" := by
    rw [← String.append_assoc]
    exact h
  have hthird (text : String) : ("unexpected character '" ++ text).toList[2]? = some 'e' := by
    rw [String.toList_append, List.getElem?_append_left (by decide)]
    decide
  have hopen := hthird (ch.toString ++ "'")
  rw [hmessage] at hopen
  exact absurd hopen (by decide)

/-- An open string gives the last error, and no other piece gives its message. -/
theorem IsOf.errors_of_openString (h : c.IsOf source) {raw : List Char}
    (hmem : (before, .openString raw) ∈ c.placed) :
    ∃ errors, c.errors = errors ++ [.scan .openString (Position.start.after before)] ∧
      ∀ e ∈ errors, e.message ≠ "unterminated string" := by
  obtain ⟨front, behind, hplaced⟩ := List.append_of_mem hmem
  have hpieces := map_snd_withBefore c.skipped c.pieces
  rw [← placed, hplaced, List.map_append, List.map_cons] at hpieces
  have hlast := h.splits.openString_last hpieces.symm
  obtain rfl := List.map_eq_nil_iff.1 hlast
  refine ⟨_, by rw [errors, hplaced, List.filterMap_append]; rfl, ?_⟩
  intro e he
  obtain ⟨⟨before', piece⟩, hfront, herror⟩ := List.mem_filterMap.1 he
  cases piece with
  | stray ch =>
    cases herror
    exact stray_message_ne ch _
  | openString raw' =>
    -- more pieces would stand behind an open string
    obtain ⟨front', behind', rfl⟩ := List.append_of_mem hfront
    have hagain : c.pieces = front'.map Prod.snd ++
        .openString raw' :: (behind'.map Prod.snd ++ [.openString raw]) := by
      rw [← hpieces]
      simp
    simpa using h.splits.openString_last hagain
  | _ => cases herror

end Cutting

/-- A quoted text in front of another text is read as one string that stands for the text,
and the scan goes on at the other text.  A string at any quote of a source ends at the first
later quote with an even number of backslashes right before it in the string.  If there is
none, the string is open, which is the last error and the only one of its kind. -/
theorem strings_quoted :
    (∀ value following : String,
      scan (quoted value ++ following) =
        (scanBehind (quoted value).toList following.toList).map
          (⟨.string, quoted value, some (.text value),
            .ofText Position.start (quoted value).toList⟩ :: ·)) ∧
    ∀ (source : String) (c : Cutting) (before rest : List Char) (piece : Piece),
      c.IsOf source → (before, piece) ∈ c.placed → source.toList = before ++ '"' :: rest →
      (∀ i, Closes rest i → (∀ j < i, ¬ Closes rest j) →
        ∃ value, StringText (rest.take i) value ∧
          piece = .token .string ('"' :: rest.take (i + 1))
            (some (.text (String.ofList value)))) ∧
      ((∀ i, ¬ Closes rest i) →
        piece = .openString ('"' :: rest) ∧
        ∃ errors, scan source =
            .error (errors ++ [.scan .openString (Position.start.after before)]) ∧
          ∀ e ∈ errors, e.message ≠ "unterminated string") := by
  constructor
  · intro value following
    have hskip : splitShebang (quoted value ++ following).toList =
        ([], (quoted value).toList ++ following.toList) := by
      simp [quoted, splitShebang]
    rw [scan_eq_scanBehind, hskip, scanBehind_quoted, List.nil_append, Position.after_nil]
  · intro source c before rest piece hcut hmem hquote
    have hpiece := hcut.eq_cutString hmem hquote
    constructor
    · intro i hcloses hfirst
      rw [hpiece]
      exact Piece.cutString_of_closes hcloses hfirst
    · intro hopen
      have hnone : Piece.stringBody? rest = none := by
        cases hbody : Piece.stringBody? rest with
        | none => rfl
        | some body =>
          obtain ⟨raw, hraw, -, htext⟩ := stringText_of_stringBody? hbody
          exact absurd (htext ▸ (hraw.closes body.rest).1) (hopen raw.length)
      rw [Piece.cutString, hnone] at hpiece
      rw [hpiece] at hmem
      obtain ⟨errors, herrors, hmessages⟩ := hcut.errors_of_openString hmem
      refine ⟨hpiece, errors, ?_, hmessages⟩
      rw [hcut.scan_of_ne_nil (by simp [herrors]), herrors]

end Lox
