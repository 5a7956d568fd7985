import Lox.Proofs.Token.Lexemes

/-!
# Splitting a text

Each piece that is cut from a text fits in front of the rest, and nothing of the text is
lost.  The other way round, only one piece fits at any place, so that a text is split in
exactly one way (`Piece.splits_iff`).
-/

namespace Lox

namespace Piece

/-! ## Nothing is lost -/

theorem text_cutString (rest : List Char) :
    (cutString rest).1.text ++ (cutString rest).2 = '"' :: rest := by
  unfold cutString
  split
  · next body hbody =>
    obtain ⟨raw, -, hraw, rfl⟩ := stringText_of_stringBody? hbody
    simp [text, hraw]
  · simp [text]

theorem text_cutNumber (text : List Char) :
    (cutNumber text).1.text ++ (cutNumber text).2 = text := by
  have hall := List.takeWhile_append_dropWhile (p := Char.isDigit) (l := text)
  unfold cutNumber
  dsimp only
  split
  · next d rest hrest =>
    rw [hrest] at hall
    split
    · simp only [Piece.text, List.append_assoc, List.cons_append,
        List.takeWhile_append_dropWhile]
      exact hall
    · exact hall
  · exact hall

theorem text_cutSingle (c : Char) (rest : List Char) :
    (cutSingle c rest).1.text ++ (cutSingle c rest).2 = c :: rest := by
  unfold cutSingle
  split <;> rfl

theorem text_cutPunctuation (c : Char) (rest : List Char) :
    (cutPunctuation c rest).1.text ++ (cutPunctuation c rest).2 = c :: rest := by
  unfold cutPunctuation
  split
  · exact text_cutSingle c []
  · split
    · rfl
    · exact text_cutSingle c _

/-- A piece and what is left of a text make up the text. -/
theorem text_cut (c : Char) (rest : List Char) :
    (cut c rest).1.text ++ (cut c rest).2 = c :: rest := by
  unfold cut
  split
  · simp [text]
  · split
    · simp [text]
    · split
      · next hquote =>
        subst hquote
        exact text_cutString rest
      · split
        · exact text_cutNumber _
        · split
          · exact List.takeWhile_append_dropWhile
          · exact text_cutPunctuation c rest

/-! ## Each piece is as long as it can be -/

theorem startsNoLexeme_of_stringBody? {rest : List Char} (h : stringBody? rest = none) :
    StartsNoLexeme ('"' :: rest) := by
  intro kind lexeme literal hlexeme hstarts
  obtain ⟨raw, value, hraw, -, rfl, -⟩ := hlexeme.of_quote hstarts
  obtain ⟨-, after, rfl⟩ := List.cons_prefix_cons.1 hstarts
  rw [List.append_assoc, List.singleton_append, hraw.stringBody? after] at h
  cases h

theorem fits_cutString (rest : List Char) : (cutString rest).1.Fits (cutString rest).2 := by
  unfold cutString
  split
  · next body hbody =>
    obtain ⟨raw, hraw, hbodyRaw, rfl⟩ := stringText_of_stringBody? hbody
    have htext : '"' :: body.raw ++ body.rest = '"' :: (raw ++ '"' :: body.rest) := by
      simp [hbodyRaw]
    refine ⟨?_, ?_, ?_⟩
    · rw [hbodyRaw]
      exact .string hraw
    · rw [htext]
      intro kind other literal hother hstarts
      obtain ⟨raw', value', hraw', -, rfl, -⟩ := hother.of_quote hstarts
      obtain ⟨-, after, hafter⟩ := List.cons_prefix_cons.1 hstarts
      rw [List.append_assoc, List.singleton_append] at hafter
      rw [hbodyRaw, (hraw.unique hraw' hafter.symm).1]
    · rw [htext]
      simp
  · next hnone => exact ⟨rfl, rfl, startsNoLexeme_of_stringBody? hnone⟩

theorem not_comment_of_isDigit {c : Char} {rest : List Char} (hc : c.isDigit) :
    ¬ ['/', '/'] <+: c :: rest := by
  intro h
  obtain ⟨rfl, -⟩ := List.cons_prefix_cons.1 h
  cases hc

/-- Digits and a fraction are as long as any number there. -/
theorem isLongest_fraction {whole fraction rest : List Char} {c : Char} {text : List Char}
    (hc : c.isDigit) (htext : c :: text = whole ++ '.' :: fraction ++ rest)
    (hwhole : ∀ d ∈ whole, d.isDigit) (hfraction : ∀ d ∈ fraction, d.isDigit)
    (hrest : ∀ d ∈ rest.head?, d.isDigit = false) :
    IsLongest (whole ++ '.' :: fraction) (c :: text) := by
  have hpoint (more : List Char) : ∀ d ∈ ('.' :: more).head?, d.isDigit = false := by simp
  have hall : c :: text = whole ++ '.' :: (fraction ++ rest) := by simp [htext]
  intro kind other literal hother hstarts
  rcases hother.of_digit hc hstarts with
    ⟨-, hdigits, -⟩ | ⟨whole', fraction', hwhole', -, hfraction', -, rfl, -⟩
  · have hle := length_le_takeWhile hdigits hstarts
    rw [hall, takeWhile_of_stop hwhole (hpoint _)] at hle
    simp only [List.length_append, List.length_cons]
    omega
  · obtain ⟨after, hafter⟩ := hstarts
    have hall' : c :: text = whole' ++ '.' :: (fraction' ++ after) := by simp [← hafter]
    have heq : whole' = whole := by
      rw [← takeWhile_of_stop hwhole' (hpoint (fraction' ++ after)), ← hall', hall,
        takeWhile_of_stop hwhole (hpoint _)]
    subst heq
    have htail : fraction' ++ after = fraction ++ rest := by
      rw [hall] at hall'
      simpa using hall'.symm
    have hle := length_le_takeWhile hfraction' ⟨after, htail⟩
    rw [takeWhile_of_stop hfraction hrest] at hle
    simp only [List.length_append, List.length_cons]
    omega

/-- Digits are as long as any number there, unless a point and a digit follow. -/
theorem isLongest_whole {whole rest : List Char} {c : Char} {text : List Char}
    (hc : c.isDigit) (htext : c :: text = whole ++ rest) (hwhole : ∀ d ∈ whole, d.isDigit)
    (hrest : ∀ d ∈ rest.head?, d.isDigit = false)
    (hpoint : ∀ d more, rest = '.' :: d :: more → d.isDigit = false) :
    IsLongest whole (c :: text) := by
  intro kind other literal hother hstarts
  rcases hother.of_digit hc hstarts with
    ⟨-, hdigits, -⟩ | ⟨whole', fraction', hwhole', hne, hfraction', -, rfl, -⟩
  · have hle := length_le_takeWhile hdigits hstarts
    rwa [htext, takeWhile_of_stop hwhole hrest] at hle
  · obtain ⟨after, hafter⟩ := hstarts
    have hall' : whole ++ rest = whole' ++ '.' :: (fraction' ++ after) := by
      rw [← htext, ← hafter]
      simp
    have hstop : ∀ d ∈ ('.' :: (fraction' ++ after)).head?, d.isDigit = false := by simp
    have htail : rest = '.' :: (fraction' ++ after) := by
      rw [← dropWhile_of_stop hwhole hrest, hall', dropWhile_of_stop hwhole' hstop]
    obtain ⟨d, fraction', rfl⟩ := List.exists_cons_of_ne_nil hne
    have hd := hfraction' d (List.mem_cons_self ..)
    rw [hpoint d (fraction' ++ after) htail] at hd
    cases hd

theorem fits_cutNumber {c : Char} {text : List Char} (hc : c.isDigit) :
    (cutNumber (c :: text)).1.Fits (cutNumber (c :: text)).2 := by
  have hall := List.takeWhile_append_dropWhile (p := Char.isDigit) (l := c :: text)
  have hwhole : ∀ d ∈ (c :: text).takeWhile Char.isDigit, d.isDigit := fun d hd =>
    of_mem_takeWhile hd
  have hne : (c :: text).takeWhile Char.isDigit ≠ [] := by simp [hc]
  have hstop : ∀ d ∈ ((c :: text).dropWhile Char.isDigit).head?, d.isDigit = false :=
    fun d hd => not_of_head?_dropWhile hd
  unfold cutNumber
  dsimp only
  -- digits that stand alone
  have whole_fits {rest : List Char}
      (hrest : (c :: text).dropWhile Char.isDigit = rest)
      (hpoint : ∀ d more, rest = '.' :: d :: more → d.isDigit = false) :
      (Piece.token .number ((c :: text).takeWhile Char.isDigit)
        (some (.ofWhole ((c :: text).takeWhile Char.isDigit)))).Fits rest := by
    subst hrest
    refine ⟨.whole hne hwhole, ?_, ?_⟩
    · rw [hall]
      exact isLongest_whole hc hall.symm hwhole hstop hpoint
    · rw [hall]
      exact not_comment_of_isDigit hc
  split
  · next d rest hrest =>
    split
    · next hd =>
      have hsplit := List.takeWhile_append_dropWhile (p := Char.isDigit) (l := d :: rest)
      have htext : c :: text = (c :: text).takeWhile Char.isDigit ++
          '.' :: (d :: rest).takeWhile Char.isDigit ++ (d :: rest).dropWhile Char.isDigit := by
        rw [List.append_assoc, List.cons_append, hsplit, ← hrest, hall]
      have hfraction : ∀ d' ∈ (d :: rest).takeWhile Char.isDigit, d'.isDigit := fun d' hd' =>
        of_mem_takeWhile hd'
      refine ⟨.fraction hne hwhole (by simp [hd]) hfraction, ?_, ?_⟩
      · rw [← htext]
        exact isLongest_fraction hc htext hwhole hfraction fun d' hd' => not_of_head?_dropWhile hd'
      · rw [← htext]
        exact not_comment_of_isDigit hc
    · next hd =>
      refine whole_fits hrest ?_
      intro d' more heq
      cases heq
      exact Bool.eq_false_iff.2 hd
  · next hpoint =>
    refine whole_fits rfl ?_
    intro d more heq
    exact (hpoint d more heq).elim

theorem fits_cutWord {c : Char} {text : List Char} (hc : c.isAlpha) :
    (cutWord (c :: text)).1.Fits (cutWord (c :: text)).2 := by
  have hall := List.takeWhile_append_dropWhile (p := isWordPart) (l := c :: text)
  have hpart : isWordPart c = true := by simp [isWordPart, hc]
  show Lexeme _ _ _ ∧ IsLongest _ (_ ++ (c :: text).dropWhile isWordPart) ∧
    ¬ ['/', '/'] <+: _ ++ (c :: text).dropWhile isWordPart
  rw [hall]
  refine ⟨?_, ?_, ?_⟩
  · rw [List.takeWhile_cons_of_pos hpart]
    exact .word hc fun d hd => of_mem_takeWhile hd
  · intro kind other literal hother hstarts
    exact length_le_takeWhile (hother.of_alpha hc hstarts).1 hstarts
  · intro h
    obtain ⟨rfl, -⟩ := List.cons_prefix_cons.1 h
    cases hc

/-- A single character fits if no operator of two characters stands there. -/
theorem fits_cutSingle {c : Char} {rest : List Char} (hblank : isBlank c = false)
    (hcomment : ¬ ['/', '/'] <+: c :: rest) (hquote : c ≠ '"') (hdigit : ¬ c.isDigit)
    (halpha : ¬ c.isAlpha) (hpair : ∀ d ∈ rest.head?, pairKind? c d = none) :
    (cutSingle c rest).1.Fits (cutSingle c rest).2 := by
  have not_pair {d : Char} {kind : Token.Kind} (hstarts : [c, d] <+: c :: rest) :
      pairKind? c d ≠ some kind := by
    obtain ⟨-, hstarts⟩ := List.cons_prefix_cons.1 hstarts
    cases rest with
    | nil => simp at hstarts
    | cons d' rest =>
      obtain ⟨rfl, -⟩ := List.cons_prefix_cons.1 hstarts
      rw [hpair d rfl]
      simp
  unfold cutSingle
  split
  · next kind hkind =>
    refine ⟨.single hkind, ?_, hcomment⟩
    intro kind' other literal hother hstarts
    obtain ⟨-, ⟨d, rfl, hpairKind⟩ | ⟨rfl, -⟩⟩ := hother.of_other hquote hdigit halpha hstarts
    · exact absurd hpairKind (not_pair hstarts)
    · exact Nat.le_refl _
  · next hsingle =>
    refine ⟨hblank, hquote, ?_⟩
    intro kind lexeme literal hlexeme hstarts
    obtain ⟨-, ⟨d, rfl, hpairKind⟩ | ⟨-, hkind⟩⟩ :=
      hlexeme.of_other hquote hdigit halpha hstarts
    · exact not_pair hstarts hpairKind
    · rw [hsingle] at hkind
      cases hkind

theorem fits_cutPunctuation {c : Char} {rest : List Char} (hblank : isBlank c = false)
    (hcomment : ¬ ['/', '/'] <+: c :: rest) (hquote : c ≠ '"') (hdigit : ¬ c.isDigit)
    (halpha : ¬ c.isAlpha) : (cutPunctuation c rest).1.Fits (cutPunctuation c rest).2 := by
  unfold cutPunctuation
  split
  · exact fits_cutSingle hblank hcomment hquote hdigit halpha (by simp)
  · next d rest =>
    split
    · next kind hkind =>
      refine ⟨.pair hkind, ?_, hcomment⟩
      intro kind' other literal hother hstarts
      obtain ⟨-, ⟨d', rfl, -⟩ | ⟨rfl, -⟩⟩ := hother.of_other hquote hdigit halpha hstarts
      · exact Nat.le_refl _
      · exact Nat.le_succ _
    · next hnone =>
      refine fits_cutSingle hblank hcomment hquote hdigit halpha ?_
      intro d' hd'
      cases hd'
      exact hnone

theorem comment_iff {c : Char} {rest : List Char} :
    ['/', '/'] <+: c :: rest ↔ c = '/' ∧ rest.head? = some '/' := by
  cases rest with
  | nil => simp
  | cons d rest => simp [List.cons_prefix_cons, eq_comm]

/-- The piece that is cut from a text fits in front of the rest. -/
theorem fits_cut (c : Char) (rest : List Char) : (cut c rest).1.Fits (cut c rest).2 := by
  unfold cut
  split
  · next hblank =>
    refine ⟨by simp, ?_, fun d hd => not_of_head?_dropWhile hd⟩
    intro d hd
    rcases List.mem_cons.1 hd with rfl | hd
    · exact hblank
    · exact of_mem_takeWhile hd
  · next hblank =>
    split
    · next hcomment =>
      obtain ⟨rfl, hhead⟩ := hcomment
      cases rest with
      | nil => cases hhead
      | cons d rest =>
        cases hhead
        refine ⟨⟨rest.takeWhile (· ≠ '\n'), by simp, ?_⟩, ?_⟩
        · intro hmem
          simpa using of_mem_takeWhile hmem
        · intro d hd
          simpa using not_of_head?_dropWhile hd
    · next hcomment =>
      rw [← comment_iff] at hcomment
      split
      · exact fits_cutString rest
      · next hquote =>
        split
        · next hdigit => exact fits_cutNumber hdigit
        · next hdigit =>
          split
          · next halpha => exact fits_cutWord halpha
          · next halpha =>
            exact fits_cutPunctuation (Bool.eq_false_iff.2 hblank) hcomment hquote hdigit
              halpha

/-! ## Only one piece fits -/

theorem Fits.text_ne_nil {piece : Piece} {rest : List Char} (h : piece.Fits rest) :
    piece.text ≠ [] := by
  cases piece with
  | blank text => exact h.1
  | comment text =>
    obtain ⟨⟨line, rfl, -⟩, -⟩ := h
    simp [text]
  | token kind text literal => exact h.1.ne_nil
  | stray c => simp [text]
  | openString text =>
    intro hnil
    have hhead := h.1
    rw [show text = [] from hnil] at hhead
    cases hhead

/-- What the first characters of a text say about a piece that stands there. -/
def Begins (c : Char) (text : List Char) : Piece → Prop
  | blank _ => isBlank c
  | comment _ => isBlank c = false ∧ ['/', '/'] <+: c :: text
  | token .. => isBlank c = false ∧ ¬ ['/', '/'] <+: c :: text ∧ ¬ StartsNoLexeme (c :: text)
  | stray _ => isBlank c = false ∧ c ≠ '"' ∧ StartsNoLexeme (c :: text)
  | openString _ => c = '"' ∧ StartsNoLexeme (c :: text)

theorem Fits.begins {piece : Piece} {rest text : List Char} {c : Char} (h : piece.Fits rest)
    (htext : piece.text ++ rest = c :: text) : piece.Begins c text := by
  cases piece with
  | blank t =>
    obtain ⟨hne, hblank, -⟩ := h
    obtain ⟨d, others, rfl⟩ := List.exists_cons_of_ne_nil hne
    obtain ⟨rfl, -⟩ := List.cons.inj htext
    exact hblank _ (List.mem_cons_self ..)
  | comment t =>
    obtain ⟨⟨line, rfl, -⟩, -⟩ := h
    obtain ⟨rfl, rfl⟩ := List.cons.inj htext
    exact ⟨rfl, by simp⟩
  | token kind t literal =>
    obtain ⟨hlexeme, -, hcomment⟩ := h
    have hstarts : t <+: t ++ rest := List.prefix_append ..
    rw [show t ++ rest = c :: text from htext] at hstarts hcomment
    exact ⟨hlexeme.not_blank hstarts, hcomment,
      fun hnone => hnone kind t literal hlexeme hstarts⟩
  | stray d =>
    obtain ⟨rfl, rfl⟩ := List.cons.inj htext
    exact h
  | openString t =>
    obtain ⟨hhead, rfl, hnone⟩ := h
    rw [List.append_nil] at htext
    rw [show t = c :: text from htext] at hhead hnone
    exact ⟨by simpa using hhead, hnone⟩

theorem not_startsNoLexeme_of_comment {text : List Char} (h : ['/', '/'] <+: text) :
    ¬ StartsNoLexeme text := by
  obtain ⟨rest, rfl⟩ := h
  exact fun hnone => hnone .slash ['/'] none (.single rfl) (by simp)

theorem not_newline_of_not_mem {line : List Char} (h : '\n' ∉ line) :
    ∀ c ∈ line, (decide (c ≠ '\n')) = true := by
  intro c hc
  rw [decide_eq_true_eq]
  rintro rfl
  exact h hc

/-- At most one piece fits at any place. -/
theorem Fits.unique {piece piece' : Piece} {rest rest' : List Char} (h : piece.Fits rest)
    (h' : piece'.Fits rest') (heq : piece.text ++ rest = piece'.text ++ rest') :
    piece = piece' ∧ rest = rest' := by
  obtain ⟨c, others, hothers⟩ := List.exists_cons_of_ne_nil h.text_ne_nil
  have htext : piece.text ++ rest = c :: (others ++ rest) := by simp [hothers]
  have hbegins := h.begins htext
  have hbegins' := h'.begins (heq ▸ htext)
  -- the first characters exclude pieces of different classes
  have hcomment : ['/', '/'] <+: c :: (others ++ rest) →
      ¬ StartsNoLexeme (c :: (others ++ rest)) := not_startsNoLexeme_of_comment
  have hquote : isBlank '"' = false := rfl
  cases piece <;> cases piece' <;> simp only [Piece.text, Begins] at heq hbegins hbegins' <;>
    try grind
  case blank.blank t t' =>
    obtain ⟨-, hblank, hrest⟩ := h
    obtain ⟨-, hblank', hrest'⟩ := h'
    have ht : t = t' := by
      rw [← takeWhile_of_stop hblank hrest, heq, takeWhile_of_stop hblank' hrest']
    subst ht
    exact ⟨rfl, List.append_cancel_left heq⟩
  case comment.comment t t' =>
    obtain ⟨⟨line, rfl, hline⟩, hrest⟩ := h
    obtain ⟨⟨line', rfl, hline'⟩, hrest'⟩ := h'
    have hline := not_newline_of_not_mem hline
    have hline' := not_newline_of_not_mem hline'
    have hlines : line ++ rest = line' ++ rest' := by simpa using heq
    have hstop : ∀ c ∈ rest.head?, decide (c ≠ '\n') = false := by simpa using hrest
    have ht : line = line' := by
      rw [← takeWhile_of_stop hline hstop, hlines,
        takeWhile_of_stop hline' (by simpa using hrest')]
    subst ht
    exact ⟨rfl, List.append_cancel_left heq⟩
  case token.token kind t literal kind' t' literal' =>
    obtain ⟨hlexeme, hlongest, -⟩ := h
    obtain ⟨hlexeme', hlongest', -⟩ := h'
    have hlength : t.length = t'.length := by
      apply Nat.le_antisymm
      · exact hlongest' kind t literal hlexeme (by rw [← heq]; exact List.prefix_append ..)
      · exact hlongest kind' t' literal' hlexeme' (by rw [heq]; exact List.prefix_append ..)
    obtain ⟨rfl, rfl⟩ := List.append_inj heq hlength
    obtain ⟨rfl, rfl⟩ := hlexeme.unique hlexeme'
    exact ⟨rfl, rfl⟩
  case openString.openString t t' =>
    obtain ⟨-, rfl, -⟩ := h
    obtain ⟨-, rfl, -⟩ := h'
    simpa using heq

/-! ## The splitting of a text -/

theorem splits_cutAll {n : Nat} {text : List Char} (h : text.length ≤ n) :
    Splits (cutAll n text) text := by
  induction n generalizing text with
  | zero =>
    obtain rfl := List.length_eq_zero_iff.1 (Nat.le_zero.1 h)
    exact .nil
  | succ n ih =>
    cases text with
    | nil => exact .nil
    | cons c rest =>
      have hfits := fits_cut c rest
      have htext := text_cut c rest
      have hlength : (cut c rest).2.length ≤ n := by
        have hpos := List.length_pos_iff.2 hfits.text_ne_nil
        have hsum := congrArg List.length htext
        simp only [List.length_append, List.length_cons] at hsum h
        omega
      have hsplits := Splits.cons hfits (ih hlength)
      rwa [htext] at hsplits

theorem splits_ofText (text : List Char) : Splits (ofText text) text :=
  splits_cutAll (Nat.le_refl _)

theorem Splits.unique {pieces pieces' : List Piece} {text : List Char}
    (h : Splits pieces text) (h' : Splits pieces' text) : pieces = pieces' := by
  induction h generalizing pieces' with
  | nil =>
    generalize htext : ([] : List Char) = text at h'
    cases h' with
    | nil => rfl
    | cons hfits => exact absurd (List.append_eq_nil_iff.1 htext.symm).1 hfits.text_ne_nil
  | @cons piece pieces rest hfits hrest ih =>
    generalize htext : piece.text ++ rest = text at h'
    cases h' with
    | nil => exact absurd (List.append_eq_nil_iff.1 htext).1 hfits.text_ne_nil
    | cons hfits' hrest' =>
      obtain ⟨rfl, rfl⟩ := hfits.unique hfits' htext
      rw [ih hrest']

/-- The pieces of a text are its only splitting into pieces that fit. -/
theorem splits_iff {pieces : List Piece} {text : List Char} :
    Splits pieces text ↔ ofText text = pieces := by
  constructor
  · exact fun h => (splits_ofText text).unique h
  · rintro rfl
    exact splits_ofText text

end Piece

end Lox
