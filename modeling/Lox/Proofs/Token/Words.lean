import Lox.Proofs.Syntax.Sound
import Lox.Token.Piece

/-!
# Tokens of a source text

The tokens of a text end in an end token and have no other one, and no identifier is
spelled like a keyword (`endsOnce_of_scan`, `keyword?_of_scan`).
-/

namespace Lox

namespace Piece

/-- The piece is no end token, and if it is an identifier, it is no keyword. -/
def IsProper : Piece → Prop
  | .token kind text _ =>
    kind ≠ .eof ∧ (kind = .identifier → Token.Kind.keyword? (String.ofList text) = none)
  | _ => True

theorem keyword?_ne_eof {word : String} {kind : Token.Kind}
    (h : Token.Kind.keyword? word = some kind) : kind ≠ .eof ∧ kind ≠ .identifier := by
  unfold Token.Kind.keyword? at h
  split at h <;> cases h <;> decide

theorem isProper_cutString (rest : List Char) : (cutString rest).1.IsProper := by
  unfold cutString
  split
  · exact ⟨by decide, fun h => by cases h⟩
  · trivial

theorem isProper_cutNumber (text : List Char) : (cutNumber text).1.IsProper := by
  unfold cutNumber
  dsimp only
  split
  · split
    · exact ⟨by decide, fun h => by cases h⟩
    · exact ⟨by decide, fun h => by cases h⟩
  · exact ⟨by decide, fun h => by cases h⟩

theorem isProper_cutWord (text : List Char) : (cutWord text).1.IsProper := by
  show _ ∧ _
  cases h : Token.Kind.keyword? (String.ofList (text.takeWhile isWordPart)) with
  | none => exact ⟨by simp [Token.Kind.ofWord, h], fun _ => rfl⟩
  | some kind =>
    obtain ⟨heof, hidentifier⟩ := keyword?_ne_eof h
    have hkind : Token.Kind.ofWord (String.ofList (text.takeWhile isWordPart)) = kind := by
      simp [Token.Kind.ofWord, h]
    rw [hkind]
    exact ⟨heof, fun heq => absurd heq hidentifier⟩

theorem isProper_cutSingle (c : Char) (rest : List Char) : (cutSingle c rest).1.IsProper := by
  unfold cutSingle
  split
  · next kind hkind =>
    unfold singleKind? at hkind
    split at hkind <;> cases hkind <;> exact ⟨by decide, fun h => by cases h⟩
  · trivial

theorem isProper_cutPunctuation (c : Char) (rest : List Char) :
    (cutPunctuation c rest).1.IsProper := by
  unfold cutPunctuation
  split
  · exact isProper_cutSingle c []
  · split
    · next kind hkind =>
      unfold pairKind? at hkind
      split at hkind <;> cases hkind <;> exact ⟨by decide, fun h => by cases h⟩
    · exact isProper_cutSingle c _

theorem isProper_cut (c : Char) (rest : List Char) : (cut c rest).1.IsProper := by
  unfold cut
  split
  · trivial
  · split
    · trivial
    · split
      · exact isProper_cutString rest
      · split
        · exact isProper_cutNumber _
        · split
          · exact isProper_cutWord _
          · exact isProper_cutPunctuation c rest

theorem isProper_of_mem_cutAll {n : Nat} {text : List Char} {piece : Piece}
    (h : piece ∈ cutAll n text) : piece.IsProper := by
  induction n generalizing text with
  | zero => cases text <;> simp [cutAll] at h
  | succ n ih =>
    cases text with
    | nil => simp [cutAll] at h
    | cons c rest =>
      rw [cutAll] at h
      rcases List.mem_cons.1 h with rfl | h
      · exact isProper_cut c rest
      · exact ih h

theorem mem_of_mem_placed {p p' : Position} {pieces : List Piece} {piece : Piece}
    (h : (p', piece) ∈ placed p pieces) : piece ∈ pieces := by
  induction pieces generalizing p with
  | nil => simp [placed] at h
  | cons first pieces ih =>
    rw [placed] at h
    rcases List.mem_cons.1 h with heq | h
    · rw [(Prod.mk.inj heq).2]
      exact List.mem_cons_self ..
    · exact List.mem_cons_of_mem _ (ih h)

end Piece

/-- A token of a source text is the one at its end, or was cut from it. -/
theorem scan_eq_ok {source : String} {tokens : List Token} (h : scan source = .ok tokens) :
    ∃ ts last, tokens = ts ++ [last] ∧ last.kind = .eof ∧
      ∀ t ∈ ts, t.kind ≠ .eof ∧
        (t.kind = .identifier → Token.Kind.keyword? t.lexeme = none) := by
  unfold scan at h
  dsimp only at h
  split at h
  · cases h
    refine ⟨_, _, rfl, rfl, fun t ht => ?_⟩
    obtain ⟨⟨p, piece⟩, hmem, htoken⟩ := List.mem_filterMap.1 ht
    have hproper := Piece.isProper_of_mem_cutAll (Piece.mem_of_mem_placed hmem)
    cases piece with
    | token kind text literal =>
      cases htoken
      exact hproper
    | _ => cases htoken
  · cases h

/-- The tokens of a text end in an end token and have no other one. -/
theorem endsOnce_of_scan {source : String} {tokens : List Token}
    (h : scan source = .ok tokens) : EndsOnce tokens := by
  obtain ⟨ts, last, htokens, hlast, hts⟩ := scan_eq_ok h
  exact ⟨ts, last, htokens, hlast, fun t ht => (hts t ht).1⟩

/-- No identifier is spelled like a keyword. -/
theorem keyword?_of_scan {source : String} {tokens : List Token}
    (h : scan source = .ok tokens) {t : Token} (ht : t ∈ tokens)
    (hkind : t.kind = .identifier) : Token.Kind.keyword? t.lexeme = none := by
  obtain ⟨ts, last, rfl, hlast, hts⟩ := scan_eq_ok h
  rcases List.mem_append.1 ht with ht | ht
  · exact (hts t ht).2 hkind
  · rw [List.mem_singleton.1 ht, hlast] at hkind
    cases hkind

end Lox
