import Mathlib.Data.List.Basic

/-!
# Bracketed texts

A bracketed text is an atom, or bracketed texts with brackets around them and single spaces
between them.  An atom is a word, which has neither spaces nor brackets nor quotes, or anything
between two quotes but quotes.  So the end of an atom can be seen, and a text can be taken apart
in one way only (`Bracketed.chars_inj`).
-/

namespace Lox

/-- An atom, or a list of bracketed texts. -/
inductive Bracketed where
  | atom (text : String)
  | list (items : List Bracketed)

/-- A text without spaces, brackets, quotes and line feeds. -/
structure IsWord (text : List Char) : Prop where
  /-- There is some character. -/
  ne_nil : text ≠ []
  /-- No character ends a word. -/
  plain : ∀ c ∈ text, c ∉ [' ', '(', ')', '"', '\n']

/-- A word, or a text between quotes that has no quotes. -/
inductive IsAtom : List Char → Prop
  | word {text : List Char} (h : IsWord text) : IsAtom text
  | quoted {body : List Char} (h : '"' ∉ body) : IsAtom ('"' :: (body ++ ['"']))

/-- What can follow an atom: the end, a line feed, a space or a closing bracket. -/
def IsBreak (rest : List Char) : Prop := ∀ c ∈ rest.head?, c = ' ' ∨ c = ')' ∨ c = '\n'

namespace Bracketed

mutual
/-- The characters of a bracketed text. -/
@[simp] def chars : Bracketed → List Char
  | atom text => text.toList
  | list items => '(' :: (charsAll items ++ [')'])

/-- The characters of bracketed texts with spaces between them. -/
@[simp] def charsAll : List Bracketed → List Char
  | [] => []
  | x :: xs => x.chars ++ charsTail xs

/-- The characters of bracketed texts, each after a space. -/
@[simp] def charsTail : List Bracketed → List Char
  | [] => []
  | x :: xs => ' ' :: (x.chars ++ charsTail xs)
end

/-- The characters of bracketed texts, each in a line of its own. -/
@[simp] def charsLines : List Bracketed → List Char
  | [] => []
  | x :: xs => x.chars ++ '\n' :: charsLines xs

mutual
/-- All atoms of the text are words or quoted. -/
def Proper : Bracketed → Prop
  | atom text => IsAtom text.toList
  | list items => ProperAll items

/-- All atoms of the texts are words or quoted. -/
def ProperAll : List Bracketed → Prop
  | [] => True
  | x :: xs => x.Proper ∧ ProperAll xs
end

end Bracketed

/-! ## Atoms -/

theorem IsWord.takeWhile_eq {text rest : List Char} (h : IsWord text) (hrest : IsBreak rest) :
    (text ++ rest).takeWhile (fun c => c ≠ ' ' ∧ c ≠ ')' ∧ c ≠ '\n') = text := by
  have htext : ∀ c ∈ text, decide (c ≠ ' ' ∧ c ≠ ')' ∧ c ≠ '\n') = true := by
    intro c hc
    have := h.plain c hc
    simp_all
  rw [List.takeWhile_append_of_pos htext]
  cases rest with
  | nil => simp
  | cons c rest => rcases hrest c rfl with rfl | rfl | rfl <;> simp

/-- The first character of an atom is no bracket. -/
theorem IsAtom.head {text : List Char} (h : IsAtom text) :
    ∃ c others, text = c :: others ∧ c ≠ '(' ∧ c ≠ ')' := by
  cases h with
  | word h =>
    obtain ⟨c, others, rfl⟩ := List.exists_cons_of_ne_nil h.ne_nil
    have hc := h.plain c (.head _)
    exact ⟨c, others, rfl, by simp_all⟩
  | quoted _ => exact ⟨_, _, rfl, by decide, by decide⟩

/-- Where an atom ends can be seen. -/
theorem IsAtom.append_inj {text text' rest rest' : List Char} (h : IsAtom text)
    (h' : IsAtom text') (hrest : IsBreak rest) (hrest' : IsBreak rest')
    (heq : text ++ rest = text' ++ rest') : text = text' ∧ rest = rest' := by
  have of_word_quoted {word body r r' : List Char} (hword : IsWord word)
      (hsame : word ++ r = '"' :: (body ++ ['"']) ++ r') : False := by
    obtain ⟨c, others, rfl⟩ := List.exists_cons_of_ne_nil hword.ne_nil
    obtain rfl := (List.cons.inj hsame).1
    exact hword.plain _ (.head _) (by simp)
  have htext : text = text' := by
    cases h with
    | word h =>
      cases h' with
      | word h' =>
        have hfirst := h.takeWhile_eq hrest
        rw [heq, h'.takeWhile_eq hrest'] at hfirst
        exact hfirst.symm
      | quoted _ => exact (of_word_quoted h heq).elim
    | @quoted body hbody =>
      cases h' with
      | word h' => exact (of_word_quoted h' heq.symm).elim
      | @quoted body' hbody' =>
        have closes {body r : List Char} (hbody : '"' ∉ body) :
            (body ++ ['"'] ++ r).takeWhile (· ≠ '"') = body := by
          have hplain : ∀ c ∈ body, decide (c ≠ '"') = true := by
            intro c hc
            exact decide_eq_true fun hquote => hbody (hquote ▸ hc)
          rw [List.append_assoc, List.takeWhile_append_of_pos hplain]
          simp
        have hsame : body ++ ['"'] ++ rest = body' ++ ['"'] ++ rest' := (List.cons.inj heq).2
        have hfirst := closes (r := rest) hbody
        rw [hsame, closes hbody'] at hfirst
        rw [hfirst]
  subst htext
  exact ⟨rfl, List.append_cancel_left heq⟩

/-! ## Bracketed texts -/

namespace Bracketed

theorem isBreak_charsTail (xs : List Bracketed) (rest : List Char) :
    IsBreak (charsTail xs ++ ')' :: rest) := by
  cases xs with
  | nil =>
    rw [charsTail]
    exact fun c hc => .inr (.inl (Option.some.inj hc).symm)
  | cons x xs =>
    rw [charsTail]
    exact fun c hc => .inl (Option.some.inj hc).symm

/-- No bracketed text begins with a closing bracket. -/
theorem Proper.head {x : Bracketed} (h : x.Proper) :
    ∃ c others, x.chars = c :: others ∧ c ≠ ')' := by
  cases x with
  | atom text =>
    obtain ⟨c, others, htext, -, hc⟩ := IsAtom.head h
    exact ⟨c, others, htext, hc⟩
  | list items => exact ⟨'(', _, by rw [chars], by decide⟩

mutual
/-- Where a bracketed text ends can be seen, and the text can be taken apart in one way only. -/
theorem chars_inj {x y : Bracketed} {rest rest' : List Char} (hx : x.Proper) (hy : y.Proper)
    (hrest : IsBreak rest) (hrest' : IsBreak rest') (heq : x.chars ++ rest = y.chars ++ rest') :
    x = y ∧ rest = rest' := by
  cases x with
  | atom text =>
    cases y with
    | atom text' =>
      rw [chars, chars] at heq
      obtain ⟨htext, hsame⟩ := IsAtom.append_inj hx hy hrest hrest' heq
      rw [String.toList_injective htext]
      exact ⟨rfl, hsame⟩
    | list ys =>
      obtain ⟨c, others, htext, hc, -⟩ := IsAtom.head hx
      rw [chars, chars, htext] at heq
      exact absurd (List.cons.inj heq).1 hc
  | list xs =>
    cases y with
    | atom text' =>
      obtain ⟨c, others, htext, hc, -⟩ := IsAtom.head hy
      rw [chars, chars, htext] at heq
      exact absurd (List.cons.inj heq).1.symm hc
    | list ys =>
      rw [chars, chars] at heq
      have hitems : charsAll xs ++ [')'] ++ rest = charsAll ys ++ [')'] ++ rest' :=
        (List.cons.inj heq).2
      rw [List.append_assoc, List.append_assoc] at hitems
      obtain ⟨hxs, hsame⟩ := charsAll_inj hx hy hitems
      rw [hxs]
      exact ⟨rfl, hsame⟩

theorem charsAll_inj {xs ys : List Bracketed} {rest rest' : List Char} (hxs : ProperAll xs)
    (hys : ProperAll ys) (heq : charsAll xs ++ ')' :: rest = charsAll ys ++ ')' :: rest') :
    xs = ys ∧ rest = rest' := by
  cases xs with
  | nil =>
    cases ys with
    | nil => exact ⟨rfl, (List.cons.inj heq).2⟩
    | cons y ys =>
      obtain ⟨c, others, hy, hc⟩ := Proper.head hys.1
      rw [charsAll, charsAll, hy] at heq
      exact absurd (List.cons.inj heq).1.symm hc
  | cons x xs =>
    cases ys with
    | nil =>
      obtain ⟨c, others, hx, hc⟩ := Proper.head hxs.1
      rw [charsAll, charsAll, hx] at heq
      exact absurd (List.cons.inj heq).1 hc
    | cons y ys =>
      rw [charsAll, charsAll, List.append_assoc, List.append_assoc] at heq
      obtain ⟨hfirst, hothers⟩ := chars_inj hxs.1 hys.1 (isBreak_charsTail xs rest)
        (isBreak_charsTail ys rest') heq
      obtain ⟨hxs, hsame⟩ := charsTail_inj hxs.2 hys.2 hothers
      rw [hfirst, hxs]
      exact ⟨rfl, hsame⟩

theorem charsTail_inj {xs ys : List Bracketed} {rest rest' : List Char} (hxs : ProperAll xs)
    (hys : ProperAll ys) (heq : charsTail xs ++ ')' :: rest = charsTail ys ++ ')' :: rest') :
    xs = ys ∧ rest = rest' := by
  cases xs with
  | nil =>
    cases ys with
    | nil => exact ⟨rfl, (List.cons.inj heq).2⟩
    | cons y ys =>
      rw [charsTail, charsTail] at heq
      cases (List.cons.inj heq).1
  | cons x xs =>
    cases ys with
    | nil =>
      rw [charsTail, charsTail] at heq
      cases (List.cons.inj heq).1
    | cons y ys =>
      rw [charsTail, charsTail] at heq
      have hitems : x.chars ++ charsTail xs ++ ')' :: rest =
          y.chars ++ charsTail ys ++ ')' :: rest' := (List.cons.inj heq).2
      rw [List.append_assoc, List.append_assoc] at hitems
      obtain ⟨hfirst, hothers⟩ := chars_inj hxs.1 hys.1 (isBreak_charsTail xs rest)
        (isBreak_charsTail ys rest') hitems
      obtain ⟨hxs, hsame⟩ := charsTail_inj hxs.2 hys.2 hothers
      rw [hfirst, hxs]
      exact ⟨rfl, hsame⟩
end

/-- Lines of bracketed texts can be taken apart in one way only. -/
theorem charsLines_inj {xs ys : List Bracketed} (hxs : ProperAll xs) (hys : ProperAll ys)
    (heq : charsLines xs = charsLines ys) : xs = ys := by
  have hfeed (rest : List Char) : IsBreak ('\n' :: rest) := by simp [IsBreak]
  induction xs generalizing ys with
  | nil =>
    cases ys with
    | nil => rfl
    | cons y ys => simp at heq
  | cons x xs ih =>
    cases ys with
    | nil => simp at heq
    | cons y ys =>
      rw [charsLines, charsLines] at heq
      obtain ⟨hfirst, hothers⟩ := chars_inj hxs.1 hys.1 (hfeed _) (hfeed _) heq
      rw [hfirst, ih hxs.2 hys.2 (List.cons.inj hothers).2]

end Bracketed

end Lox
