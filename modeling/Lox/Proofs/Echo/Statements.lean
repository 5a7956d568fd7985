import Lox.Proofs.Echo.Lines
import Lox.Proofs.Matching.Joining
import Lox.Proofs.Syntax.Semicolon

/-!
# Lines that begin with an expression

If a program does not begin with a brace or an opening word, its first statement is an expression
with a semicolon.  With the word `print` in front of the program, it is printed instead
(`Grammar.Items.printed`).  The last token of a program is a semicolon or a closing brace
(`Grammar.Items.terminated`).
-/

namespace Lox

open Parse Grammar

/-! ## First and last tokens -/

namespace Grammar

theorem Derives.items {ts : List Token} {last : Token} {tree : Program}
    (h : Derives (ts ++ [last]) tree) : Items ts tree.statements := by
  generalize htokens : ts ++ [last] = tokens at h
  obtain ⟨hitems, -⟩ := h
  obtain ⟨rfl, -⟩ := List.append_inj' htokens rfl
  exact hitems

/-- A program of one expression statement is the expression with a semicolon behind it. -/
theorem Items.of_expression {ts : List Token} {e : Expr}
    (h : Items ts [.expression e .blank]) :
    ∃ us semicolon, ts = us ++ [semicolon] ∧ Reads .assignment us e ∧
      semicolon.kind = .semicolon := by
  generalize hs : Stmt.expression e .blank = s at h
  cases h with
  | cons hfirst hothers =>
    cases hothers
    cases hfirst with
    | «class» | function => cases hs
    | var hvar => cases hvar <;> cases hs
    | statement hstates =>
      cases hstates with
      | expression hexpression =>
        obtain ⟨hvalue, hsemicolon⟩ := hexpression
        cases hs
        exact ⟨_, _, List.append_nil _, hvalue, hsemicolon⟩
      | «for» =>
        unfold loopTree at hs
        split at hs <;> cases hs
      | _ => cases hs

/-- A program that does not begin with a brace or an opening word begins with an expression
statement.  With `print` in front, its value is printed. -/
theorem Items.printed {first word : Token} {ts : List Token} {ss : List Stmt}
    (h : Items (first :: ts) ss) (hopening : Echo.isOpening first.kind = false)
    (hbrace : first.kind ≠ .leftBrace) (hword : word.kind = .print) :
    ∃ value others, ss = .expression value .blank :: others ∧
      Items (word :: first :: ts) (.print value .blank :: others) := by
  generalize htokens : first :: ts = tokens at h ⊢
  have other {t : Token} {us : List Token} (heq : first :: ts = t :: us)
      (ht : Echo.isOpening t.kind = true ∨ t.kind = .leftBrace) : False := by
    obtain rfl := (List.cons.inj heq).1
    rcases ht with ht | ht
    · rw [hopening] at ht
      cases ht
    · exact hbrace ht
  cases h with
  | nil => cases htokens
  | @cons _ us _ ss hfirst hothers =>
    cases hfirst with
    | «class» hkind => exact (other htokens (.inl (by rw [hkind]; rfl))).elim
    | function hkind => exact (other htokens (.inl (by rw [hkind]; rfl))).elim
    | var hvar =>
      cases hvar with
      | bare hkind => exact (other htokens (.inl (by rw [hkind]; rfl))).elim
      | initialized hkind => exact (other htokens (.inl (by rw [hkind]; rfl))).elim
    | statement hstates =>
      cases hstates with
      | expression hexpression =>
        obtain ⟨hvalue, hsemicolon⟩ := hexpression
        have hprinted := Items.cons (.statement (.print hword hvalue hsemicolon)) hothers
        exact ⟨_, ss, rfl, by simpa using hprinted⟩
      | print hkind => exact (other htokens (.inl (by rw [hkind]; rfl))).elim
      | «return» hkind => exact (other htokens (.inl (by rw [hkind]; rfl))).elim
      | block hkind => exact (other htokens (.inr hkind)).elim
      | ifThen hkind => exact (other htokens (.inl (by rw [hkind]; rfl))).elim
      | ifElse hkind => exact (other htokens (.inl (by rw [hkind]; rfl))).elim
      | «while» hkind => exact (other htokens (.inl (by rw [hkind]; rfl))).elim
      | «for» hkind => exact (other htokens (.inl (by rw [hkind]; rfl))).elim

/-- The tokens end in a semicolon or a closing brace. -/
def Terminated (ts : List Token) : Prop :=
  ∃ front last, ts = front ++ [last] ∧ (last.kind = .semicolon ∨ last.kind = .rightBrace)

theorem Terminated.kind {ts : List Token} {last : Token} (h : Terminated ts)
    (hlast : ts.getLast? = some last) : last.kind = .semicolon ∨ last.kind = .rightBrace := by
  obtain ⟨front, last', rfl, hkind⟩ := h
  rw [List.getLast?_concat] at hlast
  cases hlast
  exact hkind

theorem Terminated.of_suffix {ts us : List Token} (h : Terminated ts) (hsuffix : ts <:+ us) :
    Terminated us := by
  obtain ⟨front, last, rfl, hlast⟩ := h
  obtain ⟨others, rfl⟩ := hsuffix
  exact ⟨others ++ front, last, by simp, hlast⟩

theorem Terminated.of_semicolon {last : Token} (h : last.kind = .semicolon)
    (front : List Token) : Terminated (front ++ [last]) :=
  ⟨front, last, rfl, .inl h⟩

theorem Terminated.of_rightBrace {last : Token} (h : last.kind = .rightBrace)
    (front : List Token) : Terminated (front ++ [last]) :=
  ⟨front, last, rfl, .inr h⟩

theorem Terminated.behind {ts : List Token} (h : Terminated ts) (front : List Token)
    (t : Token) : Terminated (front ++ t :: ts) :=
  h.of_suffix ((List.suffix_cons _ _).trans (List.suffix_append _ _))

theorem ExpressionStatement.terminated {ts : List Token} {s : Stmt}
    (h : ExpressionStatement ts s) : Terminated ts := by
  obtain ⟨-, hsemicolon⟩ := h
  exact .of_semicolon hsemicolon _

theorem VarDeclaration.terminated {ts : List Token} {s : Stmt} (h : VarDeclaration ts s) :
    Terminated ts := by
  cases h with
  | bare _ _ hsemicolon => exact .of_semicolon hsemicolon [_, _]
  | initialized _ _ _ _ hsemicolon => exact .of_semicolon hsemicolon _

theorem States.terminated {isOpen : Bool} {ts : List Token} {s : Stmt}
    (h : States isOpen ts s) : Terminated ts := by
  cases h with
  | expression h => exact h.terminated
  | print _ _ hsemicolon | «return» _ _ hsemicolon => exact .of_semicolon hsemicolon _
  | block _ _ hright => exact .of_rightBrace hright _
  | ifThen _ _ _ _ hbody | «while» _ _ _ _ hbody => exact hbody.terminated.behind _ _
  | ifElse _ _ _ _ _ _ hbody | «for» _ _ _ _ _ _ _ hbody => exact hbody.terminated.behind _ _
termination_by ts.length
decreasing_by all_goals simp; omega

theorem Declares.terminated {ts : List Token} {s : Stmt} (h : Declares ts s) :
    Terminated ts := by
  cases h with
  | «class» _ _ _ _ hright => exact .of_rightBrace hright _
  | function _ hdecl =>
    obtain ⟨_, _, _, _, _, _, hright⟩ := hdecl
    exact (Terminated.of_rightBrace hright _).behind [] _
  | var h => exact h.terminated
  | statement h => exact h.terminated

theorem Items.eq_nil_iff {ts : List Token} {ss : List Stmt} (h : Items ts ss) :
    ts = [] ↔ ss = [] := by
  cases h with
  | nil => simp
  | cons hfirst _ =>
    obtain ⟨front, last, rfl, -⟩ := hfirst.terminated
    simp

/-- The last token of a program is a semicolon or a closing brace. -/
theorem Items.terminated {ts : List Token} {ss : List Stmt} (h : Items ts ss) (hne : ts ≠ []) :
    Terminated ts := by
  induction ss generalizing ts with
  | nil =>
    cases h
    exact absurd rfl hne
  | cons s ss ih =>
    cases h with
    | @cons ts us _ _ hfirst hothers =>
      by_cases hnil : us = []
      · rw [hnil, List.append_nil]
        exact hfirst.terminated
      · exact (ih hothers hnil).of_suffix (List.suffix_append _ _)

end Grammar

/-- The tokens of a line that make up a program are read as this program. -/
theorem Scanned.exists_read {line : List Char} {pieces : List Piece} {ts : List Token}
    {ss : List Stmt} (h : Scanned line pieces ts) (hitems : Items ts ss) :
    ∃ tokens, scan (String.ofList line) = .ok tokens ∧ ∀ supply : Supply,
      (Parsed.ofTokens supply tokens).errors = [] ∧
        (Parsed.ofTokens supply tokens).program.bare = ⟨ss⟩ := by
  obtain ⟨tokens, hscan, hwords⟩ := h.scans
  have hderives : Derives (ts ++ [Token.endAt .start]) ⟨ss⟩ := .mk hitems rfl
  refine ⟨tokens, hscan, Parsed.complete_words hderives ?_⟩
  rw [hwords, List.map_append]
  rfl

end Lox
