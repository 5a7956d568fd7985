import Lox.Proofs.Syntax.Cursor

/-!
# Going on after an error

After an error the token at the cursor is skipped, and then the rest of a statement.  Which tokens
are left depends on the tokens alone, and `resume` says which (`synchronize_rest`).

**The first token.** The token at the cursor is skipped whatever it is, even if a statement
begins with it.  So what is left of a statement that begins there is what comes after the first
boundary inside of it, or behind it if there is none (`resume_skips`).
-/

namespace Lox

namespace Parse

/-- The tokens that are left when the rest of a statement is skipped, given the token before them.
The last token is never skipped. -/
def resume (previous : Token) : List Token → List Token
  | t :: next :: ts =>
    if t.kind = .eof ∨ previous.kind = .semicolon ∨ isBoundary t.kind then t :: next :: ts
    else resume t (next :: ts)
  | ts => ts

theorem resume_singleton (previous t : Token) : resume previous [t] = [t] := rfl

/-! ## Skipping -/

theorem seekBoundary_rest {p : Parser} {k : Nat} (hk : p.later.length ≤ k) :
    ∃ q, seekBoundary k p = .ok () q ∧ q.rest = resume p.previous p.rest ∧
      q.errors = p.errors := by
  induction k generalizing p with
  | zero =>
    have hlater : p.later = [] := List.length_eq_zero_iff.1 (Nat.le_zero.1 hk)
    exact ⟨p, rfl, by rw [Parser.rest, hlater, resume_singleton], rfl⟩
  | succ k ih =>
    rw [seekBoundary_succ]
    cases hlater : p.later with
    | nil =>
      rw [Parser.advance_of_later hlater]
      split
      · exact ⟨p, rfl, by rw [Parser.rest, hlater, resume_singleton], rfl⟩
      · exact ih (by simp [hlater])
    | cons next later =>
      have hrest : p.rest = p.current :: next :: later := by rw [Parser.rest, hlater]
      rw [hrest, resume]
      have hsame : (p.atEnd || p.previous.kind = .semicolon || isBoundary p.kind) = true ↔
          p.current.kind = .eof ∨ p.previous.kind = .semicolon ∨ isBoundary p.current.kind := by
        simp only [Parser.atEnd, Bool.or_eq_true, decide_eq_true_eq, or_assoc]
        rfl
      by_cases hstop : p.current.kind = .eof ∨ p.previous.kind = .semicolon ∨
          isBoundary p.current.kind
      · rw [if_pos (hsame.2 hstop), if_pos hstop]
        exact ⟨p, rfl, hrest, rfl⟩
      · rw [if_neg (mt hsame.1 hstop), if_neg hstop]
        have hlive : p.current.kind ≠ .eof := fun heof => hstop (.inl heof)
        have hadvance := Parser.rest_advance hrest hlive
        have hlength := congrArg List.length hadvance
        simp only [Parser.rest, List.length_cons, Nat.add_right_cancel_iff] at hlength
        rw [hlater, List.length_cons] at hk
        obtain ⟨q, hrun, hq, herrors⟩ := ih (p := p.advance) (by omega)
        rw [hadvance, Parser.previous_advance hrest hlive] at hq
        exact ⟨q, hrun, hq, herrors.trans p.errors_advance⟩

/-- The token at the cursor is skipped, and after it the rest of a statement. -/
theorem synchronize_rest {p : Parser} {t next : Token} {ts : List Token}
    (hp : p.rest = t :: next :: ts) (hlive : t.kind ≠ .eof) :
    ∃ q, synchronize p = .ok () q ∧ q.rest = resume t (next :: ts) ∧ q.errors = p.errors := by
  obtain ⟨q, hrun, hq, herrors⟩ := seekBoundary_rest (Nat.le_refl p.advance.later.length)
  rw [Parser.rest_advance hp hlive, Parser.previous_advance hp hlive] at hq
  exact ⟨q, (synchronize_apply p).trans hrun, hq, herrors.trans p.errors_advance⟩

theorem statements_of_ok {n : Nat} {p q : Parser} {s : Stmt} (hlive : p.kind ≠ .eof)
    (h : declaration n p = .ok s q) : statements (n + 1) p = ((s :: ·) <$> statements n) q := by
  rw [statements, bind_of_ok (get_apply p), if_neg (by simp [Parser.atEnd, hlive]),
    bind_of_ok (attempt_of_ok h), map_eq_pure_bind]

theorem statements_of_error {n : Nat} {p q q' : Parser} {e : CompileError}
    (hlive : p.kind ≠ .eof) (h : declaration n p = .error e q)
    (hskip : synchronize { q with errors := q.errors.push e } = .ok () q') :
    statements (n + 1) p = statements n q' := by
  rw [statements, bind_of_ok (get_apply p), if_neg (by simp [Parser.atEnd, hlive]),
    bind_of_ok (attempt_of_error h)]
  dsimp only
  rw [bind_of_ok (note_apply e q), bind_of_ok hskip]

/-- In a block, a closing brace is not skipped. -/
theorem blockItems_of_error {n : Nat} {p q q' : Parser} {e : CompileError}
    (hlive : p.kind ≠ .eof ∧ p.kind ≠ .rightBrace) (h : declaration n p = .error e q)
    (hbrace : q.kind ≠ .rightBrace)
    (hskip : synchronize { q with errors := q.errors.push e } = .ok () q') :
    blockItems (n + 1) p = blockItems n q' := by
  have hstays : ({ q with errors := q.errors.push e } : Parser).kind ≠ .rightBrace := hbrace
  rw [blockItems, bind_of_ok (get_apply p), bind_of_ok (peek_apply p),
    if_neg (by simp [Parser.atEnd, hlive.1, hlive.2]), bind_of_ok (attempt_of_error h)]
  dsimp only
  rw [bind_of_ok (note_apply e q), bind_of_ok (peek_apply _), if_pos hstays,
    bind_of_ok hskip]

/-! ## What is left -/

/-- Kinds of tokens that are skipped. -/
def isSkipped : Token.Kind → Bool
  | .semicolon | .eof => false
  | kind => !isBoundary kind

theorem isSkipped_iff {kind : Token.Kind} :
    isSkipped kind = true ↔ kind ≠ .semicolon ∧ kind ≠ .eof ∧ isBoundary kind = false := by
  cases kind <;> decide

theorem resume_of_semicolon {previous : Token} (h : previous.kind = .semicolon)
    (ts : List Token) : resume previous ts = ts := by
  unfold resume
  split
  · rw [if_pos (.inr (.inl h))]
  · rfl

/-- What is skipped goes up to the first semicolon, if no boundary comes before. -/
theorem resume_skips {previous semicolon : Token} {ts us : List Token}
    (hprevious : previous.kind ≠ .semicolon) (hts : ∀ t ∈ ts, isSkipped t.kind = true)
    (hsemicolon : semicolon.kind = .semicolon) (hus : us ≠ []) :
    resume previous (ts ++ semicolon :: us) = us := by
  induction ts generalizing previous with
  | nil =>
    obtain ⟨next, us, rfl⟩ := List.exists_cons_of_ne_nil hus
    rw [List.nil_append, resume, if_neg (by simp [hsemicolon, hprevious, isBoundary]),
      resume_of_semicolon hsemicolon]
  | cons t ts ih =>
    obtain ⟨hkind, hlive, hboundary⟩ := isSkipped_iff.1 (hts t List.mem_cons_self)
    have hothers := ih hkind fun t' ht' => hts t' (List.mem_cons_of_mem t ht')
    obtain ⟨next, vs, hnext⟩ : ∃ next vs, ts ++ semicolon :: us = next :: vs :=
      List.exists_cons_of_ne_nil (by simp)
    rw [hnext] at hothers
    rw [List.cons_append, hnext, resume, if_neg (by simp [hlive, hprevious, hboundary]), hothers]

/-- Tokens are skipped from the front. -/
theorem resume_suffix (previous : Token) (ts : List Token) : resume previous ts <:+ ts := by
  induction ts generalizing previous with
  | nil => exact List.suffix_refl []
  | cons t ts ih =>
    cases ts with
    | nil => exact List.suffix_refl [t]
    | cons next ts =>
      rw [resume]
      split
      · exact List.suffix_refl _
      · exact (ih t).trans (List.suffix_cons t (next :: ts))

theorem resume_ne_nil {previous : Token} {ts : List Token} (h : ts ≠ []) :
    resume previous ts ≠ [] := by
  induction ts generalizing previous with
  | nil => exact absurd rfl h
  | cons t ts ih =>
    cases ts with
    | nil => exact h
    | cons next ts =>
      rw [resume]
      split
      · exact h
      · exact ih (List.cons_ne_nil next ts)

end Parse

end Lox
