import Lox.Proofs.Action
import Lox.Syntax.Parser

/-!
# Laws of reading

What each basic action of reading does.

**Remaining tokens.** Only the tokens from the cursor on decide what is read.  The
cursor moves along them one by one, as long as an end token stands last.
-/

namespace Lox

namespace Parse

variable {α : Type}

@[simp] theorem fail_apply (fault : SyntaxFault) (p : Parser) :
    (fail fault : Parse α) p = .error (.parse fault p.current) p := rfl

@[simp] theorem note_apply (error : CompileError) (p : Parser) :
    note error p = .ok () { p with errors := p.errors.push error } := rfl

@[simp] theorem peek_apply (p : Parser) : peek p = .ok p.kind p := rfl

@[simp] theorem here_apply (p : Parser) : here p = .ok p.current.span p := rfl

@[simp] theorem before_apply (p : Parser) : before p = .ok p.previous.span p := rfl

@[simp] theorem spanFrom_apply (span : Span) (p : Parser) :
    spanFrom span p = .ok (p.spanFrom span) p := rfl

@[simp] theorem advance_apply (p : Parser) : advance p = .ok () p.advance := rfl

@[simp] theorem freshNode_apply (span : Span) (p : Parser) :
    freshNode span p =
      .ok ⟨p.supply.node, span⟩ { p with supply.node := p.supply.node + 1 } := rfl

@[simp] theorem freshFunction_apply (p : Parser) :
    freshFunction p =
      .ok p.supply.function { p with supply.function := p.supply.function + 1 } := rfl

theorem accept_apply (kind : Token.Kind) (p : Parser) :
    accept kind p =
      if p.kind = kind then .ok true p.advance else .ok false p := by
  rw [accept, bind_of_ok (peek_apply p)]
  split
  · rfl
  · rfl

theorem expect_apply (kind : Token.Kind) (missing : Missing) (p : Parser) :
    expect kind missing p =
      if p.kind = kind then .ok () p.advance
      else .error (.parse (.expected missing) p.current) p := by
  rw [expect, bind_of_ok (peek_apply p)]
  split
  · rfl
  · rfl

theorem expectName_apply (missing : Missing) (p : Parser) :
    expectName missing p =
      if p.kind = .identifier then .ok p.current.lexeme p.advance
      else .error (.parse (.expected missing) p.current) p := by
  rw [expectName, bind_of_ok (peek_apply p)]
  split
  · rfl
  · rfl

theorem attempt_of_ok {x : Parse α} {p p' : Parser} {a : α} (h : x p = .ok a p') :
    attempt x p = .ok (.ok a) p' := by
  simp [attempt, h]

theorem attempt_of_error {x : Parse α} {p p' : Parser} {e : CompileError}
    (h : x p = .error e p') : attempt x p = .ok (.error e) p' := by
  simp [attempt, h]

theorem seekBoundary_succ (k : Nat) (p : Parser) :
    seekBoundary (k + 1) p =
      if p.atEnd || p.previous.kind = .semicolon || isBoundary p.kind then .ok () p
      else seekBoundary k p.advance := by
  rw [seekBoundary, bind_of_ok (get_apply p)]
  split <;> rfl

theorem seekBoundary_of_eof {p : Parser} (hkind : p.kind = .eof) (k : Nat) :
    seekBoundary k p = .ok () p := by
  cases k with
  | zero => rfl
  | succ k =>
    rw [seekBoundary_succ, if_pos]
    simp [Parser.atEnd, hkind]

theorem synchronize_apply (p : Parser) :
    synchronize p = seekBoundary p.advance.later.length p.advance := rfl

end Parse

/-! ## Moving on -/

namespace Parser

/-- The tokens from the cursor on. -/
def rest (p : Parser) : List Token := p.current :: p.later

/-- The last of the remaining tokens is an end token. -/
def Ended (p : Parser) : Prop :=
  ∃ ts last, p.rest = ts ++ [last] ∧ last.kind = .eof

theorem rest_start (supply : Supply) {tokens : List Token} (h : tokens ≠ []) :
    (start supply tokens).rest = tokens := by
  obtain ⟨t, ts, rfl⟩ := List.exists_cons_of_ne_nil h
  rfl

@[simp] theorem errors_start (supply : Supply) (tokens : List Token) :
    (start supply tokens).errors = #[] := by
  cases tokens <;> rfl

@[simp] theorem supply_advance (p : Parser) : p.advance.supply = p.supply := by
  unfold advance
  split
  · rfl
  · split <;> rfl

@[simp] theorem errors_advance (p : Parser) : p.advance.errors = p.errors := by
  unfold advance
  split
  · rfl
  · split <;> rfl

theorem advance_of_eof {p : Parser} (hkind : p.kind = .eof) : p.advance = p := by
  unfold advance
  split
  · rfl
  · simp [atEnd, hkind]

theorem advance_of_later {p : Parser} (hlater : p.later = []) : p.advance = p := by
  simp [advance, hlater]

theorem current_eq {p : Parser} {t : Token} {ts : List Token} (h : p.rest = t :: ts) :
    p.current = t := (List.cons.inj h).1

theorem kind_eq {p : Parser} {t : Token} {ts : List Token} (h : p.rest = t :: ts) :
    p.kind = t.kind := by
  rw [kind, current_eq h]

/-- Moving on drops the token at the cursor, unless it ends the list. -/
theorem rest_advance {p : Parser} {t next : Token} {ts : List Token}
    (h : p.rest = t :: next :: ts) (hkind : t.kind ≠ .eof) : p.advance.rest = next :: ts := by
  obtain ⟨hcurrent, hlater⟩ := List.cons.inj h
  rw [advance, hlater]
  simp [rest, atEnd, kind, hcurrent, hkind]

theorem previous_advance {p : Parser} {t next : Token} {ts : List Token}
    (h : p.rest = t :: next :: ts) (hkind : t.kind ≠ .eof) : p.advance.previous = t := by
  obtain ⟨hcurrent, hlater⟩ := List.cons.inj h
  rw [advance, hlater]
  simp [atEnd, kind, hcurrent, hkind]

theorem Ended.rest_advance {p : Parser} (hended : p.Ended) (hkind : p.kind ≠ .eof) :
    p.rest = p.current :: p.advance.rest := by
  obtain ⟨ts, last, hrest, hlast⟩ := hended
  cases hlater : p.later with
  | nil =>
    rw [rest, hlater] at hrest
    cases ts with
    | nil =>
      have hcurrent : p.current = last := (List.cons.inj hrest).1
      rw [kind, hcurrent] at hkind
      exact absurd hlast hkind
    | cons t ts => simp at hrest
  | cons next later =>
    have hcons : p.rest = p.current :: next :: later := by rw [rest, hlater]
    rw [Parser.rest_advance hcons hkind, hcons]

theorem Ended.advance {p : Parser} (hended : p.Ended) : p.advance.Ended := by
  by_cases hkind : p.kind = .eof
  · rwa [advance_of_eof hkind]
  · have hrest := hended.rest_advance hkind
    obtain ⟨ts, last, hlist, hlast⟩ := hended
    rw [hlist] at hrest
    cases ts with
    | nil => simp [rest] at hrest
    | cons t ts =>
      exact ⟨ts, last, (List.cons.inj hrest).2.symm, hlast⟩

end Parser

end Lox
