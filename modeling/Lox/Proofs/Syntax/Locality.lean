import Lox.Proofs.Syntax.Progress

/-!
# Tokens that are not reached

What a rule does is decided by the tokens up to where it ends.  If it ends before the last token,
it does the same with other tokens in place of that one (`Contract.Kept.run_replaceLast`), and
also after other errors.  Only a rule that counts the tokens after the cursor could tell.
-/

namespace Lox

/-- The same outcome in a changed state. -/
def onState {ε σ α : Type} (f : σ → σ) : EStateM.Result ε σ α → EStateM.Result ε σ α
  | .ok a s => .ok a (f s)
  | .error e s => .error e (f s)

namespace Parser

/-- Other tokens stand in place of the last one, and other errors were noted before. -/
def replaceLast (us : List Token) (es : Array CompileError) (p : Parser) : Parser :=
  { p with later := p.later.dropLast ++ us, errors := es ++ p.errors }

theorem left_advance_le (p : Parser) : p.advance.left ≤ p.left := by
  obtain ⟨previous, current, later, supply, errors⟩ := p
  cases later with
  | nil => exact Nat.le_refl _
  | cons next later =>
    simp only [advance, left]
    split <;> simp

theorem advance_replaceLast {us : List Token} {es : Array CompileError} {p : Parser}
    (hkind : p.kind ≠ .eof) (hleft : 0 < p.advance.left) :
    (p.replaceLast us es).advance = p.advance.replaceLast us es := by
  obtain ⟨previous, current, later, supply, errors⟩ := p
  cases later with
  | nil => simp [left, advance] at hleft
  | cons next later =>
    cases later with
    | nil =>
      have hend : current.kind ≠ .eof := hkind
      simp [left, advance, atEnd, kind, hend] at hleft
    | cons next' later =>
      have hend : current.kind ≠ .eof := hkind
      simp [advance, replaceLast, atEnd, kind, hend]

end Parser

namespace Parse

variable {n : Nat}

/-! ## The cursor moves forward -/

theorem Move.left_after_le (m : Move) (p : Parser) : (m.after p).left ≤ p.left := by
  cases m with
  | advance => exact p.left_advance_le
  | _ => exact Nat.le_refl _

theorem Rule.left_endState_le (n : Nat) (r : Rule) (p : Parser) :
    (endState (r.run n) p).left ≤ p.left :=
  r.kept_by_moves (I := fun q => q.left ≤ p.left)
    (fun m q hq => Nat.le_trans (m.left_after_le q) hq) (Nat.le_refl p.left)

theorem Reading.left_endState_le {α : Type} (x : Reading α) (p : Parser) :
    (endState (x.run n) p).left ≤ p.left :=
  x.kept_by_moves (I := fun q => q.left ≤ p.left)
    (fun m q hq => Nat.le_trans (m.left_after_le q) hq)
    (fun r q hq => Nat.le_trans (r.left_endState_le n q) hq) (Nat.le_refl p.left)

/-! ## Other tokens in place of the last one -/

section

variable {us : List Token} {es : Array CompileError} {p : Parser}

theorem Move.answer_replaceLast {m : Move} (hcount : m ≠ .remaining) :
    m.answer (p.replaceLast us es) = m.answer p := by
  cases m with
  | remaining => exact absurd rfl hcount
  | _ => rfl

theorem Move.after_replaceLast {m : Move} (hkind : m = .advance → p.kind ≠ .eof)
    (hleft : 0 < (m.after p).left) :
    m.after (p.replaceLast us es) = (m.after p).replaceLast us es := by
  cases m with
  | advance => exact Parser.advance_replaceLast (hkind rfl) hleft
  | note error => simp [Move.after, Parser.replaceLast]
  | _ => rfl

end

namespace Contract.Kept

variable {c : Contract} {us : List Token} {es : Array CompileError} {p : Parser} {r : Rule}
  {α : Type}

theorem run_reading_replaceLast (hc : c.Kept)
    (hsafe : ∀ m p, c.safe m p → m ≠ .remaining ∧ (m = .advance → p.kind ≠ .eof))
    (hrules : ∀ (r : Rule) p, c.ready n r p → 0 < (endState (r.run n) p).left →
      r.run n (p.replaceLast us es) = onState (Parser.replaceLast us es) (r.run n p))
    {x : Reading α} {ok : α → Parser → Prop} {stop : CompileError → Parser → Prop}
    (hx : x.Obeys c n ok stop p) (hleft : 0 < (endState (x.run n) p).left) :
    x.run n (p.replaceLast us es) = onState (Parser.replaceLast us es) (x.run n p) := by
  have hforward := Reading.left_endState_le (n := n) (α := α)
  induction x generalizing p with
  | answer a => rfl
  | fail fault => rfl
  | move m next ih =>
    obtain ⟨hcount, hkind⟩ := hsafe m p hx.1
    have hlive : 0 < (m.after p).left :=
      Nat.lt_of_lt_of_le hleft (hforward (next (m.answer p)) (m.after p))
    have hafter : m.after (p.replaceLast us es) = (m.after p).replaceLast us es :=
      Move.after_replaceLast hkind hlive
    show (next (m.answer (p.replaceLast us es))).run n (m.after (p.replaceLast us es)) = _
    rw [Move.answer_replaceLast hcount, hafter]
    exact ih _ hx.2 hleft
  | begin r next ih =>
    have hrule := hrules r p hx.1
    rw [Reading.run] at hleft ⊢
    cases h : r.run n p with
    | ok a q =>
      rw [endState_bind_of_ok h] at hleft
      rw [h, endState_of_ok h] at hrule
      rw [bind_of_ok h, bind_of_ok (hrule (Nat.lt_of_lt_of_le hleft (hforward _ _)))]
      exact ih a (hx.2.1 a q (hc.reads_of_ok hx.1 h)) hleft
    | error e q =>
      rw [endState_bind_of_error h] at hleft
      rw [h, endState_of_error h] at hrule
      rw [bind_of_error h, bind_of_error (hrule hleft)]
      rfl
  | attempt r next ih =>
    have hrule := hrules r p hx.1
    rw [Reading.run] at hleft ⊢
    cases h : r.run n p with
    | ok a q =>
      rw [endState_bind_of_ok (attempt_of_ok h)] at hleft
      rw [h, endState_of_ok h] at hrule
      have hrun := hrule (Nat.lt_of_lt_of_le hleft (hforward _ _))
      rw [bind_of_ok (attempt_of_ok h), bind_of_ok (attempt_of_ok hrun)]
      exact ih (.ok a) (hx.2.1 a q (hc.reads_of_ok hx.1 h)) hleft
    | error e q =>
      rw [endState_bind_of_ok (attempt_of_error h)] at hleft
      rw [h, endState_of_error h] at hrule
      have hrun := hrule (Nat.lt_of_lt_of_le hleft (hforward _ _))
      rw [bind_of_ok (attempt_of_error h), bind_of_ok (attempt_of_error hrun)]
      exact ih (.error e) (hx.2.2 e q (hc.stops_of_error hx.1 h)) hleft

/-- A rule that ends before the last token does the same with other tokens in its place, unless
the tokens are counted on the way. -/
theorem run_replaceLast (hc : c.Kept)
    (hsafe : ∀ m p, c.safe m p → m ≠ .remaining ∧ (m = .advance → p.kind ≠ .eof))
    (hready : c.ready n r p) (hleft : 0 < (endState (r.run n) p).left) :
    r.run n (p.replaceLast us es) = onState (Parser.replaceLast us es) (r.run n p) := by
  induction n generalizing r p with
  | zero =>
    obtain ⟨fault, hrun⟩ := r.run_zero
    rw [hrun, hrun]
    rfl
  | succ n ih =>
    rw [r.run_succ] at hleft ⊢
    exact hc.run_reading_replaceLast hsafe (fun r p => ih) (hc.succ r n p hready) hleft

end Contract.Kept

end Parse

end Lox
