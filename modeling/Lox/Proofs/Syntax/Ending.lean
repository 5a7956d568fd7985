import Lox.Proofs.Syntax.ProgressStatement

/-!
# Reading comes to an end

The budget is never used up, whatever the tokens are, and reading ends at the first end token with
no more errors than tokens before that one (`reading_ends_inside`).
-/

namespace Lox

namespace Parse

/-! ## The course of reading a list -/

section Course

variable {tokens : List Token} (hclosed : Closed tokens)

include hclosed in
/-- What is begun has less to read, or as much and the smaller rank. -/
theorem weight_lt_of_mem_begun {n : Nat} {r s : Rule} {p q : Parser}
    (hready : (progress tokens).ready (n + 1) r p)
    (hmem : (s, q) ∈ (Reading.ofRule r).begun n p) :
    20 * q.left + s.rank < 20 * p.left + r.rank := by
  have hkept := Reading.progress_kept hclosed
  -- the rule is looked at with no more budget than it needs
  have hleast : (progress tokens).ready (20 * p.left + r.rank + 1) r p :=
    ⟨hready.1, hready.2.1, Nat.lt_succ_self _⟩
  have hup : ∀ t o, (progress tokens).ready (20 * p.left + r.rank) t o →
      (progress tokens).ready n t o := fun t o h =>
    ⟨h.1, h.2.1, Nat.lt_of_lt_of_le h.2.2 (Nat.le_of_lt_succ hready.2.2)⟩
  exact (hkept.ready_of_mem_begun hup (hkept.succ r _ p hleast) hmem).2.2

include hclosed in
theorem weight_lt_of_reaches {n m : Nat} {r s : Rule} {p q : Parser}
    (hready : (progress tokens).ready n r p) (h : Reaches n r p m s q) :
    (m = n ∧ s = r ∧ q = p) ∨
      (m < n ∧ 20 * q.left + s.rank < 20 * p.left + r.rank) := by
  induction h with
  | self => exact .inl ⟨rfl, rfl, rfl⟩
  | step before hmem ih =>
    have hnext := weight_lt_of_mem_begun hclosed
      ((Reading.progress_kept hclosed).ready_of_reaches hready before) hmem
    rcases ih with ⟨rfl, rfl, rfl⟩ | ⟨hm, hlt⟩
    · exact .inr ⟨Nat.lt_succ_self _, hnext⟩
    · exact .inr ⟨by omega, by omega⟩

theorem ready_start (supply : Supply) (hne : tokens ≠ []) :
    (progress tokens).ready (budget tokens) .statements (Parser.start supply tokens) := by
  have hstart := Parser.standsAt_start supply hne
  have hlength := hstart.length_eq
  refine ⟨⟨0, hstart⟩, False.elim, ?_⟩
  simp only [Rule.rank, budget]
  omega

theorem later_advance_length_le {p : Parser} {k : Nat} (hle : p.later.length ≤ k + 1)
    (hend : p.kind ≠ .eof) : p.advance.later.length ≤ k := by
  unfold Parser.advance
  cases hlater : p.later with
  | nil => simp [hlater]
  | cons next later =>
    rw [hlater, List.length_cons] at hle
    simpa [Parser.atEnd, hend] using Nat.le_of_succ_le_succ hle

theorem seekBoundary_succ_eq {k : Nat} {p : Parser} (hle : p.later.length ≤ k) :
    seekBoundary (k + 1) p = seekBoundary k p := by
  induction k generalizing p with
  | zero =>
    have hlater : p.later = [] := List.length_eq_zero_iff.1 (Nat.le_zero.1 hle)
    have hadvance : p.advance = p := by simp [Parser.advance, hlater]
    rw [seekBoundary_succ, hadvance]
    split <;> rfl
  | succ k ih =>
    rw [seekBoundary_succ (k + 1) p, seekBoundary_succ k p]
    split
    · rfl
    · next hgo =>
      refine ih (later_advance_length_le hle fun hend => hgo ?_)
      simp [Parser.atEnd, hend]

/-- Any bound that is large enough gives the same boundary. -/
theorem seekBoundary_eq_of_le {p : Parser} {k : Nat} (hle : p.later.length ≤ k) :
    seekBoundary k p = seekBoundary p.later.length p := by
  induction hle with
  | refl => rfl
  | step hle ih => exact (seekBoundary_succ_eq hle).trans ih

include hclosed in
/-- Reading ends at the first end token, and more budget makes no difference.  No rule begins
without budget; every move is made inside the list and stays there, and only after a token was
read does one look back.  A rule that begins again in its own course, as a loop does for another
round, has read a token in between.  Boundaries are found before the bound on the search is used
up.  And there are at most as many errors as tokens before the first end token. -/
theorem reading_ends_inside (supply : Supply) :
    let start := Parser.start supply tokens
    let n := budget tokens
    (∃ program p i, p.StandsAt tokens i ∧ p.kind = .eof ∧
      ∀ m, n ≤ m → Parse.statements m start = .ok program p) ∧
    (∀ m r p, Reaches n .statements start m r p → ∃ k, m = k + 1 ∧
      ∀ move q, (move, q) ∈ (Reading.ofRule r).moves k p →
        ∃ i j, q.StandsAt tokens i ∧ (move.after q).StandsAt tokens j ∧
          (move = .lookBack → 1 ≤ i)) ∧
    (∀ m r p k q, Reaches n .statements start m r p → Reaches m r p k r q → k ≠ m →
      ∃ i j, p.StandsAt tokens i ∧ q.StandsAt tokens j ∧ i < j) ∧
    (∀ p k, p.later.length ≤ k → seekBoundary k p = seekBoundary p.later.length p) ∧
    (Parsed.ofTokens supply tokens).errors.length
      ≤ (tokens.takeWhile (·.kind ≠ .eof)).length := by
  intro start n
  have hne : tokens ≠ [] := by
    obtain ⟨ts, last, rfl, -⟩ := hclosed
    simp
  have hkept := Reading.progress_kept hclosed
  have hready : (progress tokens).ready n .statements start := ready_start supply hne
  have hstart : start.StandsAt tokens 0 := Parser.standsAt_start supply hne
  have hrun : ∃ program p, Parse.statements n start = .ok program p ∧
      Gains tokens 0 start p ∧ p.kind = .eof := by
    have hends := hkept.ends hready
    cases h : Rule.statements.run n start with
    | ok program p =>
      rw [h] at hends
      exact ⟨program, p, h, hends.1, hends.2⟩
    | error e p =>
      rw [h] at hends
      exact absurd hends id
  obtain ⟨program, p, hprogram, hgains, hend⟩ := hrun
  obtain ⟨i, hi⟩ := hgains.inside
  refine ⟨⟨program, p, i, hi, hend, fun m hm => ?_⟩, ?_, ?_, fun _ _ => seekBoundary_eq_of_le, ?_⟩
  · have hzero : ∀ r p, ¬ (progress tokens).ready 0 r p := fun r p h => Nat.not_lt_zero _ h.2.2
    exact (hkept.run_eq hzero hready hm).trans hprogram
  · intro m r p hreach
    have hbegun := hkept.ready_of_reaches hready hreach
    cases m with
    | zero => exact absurd hbegun.2.2 (Nat.not_lt_zero _)
    | succ k =>
      refine ⟨k, rfl, fun move q hmem => ?_⟩
      obtain ⟨⟨i, hi⟩, hback⟩ := hkept.safe_of_mem_moves (hkept.succ r k p hbegun) hmem
      obtain ⟨j, hj⟩ := Reading.inside_after hclosed ⟨i, hi⟩ move
      refine ⟨i, j, hi, hj, fun heq => ?_⟩
      have hlength := hi.length_eq
      have := hback (heq ▸ trivial)
      omega
  · intro m r p k q hreach hagain hk
    have hbegun := hkept.ready_of_reaches hready hreach
    have hnext := hkept.ready_of_reaches hbegun hagain
    obtain ⟨i, hi⟩ := hbegun.1
    obtain ⟨j, hj⟩ := hnext.1
    refine ⟨i, j, hi, hj, ?_⟩
    rcases weight_lt_of_reaches hclosed hbegun hagain with ⟨heq, -⟩ | ⟨-, hlt⟩
    · exact absurd heq hk
    · have hleft := hi.length_eq
      have hleft' := hj.length_eq
      omega
  · have herrors : (Parsed.ofTokens supply tokens).errors.length = p.noted := by
      have hparsed : Parsed.ofTokens supply tokens
          = ⟨⟨program⟩, p.errors.toList, p.supply⟩ := by
        rw [Parsed.ofTokens, hprogram]
      rw [hparsed]
      exact Array.length_toList
    have hspent := hgains.spent
    have hfirst := hstart.length_eq
    have hlast := hi.length_eq
    have hnone : start.noted = 0 := by cases tokens <;> rfl
    rw [herrors, hi.takeWhile_length hend]
    omega

/-- An end token before the last one, and nothing that could be read. -/
theorem reading_ends_inside_parens :
    let paren : Token := ⟨.rightParen, ")", none, ⟨0, 1, 1⟩⟩
    let stop : Token := ⟨.eof, "", none, ⟨1, 0, 1⟩⟩
    Closed [paren, stop, paren, stop] ∧
      (Parsed.ofTokens .initial [paren, stop, paren, stop]).errors.length ≤ 1 := by
  intro paren stop
  have hclosed : Closed [paren, stop, paren, stop] := ⟨[paren, stop, paren], stop, rfl, rfl⟩
  exact ⟨hclosed, (reading_ends_inside hclosed .initial).2.2.2.2⟩

end Course

end Parse

end Lox
