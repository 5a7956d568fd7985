import Lox.Proofs.Syntax.Contract

/-!
# Progress of reading

What reading does to the tokens, whatever they are, as long as an end token stands last.

**Potential.** The number of errors noted and the number of tokens after the cursor are added up.
The sum never grows: an error is only noted after a token was read for it, or is followed by one
that is skipped.  A rule that gives up has read more tokens than it noted errors, or has done
nothing at all (`progress`).

**Ranks.** Rules that begin others before any token is read are ranked above these.  All ranks are
below twenty, so that twenty units of budget for each token are enough.
-/

namespace Lox

/-- An end token stands last in the list. -/
def Closed (tokens : List Token) : Prop :=
  ∃ ts last, tokens = ts ++ [last] ∧ last.kind = .eof

namespace Parser

/-- Number of tokens after the cursor. -/
def left (p : Parser) : Nat := p.later.length

/-- Number of errors noted. -/
def noted (p : Parser) : Nat := p.errors.size

/-- The cursor is at token `i` of the list, the one before it is the token before the cursor, and
no end token is among those that were read. -/
structure StandsAt (tokens : List Token) (i : Nat) (p : Parser) : Prop where
  current : tokens[i]? = some p.current
  later : tokens.drop (i + 1) = p.later
  previous : tokens[i - 1]? = some p.previous
  live : ∀ t ∈ tokens.take i, t.kind ≠ .eof

/-- The cursor is at a token of the list. -/
def Inside (tokens : List Token) (p : Parser) : Prop := ∃ i, p.StandsAt tokens i

variable {tokens : List Token} {i : Nat} {p q : Parser}

theorem StandsAt.length_eq (h : p.StandsAt tokens i) : tokens.length = i + p.left + 1 := by
  obtain ⟨hi, -⟩ := List.getElem?_eq_some_iff.1 h.current
  have hlater := congrArg List.length h.later
  rw [List.length_drop] at hlater
  rw [left, ← hlater]
  omega

/-- Only the tokens count. -/
theorem StandsAt.same (h : p.StandsAt tokens i) (hprevious : q.previous = p.previous)
    (hcurrent : q.current = p.current) (hlater : q.later = p.later) : q.StandsAt tokens i := by
  refine ⟨?_, ?_, ?_, h.live⟩
  · rw [hcurrent, h.current]
  · rw [hlater, h.later]
  · rw [hprevious, h.previous]

theorem Inside.same (h : p.Inside tokens) (hprevious : q.previous = p.previous)
    (hcurrent : q.current = p.current) (hlater : q.later = p.later) : q.Inside tokens := by
  obtain ⟨i, hi⟩ := h
  exact ⟨i, hi.same hprevious hcurrent hlater⟩

/-- The index of the token at the cursor follows from the number of tokens after it. -/
theorem Inside.standsAt (h : p.Inside tokens) :
    p.StandsAt tokens (tokens.length - (p.left + 1)) := by
  obtain ⟨i, hi⟩ := h
  rwa [hi.length_eq, Nat.add_assoc, Nat.add_sub_cancel]

/-- All tokens before the cursor are the ones before the first end token, if it is at one. -/
theorem StandsAt.takeWhile_length (h : p.StandsAt tokens i) (hend : p.kind = .eof) :
    (tokens.takeWhile (·.kind ≠ .eof)).length = i := by
  obtain ⟨hi, hcurrent⟩ := List.getElem?_eq_some_iff.1 h.current
  have hsplit : tokens = tokens.take i ++ p.current :: p.later := by
    calc tokens = tokens.take i ++ tokens.drop i := (List.take_append_drop i tokens).symm
      _ = tokens.take i ++ p.current :: p.later := by
        rw [List.drop_eq_getElem_cons hi, hcurrent, h.later]
  have hlength : (tokens.take i).length = i := by
    rw [List.length_take, h.length_eq]
    omega
  rw [hsplit, List.takeWhile_append_of_pos (by simpa using h.live),
    List.takeWhile_cons_of_neg (by simpa [kind] using hend), List.append_nil, hlength]

theorem standsAt_start (supply : Supply) (hne : tokens ≠ []) :
    (start supply tokens).StandsAt tokens 0 := by
  cases tokens with
  | nil => exact absurd rfl hne
  | cons first later => exact ⟨rfl, rfl, rfl, by simp⟩

/-! ## Moving on -/

theorem later_ne_nil (hclosed : Closed tokens)
    (h : p.Inside tokens) (hkind : p.kind ≠ .eof) : p.later ≠ [] := by
  obtain ⟨ts, last, rfl, hlast⟩ := hclosed
  obtain ⟨i, hi⟩ := h
  intro hnil
  have hlength := hi.length_eq
  rw [left, hnil, List.length_append] at hlength
  have hcurrent := hi.current
  rw [List.getElem?_append_right (by simp at hlength; omega)] at hcurrent
  simp only [List.length_singleton, List.length_nil] at hlength
  rw [show i - ts.length = 0 by omega] at hcurrent
  exact hkind (by rw [kind, ← Option.some.inj hcurrent, hlast])

/-- Moving on goes to the next token of the list, unless the cursor is at an end token. -/
theorem StandsAt.advance (hclosed : Closed tokens)
    (h : p.StandsAt tokens i) (hkind : p.kind ≠ .eof) : p.advance.StandsAt tokens (i + 1) := by
  cases hlater : p.later with
  | nil => exact absurd hlater (later_ne_nil hclosed ⟨i, h⟩ hkind)
  | cons next later =>
    have hadvance :
        p.advance = { p with previous := p.current, current := next, later := later } := by
      simp [Parser.advance, hlater, atEnd, hkind]
    have hdrop : tokens.drop (i + 1) = next :: later := h.later.trans hlater
    rw [hadvance]
    refine ⟨?_, ?_, h.current, ?_⟩
    · rw [← List.head?_drop, hdrop, List.head?_cons]
    · rw [← List.tail_drop, hdrop, List.tail_cons]
    · intro t ht
      rw [List.take_add_one, h.current] at ht
      rcases List.mem_append.1 ht with ht | ht
      · exact h.live t ht
      · obtain rfl : t = p.current := by simpa using ht
        exact hkind

theorem Inside.advance (hclosed : Closed tokens)
    (h : p.Inside tokens) : p.advance.Inside tokens := by
  by_cases hkind : p.kind = .eof
  · rwa [advance_of_eof hkind]
  · obtain ⟨i, hi⟩ := h
    exact ⟨i + 1, hi.advance hclosed hkind⟩

theorem left_advance (hclosed : Closed tokens)
    (h : p.Inside tokens) (hkind : p.kind ≠ .eof) : p.advance.left + 1 = p.left := by
  obtain ⟨i, hi⟩ := h
  have hbefore := hi.length_eq
  have hafter := (hi.advance hclosed hkind).length_eq
  omega

end Parser

/-! ## Ranks -/

/-- Tighter levels have smaller ranks. -/
def Level.rank : Level → Nat
  | .factor => 0
  | .term => 1
  | .comparison => 2
  | .equality => 3
  | .and => 4
  | .or => 5

namespace Parse

namespace Rule

/-- A rule that begins another one before any token is read has the larger rank. -/
def rank : Rule → Nat
  | call => 1
  | unary => 2
  | operand level => 3 + 2 * level.rank
  | binary level => 4 + 2 * level.rank
  | expression => 15
  | argumentValues _ => 16
  | arguments => 17
  | statement => 16
  | declaration => 17
  | blockItems => 18
  | statements => 18
  | blockBody => 19
  | methods => 1
  | properties _ | parameterNames _ | binaryTail .. | callTail _ | instantiation | primary
  | classDeclaration | functionDeclaration | function _ | block | ifStatement | whileStatement
  | forStatement => 0

theorem rank_lt (r : Rule) : r.rank < 20 := by
  cases r with
  | binary level | operand level => cases level <;> simp [rank, Level.rank]
  | _ => simp [rank]

/-- How many more tokens a rule reads than it notes errors, if it answers. -/
def least : Rule → Nat
  | properties _ | binaryTail .. | callTail _ | methods | blockItems | statements => 0
  | parameterNames _ | expression | binary _ | operand _ | unary | call | instantiation
  | arguments | argumentValues _ | primary | declaration | classDeclaration
  | functionDeclaration | function _ | blockBody | statement | block | ifStatement
  | whileStatement | forStatement => 1

/-- The rule moves past its first token without a look at it. -/
def StartsBlind : Rule → Prop
  | instantiation | classDeclaration | functionDeclaration | block | ifStatement
  | whileStatement | forStatement => True
  | properties _ | parameterNames _ | expression | binary _ | operand _ | binaryTail .. | unary
  | call | callTail _ | arguments | argumentValues _ | primary | declaration | methods
  | function _ | blockBody | blockItems | statement | statements => False

end Rule

/-! ## The potential -/

/-- Between `p` and `q`, at least `k` more tokens were read than errors were noted. -/
structure Gains (tokens : List Token) (k : Nat) (p q : Parser) : Prop where
  inside : q.Inside tokens
  noted : p.noted ≤ q.noted
  spent : q.noted + q.left + k ≤ p.noted + p.left

namespace Gains

variable {tokens : List Token} {k l : Nat} {p q q' : Parser}

theorem refl (h : p.Inside tokens) : Gains tokens 0 p p := ⟨h, Nat.le_refl _, Nat.le_refl _⟩

theorem trans (h : Gains tokens k p q) (h' : Gains tokens l q q') : Gains tokens (k + l) p q' :=
  ⟨h'.inside, Nat.le_trans h.noted h'.noted, by have := h.spent; have := h'.spent; omega⟩

theorem mono (h : Gains tokens k p q) (hle : l ≤ k) : Gains tokens l p q :=
  ⟨h.inside, h.noted, by have := h.spent; omega⟩

/-- Numbers that are taken do not count. -/
theorem numbered (h : Gains tokens k p q) (supply : Supply) :
    Gains tokens k p { q with supply := supply } :=
  ⟨h.inside.same rfl rfl rfl, h.noted, h.spent⟩

theorem left_lt (h : Gains tokens (k + 1) p q) : q.left < p.left := by
  have := h.noted
  have := h.spent
  omega

theorem left_le (h : Gains tokens k p q) : q.left ≤ p.left := by
  have := h.noted
  have := h.spent
  omega

end Gains

/-- Nothing was read and nothing was noted. -/
structure Stays (tokens : List Token) (p q : Parser) : Prop where
  inside : q.Inside tokens
  left : q.left = p.left
  noted : q.noted = p.noted

theorem Stays.refl {tokens : List Token} {p : Parser} (h : p.Inside tokens) :
    Stays tokens p p := ⟨h, rfl, rfl⟩

theorem Stays.kind_eq {tokens : List Token} {p q : Parser} (hin : p.Inside tokens)
    (h : Stays tokens p q) : q.kind = p.kind := by
  have hp := hin.standsAt.current
  have hq := h.inside.standsAt.current
  rw [h.left, hp] at hq
  exact congrArg Token.kind (Option.some.inj hq).symm

/-- What holds where a rule gives up. -/
def Rule.Stops (tokens : List Token) : Rule → Parser → Parser → Prop
  | .blockItems | .statements => fun _ _ => False
  | .blockBody => Gains tokens 0
  | .properties _ | .parameterNames _ | .expression | .binary _ | .operand _ | .binaryTail ..
  | .unary | .call | .callTail _ | .instantiation | .arguments | .argumentValues _ | .primary
  | .declaration | .classDeclaration | .methods | .functionDeclaration | .function _
  | .statement | .block | .ifStatement | .whileStatement | .forStatement => fun p q =>
    Gains tokens 1 p q ∨ Stays tokens p q

/-- What is known of the token at the cursor where a rule has answered. -/
def Rule.Finishes : Rule → Parser → Prop
  | .statements => fun p => p.kind = .eof
  | .properties _ | .parameterNames _ | .expression | .binary _ | .operand _ | .binaryTail ..
  | .unary | .call | .callTail _ | .instantiation | .arguments | .argumentValues _ | .primary
  | .declaration | .classDeclaration | .methods | .functionDeclaration | .function _
  | .blockBody | .blockItems | .statement | .block | .ifStatement | .whileStatement
  | .forStatement => fun _ => True

/-- A move that looks at the token before the cursor and takes for granted that there is one. -/
def Move.LooksBack : Move → Prop
  | .lookBack => True
  | .look | .before | .remaining | .advance | .note _ | .freshNode _ | .freshFunction => False

/-- The contract of all rules: reading stays inside the list, looks back only after a token was
read, never adds to the potential, and begins a rule only with enough budget. -/
def progress (tokens : List Token) : Contract where
  safe m p := p.Inside tokens ∧ (m.LooksBack → p.left + 1 < tokens.length)
  ready n r p := p.Inside tokens ∧ (r.StartsBlind → p.kind ≠ .eof) ∧ 20 * p.left + r.rank < n
  reads r p _ q := Gains tokens r.least p q ∧ r.Finishes q
  stops r p _ q := r.Stops tokens p q

namespace Reading

variable {α : Type} {tokens : List Token} {n k : Nat} {p q : Parser} {ok : α → Parser → Prop}
  {stop : CompileError → Parser → Prop}

/-! ## Single moves -/

/-- A move stays inside the list. -/
theorem inside_after (hclosed : Closed tokens) (h : q.Inside tokens) (m : Move) :
    (m.after q).Inside tokens := by
  obtain ⟨i, hi⟩ := h
  cases m with
  | advance => exact Parser.Inside.advance hclosed ⟨i, hi⟩
  | _ => exact Parser.Inside.same ⟨i, hi⟩ rfl rfl rfl

theorem safe_look (h : q.Inside tokens) : (progress tokens).safe .look q := ⟨h, False.elim⟩

theorem safe_before (h : q.Inside tokens) : (progress tokens).safe .before q := ⟨h, False.elim⟩

theorem obeys_look {ok : Token → Parser → Prop} (h : q.Inside tokens) (hok : ok q.current q) :
    look.Obeys (progress tokens) n ok stop q := ⟨safe_look h, hok⟩

theorem obeys_atEnd {ok : Bool → Parser → Prop} (h : q.Inside tokens)
    (hok : ok (q.kind = .eof) q) : atEnd.Obeys (progress tokens) n ok stop q := ⟨safe_look h, hok⟩

theorem obeys_peek {ok : Token.Kind → Parser → Prop} (h : q.Inside tokens) (hok : ok q.kind q) :
    peek.Obeys (progress tokens) n ok stop q := ⟨safe_look h, hok⟩

theorem obeys_here {ok : Span → Parser → Prop} (h : q.Inside tokens)
    (hok : ok q.current.span q) : here.Obeys (progress tokens) n ok stop q := ⟨safe_look h, hok⟩

theorem obeys_before {ok : Span → Parser → Prop} (h : q.Inside tokens)
    (hok : ok q.previous.span q) : before.Obeys (progress tokens) n ok stop q :=
  ⟨safe_before h, hok⟩

theorem obeys_spanFrom {ok : Span → Parser → Prop} {span : Span} (h : q.Inside tokens)
    (hok : ok (q.spanFrom span) q) : (spanFrom span).Obeys (progress tokens) n ok stop q :=
  ⟨safe_before h, hok⟩

theorem obeys_freshNode {ok : Node → Parser → Prop} {span : Span} (h : Gains tokens k p q)
    (hok : ∀ node q', Gains tokens k p q' → ok node q') :
    (freshNode span).Obeys (progress tokens) n ok stop q :=
  ⟨⟨h.inside, False.elim⟩, hok _ _ (h.numbered _)⟩

theorem obeys_freshFunction {ok : Nat → Parser → Prop} (h : Gains tokens k p q)
    (hok : ∀ number q', Gains tokens k p q' → ok number q') :
    freshFunction.Obeys (progress tokens) n ok stop q :=
  ⟨⟨h.inside, False.elim⟩, hok _ _ (h.numbered _)⟩

/-- An error takes up one token that was read. -/
theorem obeys_note {ok : Unit → Parser → Prop} {error : CompileError}
    (h : Gains tokens (k + 1) p q) (hok : ∀ q', Gains tokens k p q' → ok () q') :
    (note error).Obeys (progress tokens) n ok stop q := by
  refine ⟨⟨h.inside, False.elim⟩, hok _ ⟨h.inside.same rfl rfl rfl, ?_, ?_⟩⟩
  · have := h.noted
    simp only [Move.after, Parser.noted, Array.size_push] at *
    omega
  · have := h.spent
    simp only [Move.after, Parser.noted, Parser.left, Array.size_push] at *
    omega

theorem kind_ne {kind : Token.Kind} (h : q.kind = kind) (hkind : kind ≠ .eof) : q.kind ≠ .eof :=
  fun heq => hkind (h.symm.trans heq)

theorem gains_advance (hclosed : Closed tokens) (h : q.Inside tokens) (hkind : q.kind ≠ .eof) :
    Gains tokens 1 q q.advance := by
  have hleft := Parser.left_advance hclosed h hkind
  have hnoted : q.advance.noted = q.noted := congrArg Array.size q.errors_advance
  exact ⟨h.advance hclosed, Nat.le_of_eq hnoted.symm, by omega⟩

theorem obeys_advance {ok : Unit → Parser → Prop} (hclosed : Closed tokens)
    (h : Gains tokens k p q) (hkind : q.kind ≠ .eof)
    (hok : ∀ q', Gains tokens (k + 1) p q' → ok () q') :
    advance.Obeys (progress tokens) n ok stop q :=
  ⟨⟨h.inside, False.elim⟩, hok _ (h.trans (gains_advance hclosed h.inside hkind))⟩

theorem obeys_accept {ok : Bool → Parser → Prop} {kind : Token.Kind} (hclosed : Closed tokens)
    (hkind : kind ≠ .eof) (h : Gains tokens k p q)
    (hyes : ∀ q', Gains tokens (k + 1) p q' → ok true q') (hno : ok false q) :
    (accept kind).Obeys (progress tokens) n ok stop q := by
  rw [accept, obeys_bind]
  refine obeys_peek h.inside ?_
  split
  · next heq =>
    rw [obeys_bind]
    exact obeys_advance hclosed h (kind_ne heq hkind) hyes
  · exact hno

theorem obeys_expect {ok : Unit → Parser → Prop} {kind : Token.Kind} {missing : Missing}
    (hclosed : Closed tokens) (hkind : kind ≠ .eof) (h : Gains tokens k p q)
    (hok : ∀ q', Gains tokens (k + 1) p q' → ok () q') (hstop : ∀ e, stop e q) :
    (expect kind missing).Obeys (progress tokens) n ok stop q := by
  rw [expect, obeys_bind]
  refine obeys_peek h.inside ?_
  split
  · next heq => exact obeys_advance hclosed h (kind_ne heq hkind) hok
  · exact ⟨safe_look h.inside, hstop _⟩

theorem obeys_expectName {ok : String → Parser → Prop} {missing : Missing}
    (hclosed : Closed tokens) (h : Gains tokens k p q)
    (hok : ∀ name q', Gains tokens (k + 1) p q' → ok name q') (hstop : ∀ e, stop e q) :
    (expectName missing).Obeys (progress tokens) n ok stop q := by
  rw [expectName, obeys_bind]
  refine obeys_peek h.inside ?_
  split
  · next heq =>
    simp only [obeys_bind]
    exact obeys_look h.inside (obeys_advance hclosed h (kind_ne heq (by decide)) (hok _))
  · exact ⟨safe_look h.inside, hstop _⟩

/-- While a boundary is sought, the cursor has moved past a token, or is at an end token. -/
theorem obeys_seekBoundary {ok : Unit → Parser → Prop} (hclosed : Closed tokens) (j : Nat)
    (h : Gains tokens k p q) (hmoved : q.kind ≠ .eof → q.left + 1 < tokens.length)
    (hok : ∀ q', Gains tokens k p q' → ok () q') :
    (seekBoundary j).Obeys (progress tokens) n ok stop q := by
  induction j generalizing q with
  | zero => exact hok q h
  | succ j ih =>
    simp only [seekBoundary, obeys_bind]
    refine obeys_look h.inside ?_
    split
    · exact hok q h
    · next hkind =>
      have hback := hmoved hkind
      rw [obeys_bind]
      refine ⟨⟨h.inside, fun _ => hback⟩, ?_⟩
      show Obeys _ _ _ _ (ite _ _ _) _
      split
      · exact hok q h
      · rw [obeys_bind]
        have hnext := gains_advance hclosed h.inside hkind
        have hlt := hnext.left_lt
        exact ⟨⟨h.inside, False.elim⟩,
          ih ((h.trans hnext).mono (Nat.le_add_right k 1))
            fun _ => show q.advance.left + 1 < tokens.length by omega⟩

/-- Looking for a boundary skips the token at the cursor. -/
theorem obeys_synchronize {ok : Unit → Parser → Prop} (hclosed : Closed tokens)
    (h : Gains tokens k p q) (hskip : q.kind ≠ .eof → ∀ q', Gains tokens (k + 1) p q' → ok () q')
    (hend : q.kind = .eof → ∀ q', Gains tokens k p q' → ok () q') :
    synchronize.Obeys (progress tokens) n ok stop q := by
  rw [synchronize, obeys_bind]
  refine ⟨⟨h.inside, False.elim⟩, ?_⟩
  show Obeys _ _ _ _ (_ >>= _) q.advance
  rw [obeys_bind]
  refine ⟨⟨h.inside.advance hclosed, False.elim⟩, ?_⟩
  show Obeys _ _ _ _ (seekBoundary q.advance.left) q.advance
  by_cases hkind : q.kind = .eof
  · rw [Parser.advance_of_eof hkind]
    exact obeys_seekBoundary hclosed _ h (absurd hkind) (hend hkind)
  · have hnext := gains_advance hclosed h.inside hkind
    obtain ⟨i, hi⟩ := h.inside
    have hlength := hi.length_eq
    have hlt := hnext.left_lt
    exact obeys_seekBoundary hclosed _ (h.trans hnext) (fun _ => by omega) (hskip hkind)

end Reading

end Parse

end Lox
