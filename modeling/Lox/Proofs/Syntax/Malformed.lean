import Lox.Proofs.Syntax.Progress

/-!
# Malformed statements

A malformed statement ends with its only semicolon, and nothing in it could begin another
statement or open a block.  So a rule that begins inside of it either gives up there, with an
error at one of its tokens, or ends just behind the semicolon (`within`); it never goes on to what
follows.
-/

namespace Lox

namespace Parse

/-! ## Malformed statements -/

/-- Tokens up to their only semicolon, among which no other statement begins. -/
structure StatementLike (faulty : List Token) : Prop where
  /-- The last token is the only semicolon. -/
  semicolon : ∃ body last, faulty = body ++ [last] ∧ last.kind = .semicolon ∧
    ∀ t ∈ body, t.kind ≠ .semicolon
  /-- There are no braces. -/
  braceless : ∀ t ∈ faulty, t.kind ≠ .leftBrace ∧ t.kind ≠ .rightBrace
  /-- They neither go on with an `if` nor begin a `for`. -/
  first : ∀ t ts, faulty = t :: ts → t.kind ≠ .else ∧ t.kind ≠ .for
  /-- No token but the first one is a keyword that begins a statement. -/
  others : ∀ t ∈ faulty.tail, isBoundary t.kind = false

/-- A malformed statement: read by itself, it is no declaration. -/
structure Malformed (faulty : List Token) : Prop extends StatementLike faulty where
  /-- In front of an end token, a declaration that begins there gives up with an error. -/
  fails : ∃ last e p, last.kind = .eof ∧ declaration (budget (faulty ++ [last]))
    (Parser.start .initial (faulty ++ [last])) = .error e p

/-- Tokens that are skipped up to their semicolon once there is an error among them. -/
structure Skippable (faulty : List Token) : Prop extends StatementLike faulty where
  /-- The end of the list is not among them. -/
  live : ∀ t ∈ faulty, t.kind ≠ .eof

theorem StatementLike.exists_cons {faulty : List Token} (h : StatementLike faulty) :
    ∃ first others, faulty = first :: others := by
  obtain ⟨body, semicolon, hbody, -⟩ := h.semicolon
  exact List.exists_cons_of_ne_nil (by simp [hbody])

namespace Skippable

variable {faulty : List Token} (h : Skippable faulty)

include h

theorem ne_for {t : Token} (ht : t ∈ faulty) : t.kind ≠ .for := by
  cases faulty with
  | nil => cases ht
  | cons first others =>
    rcases List.mem_cons.1 ht with rfl | ht
    · exact (h.first t others rfl).2
    · intro hfor
      have hboundary := h.others t ht
      rw [hfor] at hboundary
      cases hboundary

omit h in
theorem mem_tail {before after : List Token} {t t' : Token} (h : t' ∈ after) :
    t' ∈ (before ++ t :: after).tail := by
  cases before with
  | nil => exact h
  | cons first before => exact List.mem_append_right before (List.mem_cons_of_mem t h)

/-- A token is the semicolon and the last one, or the semicolon comes after it. -/
theorem cases_cut {before after : List Token} {t : Token} (hcut : faulty = before ++ t :: after) :
    (t.kind = .semicolon ∧ after = []) ∨
      (t.kind ≠ .semicolon ∧ ∃ body semicolon, after = body ++ [semicolon] ∧
        semicolon.kind = .semicolon ∧ ∀ t' ∈ body, t'.kind ≠ .semicolon) := by
  obtain ⟨all, semicolon, hall, hsemicolon, hothers⟩ := h.semicolon
  have hsame : before ++ t :: after = all ++ [semicolon] := hcut.symm.trans hall
  rcases List.eq_nil_or_concat after with rfl | ⟨body, last, rfl⟩
  · obtain ⟨-, hlast⟩ := List.append_inj' hsame rfl
    obtain rfl := List.singleton_inj.1 hlast
    exact .inl ⟨hsemicolon, rfl⟩
  · have hsame' : (before ++ t :: body) ++ [last] = all ++ [semicolon] := by
      simpa using hsame
    obtain ⟨rfl, hlast⟩ := List.append_inj' hsame' rfl
    obtain rfl := List.singleton_inj.1 hlast
    refine .inr ⟨hothers t (by simp), body, last, List.concat_eq_append, hsemicolon, ?_⟩
    exact fun t' ht' => hothers t' (by simp [ht'])

end Skippable

/-! ## Places inside of it -/

section

variable (faulty : List Token) (last : Token)

/-- The errors noted so far are at tokens of the statement. -/
def BlamesOnly (p : Parser) : Prop := ∀ e ∈ p.errors, ∃ fault, ∃ t ∈ faulty, e = .parse fault t

/-- The cursor is at a token of the statement; an end token follows behind it. -/
structure Amid (p : Parser) : Prop where
  rest : ∃ before t after, faulty = before ++ t :: after ∧ p.rest = t :: after ++ [last]
  blames : BlamesOnly faulty p

/-- The cursor is just behind the statement. -/
structure Past (p : Parser) : Prop where
  rest : p.rest = [last]
  blames : BlamesOnly faulty p

/-- What holds where a rule gives up. -/
def Halts (e : CompileError) (p : Parser) : Prop :=
  Amid faulty last p ∧ ∃ fault, e = .parse fault p.current

/-- Rules that are begun only behind a brace or at a `for`. -/
def Rule.Enclosed : Rule → Prop
  | .methods | .blockBody | .blockItems | .block | .forStatement | .statements => True
  | .properties _ | .parameterNames _ | .expression | .binary _ | .operand _ | .binaryTail ..
  | .unary | .call | .callTail _ | .instantiation | .arguments | .argumentValues _ | .primary
  | .declaration | .classDeclaration | .functionDeclaration | .function _ | .statement
  | .ifStatement | .whileStatement => False

/-- Where a rule answers: an expression in front of the semicolon, a statement behind it. -/
def Rule.Leaves : Rule → Parser → Prop
  | .properties _ | .parameterNames _ | .expression | .binary _ | .operand _ | .binaryTail ..
  | .unary | .call | .callTail _ | .instantiation | .arguments | .argumentValues _ | .primary =>
    Amid faulty last
  | .declaration | .classDeclaration | .methods | .functionDeclaration | .function _
  | .blockBody | .blockItems | .statement | .block | .ifStatement | .whileStatement
  | .forStatement | .statements => Past faulty last

/-- The contract of all rules that begin at a token of the statement. -/
def within : Contract where
  safe m p := m ≠ .remaining ∧ (m = .advance → p.kind ≠ .eof)
  ready _ r p := Amid faulty last p ∧ ¬ r.Enclosed ∧ (r.StartsBlind → p.kind ≠ .semicolon)
  reads r _ _ q := r.Leaves faulty last q
  stops _ _ e q := Halts faulty last e q

end

variable {faulty : List Token} {last : Token}

namespace Amid

variable {p : Parser} (h : Amid faulty last p)

include h

theorem current_mem : p.current ∈ faulty := by
  obtain ⟨before, t, after, rfl, hrest⟩ := h.rest
  rw [Parser.current_eq hrest]
  simp

theorem halts (fault : SyntaxFault) : Halts faulty last (.parse fault p.current) p :=
  ⟨h, fault, rfl⟩

theorem numbered (supply : Supply) : Amid faulty last { p with supply := supply } :=
  ⟨h.rest, h.blames⟩

theorem note {fault : SyntaxFault} {t : Token} (ht : t ∈ faulty) :
    Amid faulty last { p with errors := p.errors.push (.parse fault t) } := by
  refine ⟨h.rest, fun e he => ?_⟩
  rcases Array.mem_push.1 he with he | rfl
  · exact h.blames e he
  · exact ⟨fault, t, ht, rfl⟩

variable (hfaulty : Skippable faulty)

include hfaulty

theorem kind_ne_eof : p.kind ≠ .eof := hfaulty.live _ h.current_mem

theorem kind_ne_leftBrace : p.kind ≠ .leftBrace := (hfaulty.braceless _ h.current_mem).1

theorem kind_ne_for : p.kind ≠ .for := hfaulty.ne_for h.current_mem

/-- In front of the semicolon, the next token is one of the statement. -/
theorem advance (hkind : p.kind ≠ .semicolon) : Amid faulty last p.advance := by
  have hlive := h.kind_ne_eof hfaulty
  obtain ⟨before, t, after, hcut, hrest⟩ := h.rest
  rw [Parser.kind_eq hrest] at hkind hlive
  obtain ⟨next, after, rfl⟩ : ∃ next after', after = next :: after' := by
    rcases hfaulty.cases_cut hcut with ⟨hsemicolon, -⟩ | ⟨-, body, semicolon, rfl, -⟩
    · exact absurd hsemicolon hkind
    · exact List.exists_cons_of_ne_nil (by simp)
  refine ⟨⟨before ++ [t], next, after, ?_, Parser.rest_advance hrest hlive⟩, ?_⟩
  · rw [hcut, List.append_assoc, List.singleton_append]
  · rw [BlamesOnly, Parser.errors_advance]
    exact h.blames

/-- The semicolon is the last token of the statement. -/
theorem past (hkind : p.kind = .semicolon) : Past faulty last p.advance := by
  have hlive := h.kind_ne_eof hfaulty
  obtain ⟨before, t, after, hcut, hrest⟩ := h.rest
  rw [Parser.kind_eq hrest] at hkind hlive
  obtain rfl : after = [] := by
    rcases hfaulty.cases_cut hcut with ⟨-, hnone⟩ | ⟨hother, -⟩
    · exact hnone
    · exact absurd hkind hother
  refine ⟨Parser.rest_advance hrest hlive, ?_⟩
  rw [BlamesOnly, Parser.errors_advance]
  exact h.blames

end Amid

namespace Reading

/-! ## Single steps -/

section Steps

variable {α : Type} {n : Nat} {p q : Parser} (hfaulty : Skippable faulty)

theorem within_look {ok : Token → Parser → Prop} (hok : ok q.current q) :
    look.Obeys (within faulty last) n ok (Halts faulty last) q := ⟨⟨nofun, nofun⟩, hok⟩

theorem within_peek {ok : Token.Kind → Parser → Prop} (hok : ok q.kind q) :
    peek.Obeys (within faulty last) n ok (Halts faulty last) q := ⟨⟨nofun, nofun⟩, hok⟩

theorem within_here {ok : Span → Parser → Prop} (hok : ok q.current.span q) :
    here.Obeys (within faulty last) n ok (Halts faulty last) q := ⟨⟨nofun, nofun⟩, hok⟩

theorem within_before {ok : Span → Parser → Prop} (hok : ok q.previous.span q) :
    before.Obeys (within faulty last) n ok (Halts faulty last) q := ⟨⟨nofun, nofun⟩, hok⟩

theorem within_spanFrom {ok : Span → Parser → Prop} {span : Span} (hok : ok (q.spanFrom span) q) :
    (spanFrom span).Obeys (within faulty last) n ok (Halts faulty last) q := ⟨⟨nofun, nofun⟩, hok⟩

theorem within_fail {ok : α → Parser → Prop} {fault : SyntaxFault} (h : Amid faulty last q) :
    (fail fault).Obeys (within faulty last) n ok (Halts faulty last) q :=
  ⟨⟨nofun, nofun⟩, h.halts fault⟩

theorem within_freshNode {ok : Node → Parser → Prop} {span : Span} (h : Amid faulty last q)
    (hok : ∀ node q', Amid faulty last q' → ok node q') :
    (freshNode span).Obeys (within faulty last) n ok (Halts faulty last) q :=
  ⟨⟨nofun, nofun⟩, hok _ _ (h.numbered _)⟩

theorem within_rule {s : Rule} {ok : s.Answer → Parser → Prop} (h : Amid faulty last q)
    (hopen : ¬ s.Enclosed) (hblind : s.StartsBlind → q.kind ≠ .semicolon)
    (hok : ∀ a q', s.Leaves faulty last q' → ok a q') :
    (rule s).Obeys (within faulty last) n ok (Halts faulty last) q :=
  ⟨⟨h, hopen, hblind⟩, hok, fun _ _ he => he⟩

theorem safe_advance (h : q.kind ≠ .eof) : (within faulty last).safe .advance q := by
  refine ⟨?_, fun _ => h⟩
  intro heq
  cases heq

theorem kind_ne_semicolon {kind : Token.Kind} (h : q.kind = kind) (hkind : kind ≠ .semicolon) :
    q.kind ≠ .semicolon := fun heq => hkind (h.symm.trans heq)

include hfaulty

theorem within_advance {ok : Unit → Parser → Prop} (h : Amid faulty last q)
    (hkind : q.kind ≠ .semicolon) (hok : ∀ q', Amid faulty last q' → ok () q') :
    advance.Obeys (within faulty last) n ok (Halts faulty last) q :=
  ⟨safe_advance (h.kind_ne_eof hfaulty), hok _ (h.advance hfaulty hkind)⟩

theorem within_accept {ok : Bool → Parser → Prop} {kind : Token.Kind} (h : Amid faulty last q)
    (hkind : kind ≠ .semicolon) (hok : ∀ b q', Amid faulty last q' → ok b q') :
    (accept kind).Obeys (within faulty last) n ok (Halts faulty last) q := by
  rw [accept, obeys_bind]
  refine within_peek ?_
  split
  · next heq =>
    rw [obeys_bind]
    exact within_advance hfaulty h (kind_ne_semicolon heq hkind) fun q' hq' => hok true q' hq'
  · exact hok false q h

theorem within_expect {ok : Unit → Parser → Prop} {kind : Token.Kind} {missing : Missing}
    (h : Amid faulty last q) (hkind : kind ≠ .semicolon)
    (hok : ∀ q', Amid faulty last q' → ok () q') :
    (expect kind missing).Obeys (within faulty last) n ok (Halts faulty last) q := by
  rw [expect, obeys_bind]
  refine within_peek ?_
  split
  · next heq => exact within_advance hfaulty h (kind_ne_semicolon heq hkind) hok
  · exact within_fail h

theorem within_expectName {ok : String → Parser → Prop} {missing : Missing}
    (h : Amid faulty last q) (hok : ∀ name q', Amid faulty last q' → ok name q') :
    (expectName missing).Obeys (within faulty last) n ok (Halts faulty last) q := by
  rw [expectName, obeys_bind]
  refine within_peek ?_
  split
  · next heq =>
    simp only [obeys_bind]
    exact within_look (within_advance hfaulty h (kind_ne_semicolon heq (by decide)) (hok _))
  · exact within_fail h

/-- A statement ends with the semicolon. -/
theorem within_semicolon {ok : Unit → Parser → Prop} {missing : Missing}
    (h : Amid faulty last q) (hok : ∀ q', Past faulty last q' → ok () q') :
    (expect .semicolon missing).Obeys (within faulty last) n ok (Halts faulty last) q := by
  rw [expect, obeys_bind]
  refine within_peek ?_
  split
  · next heq => exact ⟨safe_advance (h.kind_ne_eof hfaulty), hok _ (h.past hfaulty heq)⟩
  · exact within_fail h

/-- There is no brace. -/
theorem within_leftBrace {ok : Unit → Parser → Prop} {missing : Missing}
    (h : Amid faulty last q) :
    (expect .leftBrace missing).Obeys (within faulty last) n ok (Halts faulty last) q := by
  rw [expect, obeys_bind]
  refine within_peek ?_
  rw [if_neg (h.kind_ne_leftBrace hfaulty)]
  exact within_fail h

omit hfaulty in
/-- What may be left out does not go past the semicolon. -/
theorem within_optional {d : Prop} [Decidable d] {x y : Reading α} {ok : α → Parser → Prop}
    (hx : x.Obeys (within faulty last) n (fun _ => Amid faulty last) (Halts faulty last) q)
    (hy : y.Obeys (within faulty last) n (fun _ => Amid faulty last) (Halts faulty last) q)
    (hok : ∀ a q', Amid faulty last q' → ok a q') :
    (if d then x else y).Obeys (within faulty last) n ok (Halts faulty last) q := by
  split
  · exact hx.mono hok fun _ _ => id
  · exact hy.mono hok fun _ _ => id

end Steps

/-! ## Rules of expressions -/

section Rules

variable {n : Nat} {q : Parser} (hfaulty : Skippable faulty)

include hfaulty

theorem within_property {object : Expr} {ok : Expr → Parser → Prop} (h : Amid faulty last q)
    (hok : ∀ a q', Amid faulty last q' → ok a q') :
    (property object).Obeys (within faulty last) n ok (Halts faulty last) q := by
  simp only [property, obeys_bind, obeys_pure]
  refine within_expectName hfaulty h fun name q h => ?_
  exact within_before (within_freshNode h fun node => hok _)

theorem within_properties (object : Expr) : (within faulty last).KeptBy (.properties object) := by
  rintro n p ⟨h, -, -⟩
  simp only [ofRule, obeys_bind]
  refine within_accept hfaulty h (by decide) fun more q h => ?_
  split
  · rw [obeys_bind]
    exact within_property hfaulty h fun next q h => within_rule h id False.elim fun _ _ => id
  · exact h

theorem within_parameterNames (count : Nat) :
    (within faulty last).KeptBy (.parameterNames count) := by
  rintro n p ⟨h, -, -⟩
  simp only [ofRule]
  split
  · exact within_fail h
  · simp only [obeys_bind]
    refine within_expectName hfaulty h fun name q h => ?_
    refine within_accept hfaulty h (by decide) fun more q h => ?_
    split
    · rw [obeys_bind]
      exact within_rule h id False.elim fun names q h => h
    · exact h

theorem within_parameters {ok : List String → Parser → Prop} (h : Amid faulty last q)
    (hok : ∀ a q', Amid faulty last q' → ok a q') :
    parameters.Obeys (within faulty last) n ok (Halts faulty last) q := by
  simp only [parameters, obeys_bind, obeys_ite_bind, obeys_pure]
  refine within_peek ?_
  refine within_optional h (within_rule h id False.elim fun _ _ => id)
    fun names q h => ?_
  exact within_expect hfaulty h (by decide) (hok names)

omit hfaulty in
theorem within_assignTo {target value : Expr} {equals : Token} {ok : Expr → Parser → Prop}
    (h : Amid faulty last q) (hequals : equals ∈ faulty)
    (hok : ∀ a q', Amid faulty last q' → ok a q') :
    (assignTo target value equals).Obeys (within faulty last) n ok (Halts faulty last) q := by
  unfold assignTo
  split
  · rw [obeys_bind]
    exact within_freshNode h fun node => hok _
  · rw [obeys_bind]
    exact within_freshNode h fun node => hok _
  · rw [obeys_bind]
    exact ⟨⟨nofun, nofun⟩, hok _ _ (h.note hequals)⟩

theorem within_expression : (within faulty last).KeptBy .expression := by
  rintro n p ⟨h, -, -⟩
  simp only [ofRule, obeys_bind]
  refine within_rule h id False.elim fun target q h => within_peek ?_
  split
  · next hkind =>
    have hequals : q.current ∈ faulty := Amid.current_mem h
    simp only [obeys_bind]
    refine within_look (within_advance hfaulty h (kind_ne_semicolon hkind (by decide))
      fun q h => ?_)
    refine within_rule h id False.elim fun value q h => ?_
    exact within_assignTo h hequals fun _ _ => id
  · exact h

omit hfaulty in
theorem within_binary (level : Level) : (within faulty last).KeptBy (.binary level) := by
  rintro n p ⟨h, -, -⟩
  simp only [ofRule, obeys_bind]
  refine within_rule h id False.elim fun left q h => ?_
  exact within_rule h id False.elim fun _ _ => id

omit hfaulty in
theorem within_operand (level : Level) : (within faulty last).KeptBy (.operand level) := by
  rintro n p ⟨h, -, -⟩
  simp only [ofRule]
  split
  · exact within_rule h id False.elim fun _ _ => id
  · exact within_rule h id False.elim fun _ _ => id

theorem within_binaryTail (level : Level) (left : Expr) :
    (within faulty last).KeptBy (.binaryTail level left) := by
  rintro n p ⟨h, -, -⟩
  simp only [ofRule, obeys_bind]
  refine within_peek ?_
  split
  · exact h
  · next op hop =>
    have hkind : p.kind ≠ .semicolon := by
      intro heq
      rw [heq] at hop
      cases level <;> simp [Level.operator?] at hop
    simp only [obeys_bind]
    refine within_advance hfaulty h hkind fun q h => within_before ?_
    refine within_rule h id False.elim fun right q h => within_freshNode h fun node q h => ?_
    exact within_rule h id False.elim fun _ _ => id

theorem within_unary : (within faulty last).KeptBy .unary := by
  rintro n p ⟨h, -, -⟩
  simp only [ofRule, obeys_bind]
  refine within_peek ?_
  split
  · exact within_rule h id False.elim fun _ _ => id
  · next op hop =>
    have hkind : p.kind ≠ .semicolon := by
      intro heq
      simp [heq, UnaryOp.ofKind?] at hop
    simp only [obeys_bind]
    refine within_here (within_advance hfaulty h hkind fun q h => ?_)
    refine within_rule h id False.elim fun operand q h => ?_
    exact within_freshNode h fun _ _ => id

omit hfaulty in
theorem within_call : (within faulty last).KeptBy .call := by
  rintro n p ⟨h, -, -⟩
  simp only [ofRule, obeys_bind]
  refine within_peek ?_
  have htail : ∀ callee q, Amid faulty last q →
      (rule (.callTail callee)).Obeys (within faulty last) n (fun _ => Amid faulty last)
        (Halts faulty last) q := fun callee q h => within_rule h id False.elim fun _ _ => id
  split
  · next hkind => exact within_rule h id (fun _ => kind_ne_semicolon hkind (by decide)) htail
  · exact within_rule h id False.elim htail

theorem within_callTail (callee : Expr) : (within faulty last).KeptBy (.callTail callee) := by
  rintro n p ⟨h, -, -⟩
  have hmore : ∀ next q, Amid faulty last q →
      (rule (.callTail next)).Obeys (within faulty last) n (fun _ => Amid faulty last)
        (Halts faulty last) q := fun next q h => within_rule h id False.elim fun _ _ => id
  simp only [ofRule, obeys_bind]
  refine within_accept hfaulty h (by decide) fun called q h => ?_
  split
  · simp only [obeys_bind]
    refine within_rule h id False.elim fun arguments q h => within_before ?_
    exact within_freshNode h fun node => hmore _
  · rw [obeys_bind]
    refine within_accept hfaulty h (by decide) fun more q h => ?_
    split
    · rw [obeys_bind]
      exact within_property hfaulty h hmore
    · exact h

theorem within_instantiation : (within faulty last).KeptBy .instantiation := by
  rintro n p ⟨h, -, hkind⟩
  simp only [ofRule, obeys_bind, obeys_ite_bind]
  refine within_here (within_advance hfaulty h (hkind trivial) fun q h => ?_)
  refine within_rule h id False.elim fun head q h => ?_
  refine within_rule h id False.elim fun callee q h => ?_
  refine within_accept hfaulty h (by decide) fun more q h => ?_
  refine within_optional (within_rule h id False.elim fun _ _ => id) h
    fun arguments q h => within_before ?_
  exact within_freshNode h fun _ _ => id

theorem within_arguments : (within faulty last).KeptBy .arguments := by
  rintro n p ⟨h, -, -⟩
  simp only [ofRule, obeys_bind, obeys_ite_bind]
  refine within_peek ?_
  refine within_optional h (within_rule h id False.elim fun _ _ => id)
    fun values q h => ?_
  exact within_expect hfaulty h (by decide) fun _ => id

theorem within_argumentValues (count : Nat) :
    (within faulty last).KeptBy (.argumentValues count) := by
  rintro n p ⟨h, -, -⟩
  simp only [ofRule]
  split
  · exact within_fail h
  · simp only [obeys_bind]
    refine within_rule h id False.elim fun value q h => ?_
    refine within_accept hfaulty h (by decide) fun more q h => ?_
    split
    · rw [obeys_bind]
      exact within_rule h id False.elim fun values q h => h
    · exact h

theorem within_primary : (within faulty last).KeptBy .primary := by
  rintro n p ⟨h, -, -⟩
  simp only [ofRule, obeys_bind]
  refine within_look ?_
  split
  · next value hvalue =>
    have hkind : p.kind ≠ .semicolon := by
      intro heq
      rw [Parser.kind] at heq
      simp [constant?, heq] at hvalue
    simp only [obeys_bind]
    refine within_advance hfaulty h hkind fun q h => ?_
    exact within_freshNode h fun _ _ => id
  · exact within_fail h
  · split
    · next hkind =>
      simp only [obeys_bind]
      refine within_advance hfaulty h (kind_ne_semicolon hkind (by decide)) fun q h => ?_
      exact within_freshNode h fun _ _ => id
    · next hkind =>
      simp only [obeys_bind]
      refine within_advance hfaulty h (kind_ne_semicolon hkind (by decide)) fun q h => ?_
      exact within_freshNode h fun _ _ => id
    · next hkind =>
      simp only [obeys_bind]
      refine within_advance hfaulty h (kind_ne_semicolon hkind (by decide)) fun q h => ?_
      refine within_rule h id False.elim fun inner q h => ?_
      refine within_expect hfaulty h (by decide) fun q h => ?_
      exact within_spanFrom (within_freshNode h fun _ _ => id)
    · exact within_fail h

/-! ## Rules of statements -/

theorem within_expressionStatement {ok : Stmt → Parser → Prop} (h : Amid faulty last q)
    (hok : ∀ a q', Past faulty last q' → ok a q') :
    expressionStatement.Obeys (within faulty last) n ok (Halts faulty last) q := by
  simp only [expressionStatement, obeys_bind, obeys_pure]
  refine within_rule h id False.elim fun value q h => ?_
  exact within_semicolon hfaulty h fun q h => within_before (hok _ q h)

theorem within_varDeclaration {ok : Stmt → Parser → Prop} (h : Amid faulty last q)
    (hkind : q.kind ≠ .semicolon) (hok : ∀ a q', Past faulty last q' → ok a q') :
    varDeclaration.Obeys (within faulty last) n ok (Halts faulty last) q := by
  simp only [varDeclaration, obeys_bind, obeys_ite_bind, obeys_pure]
  refine within_here (within_advance hfaulty h hkind fun q h => ?_)
  refine within_expectName hfaulty h fun name q h => ?_
  refine within_accept hfaulty h (by decide) fun more q h => ?_
  refine within_optional ?_ h fun initializer q h => ?_
  · rw [obeys_map]
    exact within_rule h id False.elim fun _ _ => id
  · exact within_semicolon hfaulty h fun q h => within_spanFrom (hok _ q h)

theorem within_printStatement {ok : Stmt → Parser → Prop} (h : Amid faulty last q)
    (hkind : q.kind ≠ .semicolon) (hok : ∀ a q', Past faulty last q' → ok a q') :
    printStatement.Obeys (within faulty last) n ok (Halts faulty last) q := by
  simp only [printStatement, obeys_bind, obeys_pure]
  refine within_here (within_advance hfaulty h hkind fun q h => ?_)
  refine within_rule h id False.elim fun value q h => ?_
  exact within_semicolon hfaulty h fun q h => within_spanFrom (hok _ q h)

theorem within_returnStatement {ok : Stmt → Parser → Prop} (h : Amid faulty last q)
    (hkind : q.kind ≠ .semicolon) (hok : ∀ a q', Past faulty last q' → ok a q') :
    returnStatement.Obeys (within faulty last) n ok (Halts faulty last) q := by
  simp only [returnStatement, obeys_bind, obeys_ite_bind, obeys_pure]
  refine within_here (within_advance hfaulty h hkind fun q h => within_peek ?_)
  refine within_optional h ?_ fun value q h => ?_
  · rw [obeys_map]
    exact within_rule h id False.elim fun _ _ => id
  · exact within_semicolon hfaulty h fun q h => within_spanFrom (hok _ q h)

theorem within_declaration : (within faulty last).KeptBy .declaration := by
  rintro n p ⟨h, -, -⟩
  simp only [ofRule, obeys_bind]
  refine within_peek ?_
  split
  · next hkind =>
    exact within_rule h id (fun _ => kind_ne_semicolon hkind (by decide)) fun _ _ => id
  · next hkind =>
    exact within_rule h id (fun _ => kind_ne_semicolon hkind (by decide)) fun _ _ => id
  · next hkind =>
    exact within_varDeclaration hfaulty h (kind_ne_semicolon hkind (by decide)) fun _ _ => id
  · exact within_fail h
  · exact within_fail h
  · exact within_rule h id False.elim fun _ _ => id

theorem within_statement : (within faulty last).KeptBy .statement := by
  rintro n p ⟨h, -, -⟩
  simp only [ofRule, obeys_bind]
  refine within_peek ?_
  split
  · next hkind =>
    exact within_printStatement hfaulty h (kind_ne_semicolon hkind (by decide)) fun _ _ => id
  · next hkind =>
    exact within_returnStatement hfaulty h (kind_ne_semicolon hkind (by decide)) fun _ _ => id
  · next hkind => exact absurd hkind (h.kind_ne_leftBrace hfaulty)
  · next hkind =>
    exact within_rule h id (fun _ => kind_ne_semicolon hkind (by decide)) fun _ _ => id
  · next hkind =>
    exact within_rule h id (fun _ => kind_ne_semicolon hkind (by decide)) fun _ _ => id
  · next hkind => exact absurd hkind (h.kind_ne_for hfaulty)
  · exact within_expressionStatement hfaulty h fun _ _ => id

theorem within_classDeclaration : (within faulty last).KeptBy .classDeclaration := by
  rintro n p ⟨h, -, hkind⟩
  simp only [ofRule, obeys_bind]
  refine within_here (within_advance hfaulty h (hkind trivial) fun q h => ?_)
  exact within_expectName hfaulty h fun name q h => within_leftBrace hfaulty h

theorem within_functionDeclaration : (within faulty last).KeptBy .functionDeclaration := by
  rintro n p ⟨h, -, hkind⟩
  simp only [ofRule, obeys_bind]
  refine within_here (within_advance hfaulty h (hkind trivial) fun q h => ?_)
  exact within_rule h id False.elim fun decl q h => within_spanFrom h

theorem within_function (role : FunctionRole) :
    (within faulty last).KeptBy (.function role) := by
  rintro n p ⟨h, -, -⟩
  simp only [ofRule, obeys_bind]
  refine within_here (within_expectName hfaulty h fun name q h => ?_)
  refine within_expect hfaulty h (by decide) fun q h => ?_
  exact within_parameters hfaulty h fun params q h => within_leftBrace hfaulty h

theorem within_whileStatement : (within faulty last).KeptBy .whileStatement := by
  rintro n p ⟨h, -, hkind⟩
  simp only [ofRule, obeys_bind]
  refine within_here (within_advance hfaulty h (hkind trivial) fun q h => ?_)
  refine within_expect hfaulty h (by decide) fun q h => ?_
  refine within_rule h id False.elim fun condition q h => ?_
  refine within_expect hfaulty h (by decide) fun q h => ?_
  exact within_rule h id False.elim fun body q h => within_spanFrom h

/-- Behind the semicolon there is no `else`, but the end. -/
theorem within_ifStatement (hlast : last.kind = .eof) :
    (within faulty last).KeptBy .ifStatement := by
  rintro n p ⟨h, -, hkind⟩
  simp only [ofRule, obeys_bind, obeys_ite_bind]
  refine within_here (within_advance hfaulty h (hkind trivial) fun q h => ?_)
  refine within_expect hfaulty h (by decide) fun q h => ?_
  refine within_rule h id False.elim fun condition q h => ?_
  refine within_expect hfaulty h (by decide) fun q h => ?_
  refine within_rule h id False.elim fun thenBranch q h => ?_
  have hend : q.kind = .eof := (Parser.kind_eq (Past.rest h)).trans hlast
  simp only [accept, obeys_bind]
  refine within_peek ?_
  rw [if_neg (by rw [hend]; decide)]
  exact within_spanFrom h

/-- A rule that begins at a token of a malformed statement gives up at one, or ends at the
semicolon or just behind it. -/
theorem within_kept (hlast : last.kind = .eof) : (within faulty last).Kept where
  zero _ _ fault h := h.1.halts fault
  succ r := by
    cases r with
    | properties object => exact within_properties hfaulty object
    | parameterNames count => exact within_parameterNames hfaulty count
    | expression => exact within_expression hfaulty
    | binary level => exact within_binary level
    | operand level => exact within_operand level
    | binaryTail level left => exact within_binaryTail hfaulty level left
    | unary => exact within_unary hfaulty
    | call => exact within_call
    | callTail callee => exact within_callTail hfaulty callee
    | instantiation => exact within_instantiation hfaulty
    | arguments => exact within_arguments hfaulty
    | argumentValues count => exact within_argumentValues hfaulty count
    | primary => exact within_primary hfaulty
    | declaration => exact within_declaration hfaulty
    | classDeclaration => exact within_classDeclaration hfaulty
    | functionDeclaration => exact within_functionDeclaration hfaulty
    | function role => exact within_function hfaulty role
    | statement => exact within_statement hfaulty
    | ifStatement => exact within_ifStatement hfaulty hlast
    | whileStatement => exact within_whileStatement hfaulty
    | methods | blockBody | blockItems | block | forStatement | statements =>
      exact fun _ _ hready => absurd trivial hready.2.1

end Rules

end Reading

end Parse

end Lox
