import Lox.Proofs.Syntax.Contract
import Lox.Proofs.Token.Text

/-!
# Syntax errors in source order

An error is noted where reading gives up, at the token at the cursor, so that errors come in the
order of the source.  There is one exception: that something cannot be assigned to is noted only
when the right-hand side of the assignment has been read, and then reading goes on.  So such an
error comes after the errors of the same sort from its right-hand side, which stand further on in
the source (`errors_in_source_order`).

**Two contracts in one.** A rule that reads an expression notes errors only about assignments,
and at tokens that it read itself (`Crosses`).  The other rules, which also note errors of
declarations, need only see to it that all errors so far are in order and none of them is behind
the cursor (`Tidy`).
-/

namespace Lox

section

variable {tokens before after : List Token} {t t' : Token}

theorem Ordered.stop_le_of_append (h : Ordered tokens) (htokens : tokens = before ++ t :: after)
    (ht' : t' ∈ after) : t.span.stop ≤ t'.span.offset := by
  rw [htokens] at h
  exact (List.pairwise_cons.1 (List.pairwise_append.1 h).2.1).1 t' ht'

theorem Ordered.offset_le_of_append (h : Ordered tokens) (htokens : tokens = before ++ t :: after)
    (ht' : t' ∈ after) : t.span.offset ≤ t'.span.offset :=
  Nat.le_trans t.span.offset_le_stop (h.stop_le_of_append htokens ht')

end

/-- In front of `after`, the tokens are read as an expression. -/
def Parse.ReadsExpression (value after : List Token) : Prop :=
  ∃ n p a q, p.rest = value ++ after ∧ Parse.expression n p = .ok a q ∧ q.rest = after

/-- Both errors are about assignments, and the first one is about an assignment in the right-hand
side of the other one. -/
inductive CompileError.InRightHandSide (tokens : List Token) : CompileError → CompileError → Prop
  | intro {before value after : List Token} {inner outer : Token}
      (htokens : tokens = before ++ outer :: (value ++ after)) (houter : outer.kind = .equal)
      (hvalue : Parse.ReadsExpression value after) (hinner : inner ∈ value) :
      InRightHandSide tokens (.parse .badAssignmentTarget inner)
        (.parse .badAssignmentTarget outer)

/-- The errors are in source order, or the first one is from the right-hand side of the other. -/
def CompileError.MayPrecede (tokens : List Token) (e e' : CompileError) : Prop :=
  e.span.offset ≤ e'.span.offset ∨ e.InRightHandSide tokens e'

namespace Parse

/-! ## Readings that note nothing -/

/-- Rules that read expressions or names. -/
def Rule.IsExpression : Rule → Prop
  | .properties _ | .parameterNames _ | .expression | .binary _ | .operand _ | .binaryTail ..
  | .unary | .call | .callTail _ | .instantiation | .arguments | .argumentValues _
  | .primary => True
  | .declaration | .classDeclaration | .methods | .functionDeclaration | .function _
  | .blockBody | .blockItems | .statement | .block | .ifStatement | .whileStatement
  | .forStatement | .statements => False

namespace Reading

/-- Whatever the tokens are, the reading notes no error by itself, begins only rules that are
among `rules`, gives up if one of them does, and answers with `ok`. -/
def Silent (rules : Rule → Prop) {α : Type} (ok : α → Prop) : Reading α → Prop
  | answer a => ok a
  | fail _ => True
  | move m next => (∀ e, m ≠ .note e) ∧ ∀ a, (next a).Silent rules ok
  | begin r next => rules r ∧ ∀ a, (next a).Silent rules ok
  | attempt _ _ => False

section

variable {α β : Type} {rules : Rule → Prop} {ok : α → Prop}

@[simp] theorem silent_pure {a : α} : (pure a : Reading α).Silent rules ok ↔ ok a := Iff.rfl

@[simp] theorem silent_answer {a : α} : (answer a).Silent rules ok ↔ ok a := Iff.rfl

@[simp] theorem silent_fail {fault : SyntaxFault} :
    (fail fault : Reading α).Silent rules ok ↔ True := Iff.rfl

@[simp] theorem silent_move {m : Move} {next : m.Answer → Reading α} :
    (move m next).Silent rules ok ↔ (∀ e, m ≠ .note e) ∧ ∀ a, (next a).Silent rules ok := Iff.rfl

@[simp] theorem silent_begin {r : Rule} {next : r.Answer → Reading α} :
    (begin r next).Silent rules ok ↔ rules r ∧ ∀ a, (next a).Silent rules ok := Iff.rfl

@[simp] theorem silent_bind {x : Reading β} {f : β → Reading α} :
    (x >>= f).Silent rules ok ↔ x.Silent rules fun b => (f b).Silent rules ok := by
  show (x.bind f).Silent rules ok ↔ _
  induction x with
  | answer b => rfl
  | fail fault => rfl
  | move m next ih => simp only [bind, silent_move, ih]
  | begin r next ih => simp only [bind, silent_begin, ih]
  | attempt r next ih => rfl

@[simp] theorem silent_map {x : Reading β} {f : β → α} :
    (f <$> x).Silent rules ok ↔ x.Silent rules fun b => ok (f b) := silent_bind

@[simp] theorem silent_ite {c : Prop} [Decidable c] {x y : Reading α} :
    (if c then x else y).Silent rules ok ↔ if c then x.Silent rules ok else y.Silent rules ok := by
  split <;> rfl

@[simp] theorem silent_look {ok : Token → Prop} : look.Silent rules ok ↔ ∀ t, ok t := by
  simp [look, Move.Answer]

@[simp] theorem silent_peek {ok : Token.Kind → Prop} :
    peek.Silent rules ok ↔ ∀ t : Token, ok t.kind := by
  simp [peek, Move.Answer]

@[simp] theorem silent_atEnd {ok : Bool → Prop} :
    atEnd.Silent rules ok ↔ ∀ t : Token, ok (t.kind = .eof) := by
  simp [atEnd, Move.Answer]

@[simp] theorem silent_here {ok : Span → Prop} :
    here.Silent rules ok ↔ ∀ t : Token, ok t.span := by
  simp [here, Move.Answer]

@[simp] theorem silent_before {ok : Span → Prop} :
    before.Silent rules ok ↔ ∀ t : Token, ok t.span := by
  simp [before, Move.Answer]

@[simp] theorem silent_spanFrom {span : Span} {ok : Span → Prop} :
    (spanFrom span).Silent rules ok ↔ ∀ t : Token, ok (span.through t.span) := by
  simp [spanFrom, Move.Answer]

@[simp] theorem silent_advance {ok : Unit → Prop} : advance.Silent rules ok ↔ ok () := by
  simp [advance, Move.Answer, Unique.forall_iff]

@[simp] theorem silent_freshNode {span : Span} {ok : Node → Prop} :
    (freshNode span).Silent rules ok ↔ ∀ node, ok node := by
  simp [freshNode, Move.Answer]

@[simp] theorem silent_freshFunction {ok : Nat → Prop} :
    freshFunction.Silent rules ok ↔ ∀ k, ok k := by
  simp [freshFunction, Move.Answer]

theorem silent_seekBoundary (k : Nat) : (seekBoundary k).Silent rules fun _ => True := by
  induction k with
  | zero => trivial
  | succ k ih => simp [seekBoundary, ih]

theorem silent_synchronize : synchronize.Silent rules fun _ => True := by
  simp [synchronize, silent_seekBoundary]

/-- Of the rules that read expressions, only assignments note errors. -/
theorem silent_expression {r : Rule} (hr : r.IsExpression) (hne : r ≠ .expression) :
    (ofRule r).Silent Rule.IsExpression fun _ => True := by
  cases r with
  | expression => exact absurd rfl hne
  | operand level =>
    rw [ofRule]
    split <;> simp [rule, Rule.IsExpression]
  | binaryTail level left =>
    rw [ofRule, silent_bind, silent_peek]
    intro token
    split <;> simp [rule, Rule.IsExpression]
  | unary =>
    rw [ofRule, silent_bind, silent_peek]
    intro token
    split <;> simp [rule, Rule.IsExpression]
  | primary =>
    rw [ofRule, silent_bind, silent_look]
    intro token
    split
    · simp
    · simp
    · split <;> simp [rule, expect, Rule.IsExpression]
  | properties | parameterNames | binary | call | callTail | instantiation | arguments
  | argumentValues =>
    simp [ofRule, rule, accept, expect, expectName, property, Rule.IsExpression]
  | _ => exact hr.elim

theorem silent_varDeclaration {ok : Stmt → Prop} (hok : ∀ s, ok s) :
    varDeclaration.Silent (fun _ => True) ok := by
  simp [varDeclaration, rule, accept, expect, expectName, hok]

theorem silent_expressionStatement {ok : Stmt → Prop} (hok : ∀ s, ok s) :
    expressionStatement.Silent (fun _ => True) ok := by
  simp [expressionStatement, rule, expect, hok]

theorem silent_forInitializer {ok : Option Stmt → Prop} (hok : ∀ s, ok s) :
    forInitializer.Silent (fun _ => True) ok := by
  simp [forInitializer, accept, silent_varDeclaration, silent_expressionStatement, hok]

theorem silent_forCondition {ok : Expr → Prop} (hok : ∀ e, ok e) :
    forCondition.Silent (fun _ => True) ok := by
  simp [forCondition, rule, hok]

/-- Of the other rules, only the statements of programs and blocks note errors. -/
theorem silent_statement {r : Rule} (hr : ¬ r.IsExpression) (hitems : r ≠ .blockItems)
    (hall : r ≠ .statements) : (ofRule r).Silent (fun _ => True) fun _ => True := by
  cases r with
  | blockItems => exact absurd rfl hitems
  | statements => exact absurd rfl hall
  | declaration =>
    rw [ofRule, silent_bind, silent_peek]
    intro token
    split <;> simp [rule, silent_varDeclaration]
  | statement =>
    rw [ofRule, silent_bind, silent_peek]
    intro token
    split <;> simp [printStatement, returnStatement, rule, expect, silent_expressionStatement]
  | forStatement =>
    simp [ofRule, rule, expect, silent_forInitializer, silent_forCondition]
  | classDeclaration | methods | functionDeclaration | function | blockBody | block | ifStatement
  | whileStatement =>
    simp [ofRule, rule, accept, expect, expectName, parameters]
  | _ => exact absurd trivial hr

end

end Reading

/-! ## States -/

section

variable (tokens : List Token)

/-- The errors so far are in order, and none of them is behind the cursor. -/
structure Tidy (p : Parser) : Prop where
  /-- What is still to be read are the last ones of the tokens. -/
  rest : ∃ before, tokens = before ++ p.rest
  /-- An end token stands last. -/
  ended : p.Ended
  /-- No error is behind the cursor. -/
  reached : ∀ e ∈ p.errors.toList, e.span.offset ≤ p.current.span.offset
  /-- The errors are in order. -/
  order : p.errors.toList.Pairwise (CompileError.MayPrecede tokens)

/-- From one state to the other, tokens were read, and only errors about assignments among these
were noted. -/
def Crosses (p q : Parser) : Prop :=
  ∃ value new, p.rest = value ++ q.rest ∧ q.errors.toList = p.errors.toList ++ new ∧
    ∀ e ∈ new, ∃ t ∈ value, e = .parse .badAssignmentTarget t

/-- The contract of all rules. -/
def inOrder : Contract where
  safe _ _ := True
  ready _ _ p := Tidy tokens p
  reads r p _ q := Tidy tokens q ∧ (r.IsExpression → Crosses p q)
  stops _ _ e q := Tidy tokens q ∧ ∃ fault, e = .parse fault q.current

end

theorem Crosses.of_eq {p q : Parser} (hrest : q.rest = p.rest) (herrors : q.errors = p.errors) :
    Crosses p q := ⟨[], [], by simp [hrest], by simp [herrors], by simp⟩

theorem Crosses.refl (p : Parser) : Crosses p p := .of_eq rfl rfl

theorem Crosses.trans {p q q' : Parser} (h : Crosses p q) (h' : Crosses q q') : Crosses p q' := by
  obtain ⟨value, new, hrest, herrors, hnew⟩ := h
  obtain ⟨value', new', hrest', herrors', hnew'⟩ := h'
  refine ⟨value ++ value', new ++ new', by simp [hrest, hrest'], by simp [herrors, herrors'], ?_⟩
  intro e he
  rcases List.mem_append.1 he with he | he
  · obtain ⟨t, ht, heq⟩ := hnew e he
    exact ⟨t, List.mem_append_left _ ht, heq⟩
  · obtain ⟨t, ht, heq⟩ := hnew' e he
    exact ⟨t, List.mem_append_right _ ht, heq⟩

section

variable {tokens : List Token} {p q : Parser}

theorem Tidy.advance (h : Tidy tokens p) (hordered : Ordered tokens) :
    Tidy tokens p.advance ∧ Crosses p p.advance := by
  by_cases hkind : p.kind = .eof
  · rw [Parser.advance_of_eof hkind]
    exact ⟨h, .refl p⟩
  · obtain ⟨before, htokens⟩ := h.rest
    have hrest := h.ended.rest_advance hkind
    rw [hrest] at htokens
    have hnext : p.current.span.offset ≤ p.advance.current.span.offset :=
      hordered.offset_le_of_append htokens (List.mem_cons_self ..)
    refine ⟨⟨⟨before ++ [p.current], by simp [htokens]⟩, h.ended.advance, ?_, ?_⟩, ?_⟩
    · intro e he
      rw [Parser.errors_advance] at he
      exact Nat.le_trans (h.reached e he) hnext
    · rw [Parser.errors_advance]
      exact h.order
    · exact ⟨[p.current], [], hrest, by simp, by simp⟩

/-- An error at the cursor or before it can be noted, if it is in order. -/
theorem Tidy.note (h : Tidy tokens p) {e : CompileError}
    (hreached : e.span.offset ≤ p.current.span.offset)
    (horder : ∀ e' ∈ p.errors.toList, e'.MayPrecede tokens e) :
    Tidy tokens { p with errors := p.errors.push e } := by
  refine ⟨h.rest, h.ended, fun e' he' => ?_, ?_⟩
  · rw [Array.toList_push, List.mem_append, List.mem_singleton] at he'
    rcases he' with he' | rfl
    · exact h.reached e' he'
    · exact hreached
  · rw [Array.toList_push]
    refine List.pairwise_append.2 ⟨h.order, List.pairwise_singleton _ _, fun e' he' e'' he'' => ?_⟩
    rw [List.mem_singleton.1 he'']
    exact horder e' he'

/-- The error of a rule that gave up can be noted. -/
theorem Tidy.note_current (h : Tidy tokens p) (fault : SyntaxFault) :
    Tidy tokens { p with errors := p.errors.push (.parse fault p.current) } :=
  h.note (Nat.le_refl _) fun e' he' => .inl (h.reached e' he')

theorem Tidy.after (h : Tidy tokens p) (hordered : Ordered tokens) {m : Move}
    (hm : ∀ e, m ≠ .note e) : Tidy tokens (m.after p) ∧ Crosses p (m.after p) := by
  cases m with
  | note e => exact absurd rfl (hm e)
  | advance => exact h.advance hordered
  | freshNode span => exact ⟨⟨h.rest, h.ended, h.reached, h.order⟩, .of_eq rfl rfl⟩
  | freshFunction => exact ⟨⟨h.rest, h.ended, h.reached, h.order⟩, .of_eq rfl rfl⟩
  | look | before | lookBack | remaining => exact ⟨h, .refl p⟩

namespace Reading

variable {α : Type} {n : Nat} {rules : Rule → Prop}

/-- A silent reading keeps the state tidy; if it is part of an expression and begins only rules
that read expressions, it crosses tokens. -/
theorem inOrder_of_silent {ok : α → Prop} {x : Reading α} (hx : x.Silent rules ok)
    (hordered : Ordered tokens) {inner : Prop} (hrules : inner → ∀ r, rules r → r.IsExpression)
    (hq : Tidy tokens q) (hcrosses : inner → Crosses p q) :
    x.Obeys ((inOrder tokens).along n) n (fun _ q' => Tidy tokens q' ∧ (inner → Crosses p q'))
      (fun e q' => Tidy tokens q' ∧ ∃ fault, e = .parse fault q'.current) q := by
  induction x generalizing q with
  | answer a => exact ⟨hq, hcrosses⟩
  | fail fault => exact ⟨trivial, hq, fault, rfl⟩
  | move m next ih =>
    obtain ⟨hafter, hmove⟩ := hq.after hordered hx.1
    exact ⟨trivial, ih _ (hx.2 _) hafter fun hinner => (hcrosses hinner).trans hmove⟩
  | begin r next ih =>
    refine ⟨hq, fun a q' ha => ?_, fun e q' he => he⟩
    exact ih a (hx.2 a) ha.1.1 fun hinner =>
      (hcrosses hinner).trans (ha.1.2 (hrules hinner r hx.1))
  | attempt r next ih => exact hx.elim

/-- An assignment is made, or an error noted. -/
theorem inOrder_assignTo {target value : Expr} {equals : Token} {ok : Expr → Parser → Prop}
    {stop : CompileError → Parser → Prop} (hmade : ∀ e supply, ok e { q with supply := supply })
    (hnoted : ok target
      { q with errors := q.errors.push (.parse .badAssignmentTarget equals) }) :
    (assignTo target value equals).Obeys ((inOrder tokens).along n) n ok stop q := by
  unfold assignTo
  dsimp only
  split
  · exact ⟨trivial, hmade _ _⟩
  · exact ⟨trivial, hmade _ _⟩
  · exact ⟨trivial, hnoted⟩

end Reading

open Reading

variable {n : Nat}

/-- That something cannot be assigned to is noted behind the errors of the right-hand side. -/
theorem Tidy.note_assignment (hq : Tidy tokens q) (hordered : Ordered tokens)
    (hequal : q.kind = .equal) {q' : Parser} (hq' : Tidy tokens q') (hright : Crosses q.advance q')
    {value : Expr} (hrun : expression n q.advance = .ok value q') :
    let noted := { q' with errors := q'.errors.push (.parse .badAssignmentTarget q.current) }
    Tidy tokens noted ∧ Crosses q noted := by
  have hlive : q.kind ≠ .eof := by
    rw [hequal]
    decide
  have hcons := hq.ended.rest_advance hlive
  obtain ⟨before, htokens⟩ := hq.rest
  obtain ⟨value, new, hrest, herrors, hnew⟩ := hright
  rw [Parser.errors_advance] at herrors
  rw [hcons, hrest] at htokens
  -- what was noted before is in front of the equals sign, or from the right-hand side
  refine ⟨hq'.note ?_ fun e he => ?_, q.current :: value,
    new ++ [.parse .badAssignmentTarget q.current], ?_, ?_, ?_⟩
  · have hcurrent : q'.current ∈ q'.rest := List.mem_cons_self ..
    exact hordered.offset_le_of_append htokens (List.mem_append_right _ hcurrent)
  · rw [herrors] at he
    rcases List.mem_append.1 he with he | he
    · exact .inl (hq.reached e he)
    · obtain ⟨t, ht, rfl⟩ := hnew e he
      exact .inr (.intro htokens hequal ⟨n, q.advance, _, q', hrest, hrun, rfl⟩ ht)
  · rw [hcons, hrest]
    rfl
  · rw [Array.toList_push, herrors, List.append_assoc]
  · intro e he
    rcases List.mem_append.1 he with he | he
    · obtain ⟨t, ht, heq⟩ := hnew e he
      exact ⟨t, List.mem_cons_of_mem _ ht, heq⟩
    · exact ⟨q.current, List.mem_cons_self .., List.mem_singleton.1 he⟩

theorem inOrder_expression (hordered : Ordered tokens) (h : Tidy tokens p) :
    (ofRule .expression).Obeys ((inOrder tokens).along n) n ((inOrder tokens).reads .expression p)
      ((inOrder tokens).stops .expression p) p := by
  rw [ofRule, obeys_bind, obeys_rule]
  refine ⟨h, fun target q hq => ?_, fun e q he => he⟩
  obtain ⟨⟨hq, hcrosses⟩, -⟩ := hq
  have hcrosses := hcrosses trivial
  rw [obeys_bind, obeys_peek_iff]
  refine ⟨trivial, ?_⟩
  split
  · next hequal =>
    obtain ⟨hnext, hstep⟩ := hq.advance hordered
    simp only [obeys_bind]
    refine ⟨trivial, trivial, hnext, fun value q' hq' => ?_, fun e q' he => he⟩
    obtain ⟨⟨hq', hright⟩, hrun⟩ := hq'
    have hright := hright trivial
    refine inOrder_assignTo (fun e supply => ?_) ?_
    · refine ⟨⟨hq'.rest, hq'.ended, hq'.reached, hq'.order⟩, fun _ => ?_⟩
      exact ((hcrosses.trans hstep).trans hright).trans (.of_eq rfl rfl)
    · obtain ⟨htidy, hnoted⟩ := hq.note_assignment hordered hequal hq' hright hrun
      exact ⟨htidy, fun _ => hcrosses.trans hnoted⟩
  · exact ⟨hq, fun _ => hcrosses⟩

/-- A declaration is read, or the error of one can be noted. -/
theorem inOrder_attempted {α : Type} {ok : α → Parser → Prop} {stop : CompileError → Parser → Prop}
    {next : Except CompileError Stmt → Reading α} (h : Tidy tokens p)
    (hread : ∀ s q, Tidy tokens q → (next (.ok s)).Obeys ((inOrder tokens).along n) n ok stop q)
    (hfailed : ∀ e q, Tidy tokens { q with errors := q.errors.push e } →
      (next (.error e)).Obeys ((inOrder tokens).along n) n ok stop q) :
    (attempted .declaration >>= next).Obeys ((inOrder tokens).along n) n ok stop p := by
  refine obeys_bind.2 ⟨h, fun s q hq => hread s q hq.1.1, fun e q he => ?_⟩
  obtain ⟨hq, fault, rfl⟩ := he
  exact hfailed _ q (hq.note_current fault)

/-- Statements go on to the next one. -/
theorem inOrder_next {r : Rule} (hr : ¬ r.IsExpression) (h : Tidy tokens q) :
    (rule r).Obeys ((inOrder tokens).along n) n ((inOrder tokens).reads r p)
      ((inOrder tokens).stops r p) q :=
  ⟨h, fun _ _ ha => ⟨ha.1.1, fun hr' => absurd hr' hr⟩, fun _ _ he => he⟩

theorem inOrder_skipped {r : Rule} (hr : ¬ r.IsExpression) (hordered : Ordered tokens)
    (h : Tidy tokens q) :
    (Reading.synchronize >>= fun _ => rule r).Obeys ((inOrder tokens).along n) n
      ((inOrder tokens).reads r p) ((inOrder tokens).stops r p) q := by
  have hsilent : Reading.synchronize.Silent (fun _ => False) fun _ => True := silent_synchronize
  have hskip := inOrder_of_silent (p := q) (n := n) hsilent hordered (fun _ _ hs => hs.elim) h
    fun _ : True => .refl q
  exact obeys_bind.2 (hskip.mono (fun _ q' hq' => inOrder_next hr hq'.1) fun _ _ he => he)

theorem inOrder_blockItems (hordered : Ordered tokens) (h : Tidy tokens p) :
    (ofRule .blockItems).Obeys ((inOrder tokens).along n) n ((inOrder tokens).reads .blockItems p)
      ((inOrder tokens).stops .blockItems p) p := by
  rw [ofRule, obeys_bind, obeys_atEnd_iff]
  refine ⟨trivial, ?_⟩
  rw [obeys_bind, obeys_peek_iff]
  refine ⟨trivial, ?_⟩
  split
  · exact ⟨h, fun hr => hr.elim⟩
  · refine inOrder_attempted h (fun s q hq => ?_) fun e q hq => ?_
    · exact obeys_bind.2 ((inOrder_next id hq).mono (fun _ _ ha => ha) fun _ _ he => he)
    · dsimp only
      rw [obeys_bind, obeys_note_iff]
      refine ⟨trivial, ?_⟩
      rw [obeys_bind, obeys_peek_iff]
      refine ⟨trivial, ?_⟩
      split
      · exact inOrder_skipped id hordered hq
      · exact inOrder_next id hq

theorem inOrder_statements (hordered : Ordered tokens) (h : Tidy tokens p) :
    (ofRule .statements).Obeys ((inOrder tokens).along n) n ((inOrder tokens).reads .statements p)
      ((inOrder tokens).stops .statements p) p := by
  rw [ofRule, obeys_bind, obeys_atEnd_iff]
  refine ⟨trivial, ?_⟩
  split
  · exact ⟨h, fun hr => hr.elim⟩
  · refine inOrder_attempted h (fun s q hq => ?_) fun e q hq => ?_
    · exact obeys_bind.2 ((inOrder_next id hq).mono (fun _ _ ha => ha) fun _ _ he => he)
    · dsimp only
      rw [obeys_bind, obeys_note_iff]
      exact ⟨trivial, inOrder_skipped id hordered hq⟩

/-- However a rule ends, the errors are in order. -/
theorem inOrder_ends (hordered : Ordered tokens) {r : Rule} (h : Tidy tokens p) :
    (inOrder tokens).Ends r p (r.run n p) := by
  refine Contract.ends_along (c := inOrder tokens) (fun r p fault hp => ⟨hp, fault, rfl⟩)
    (fun n r p hp => ?_) h
  by_cases hexpression : r = .expression
  · rw [hexpression]
    exact inOrder_expression hordered hp
  by_cases hitems : r = .blockItems
  · rw [hitems]
    exact inOrder_blockItems hordered hp
  by_cases hstatements : r = .statements
  · rw [hstatements]
    exact inOrder_statements hordered hp
  by_cases hr : r.IsExpression
  · exact inOrder_of_silent (silent_expression hr hexpression) hordered (fun _ _ hs => hs) hp
      fun _ => .refl p
  · exact inOrder_of_silent (silent_statement hr hitems hstatements) hordered
      (fun hr' => absurd hr' hr) hp fun _ => .refl p

end

end Parse

/-! ## Errors of a source -/

/-- What stands in the right-hand side of an assignment stands behind its equals sign. -/
theorem CompileError.InRightHandSide.offset_lt {tokens : List Token} {e e' : CompileError}
    (h : e.InRightHandSide tokens e') (hordered : Ordered tokens)
    (hlen : ∀ t ∈ tokens, t.kind ≠ .eof → 0 < t.span.len) : e'.span.offset < e.span.offset := by
  obtain @⟨before, value, after, inner, outer, htokens, houter, -, hinner⟩ := h
  have hpos : 0 < outer.span.len := by
    refine hlen outer (by simp [htokens]) ?_
    rw [houter]
    decide
  have hstop : outer.span.offset + outer.span.len ≤ inner.span.offset :=
    hordered.stop_le_of_append htokens (List.mem_append_left _ hinner)
  exact Nat.lt_of_lt_of_le (Nat.lt_add_of_pos_right hpos) hstop

/-- All errors of a list of tokens that stand one behind the other are in order. -/
theorem Parsed.errors_mayPrecede {tokens : List Token} (hclosed : Closed tokens)
    (hordered : Ordered tokens) (supply : Supply) :
    (Parsed.ofTokens supply tokens).errors.Pairwise (CompileError.MayPrecede tokens) := by
  have hstart : Parse.Tidy tokens (Parser.start supply tokens) := by
    obtain ⟨ts, last, rfl, hlast⟩ := hclosed
    have hrest : (Parser.start supply (ts ++ [last])).rest = ts ++ [last] :=
      Parser.rest_start supply (by simp)
    refine ⟨⟨[], hrest.symm⟩, ⟨ts, last, hrest, hlast⟩, ?_, ?_⟩ <;> simp
  have hends := Parse.inOrder_ends (n := Parse.budget tokens) (r := .statements) hordered hstart
  unfold Parsed.ofTokens
  cases hrun : Parse.statements (Parse.budget tokens) (Parser.start supply tokens) with
  | ok statements q =>
    rw [Parse.Rule.run, hrun] at hends
    exact hends.1.order
  | error e q =>
    rw [Parse.Rule.run, hrun] at hends
    obtain ⟨hq, fault, rfl⟩ := hends
    have hnoted := (hq.note_current fault).order
    rwa [Array.toList_push] at hnoted

/-- Syntax errors come in source order, but for one case: the error that something cannot be
assigned to comes after those of the same sort from the right-hand side of its assignment. -/
theorem errors_in_source_order {source : String} {tokens : List Token}
    (h : scan source = .ok tokens) (supply : Supply) :
    (Parsed.ofTokens supply tokens).errors.Pairwise fun e e' =>
      e'.span.offset < e.span.offset ↔ e.InRightHandSide tokens e' := by
  have hordered := (inText_of_scan h).1
  refine (Parsed.errors_mayPrecede (closed_of_scan h) hordered supply).imp fun {e e'} hmay => ?_
  constructor
  · intro hlt
    exact hmay.resolve_left (Nat.not_le.2 hlt)
  · intro hinner
    exact hinner.offset_lt hordered fun t ht => len_pos_of_scan h ht

/-- A source is scanned, and its syntax errors are at these offsets. -/
def HasErrorsAt (source : String) (offsets : List Nat) : Prop :=
  (scan source).toOption.map (fun tokens =>
    (Parsed.ofTokens .initial tokens).errors.map fun e => e.span.offset) = some offsets

instance (source : String) (offsets : List Nat) : Decidable (HasErrorsAt source offsets) :=
  inferInstanceAs (Decidable (_ = _))

theorem HasErrorsAt.exists_scan {source : String} {offsets : List Nat}
    (h : HasErrorsAt source offsets) : ∃ tokens, scan source = .ok tokens ∧
      (Parsed.ofTokens .initial tokens).errors.map (fun e => e.span.offset) = offsets := by
  unfold HasErrorsAt at h
  cases hscan : scan source with
  | error errors =>
    rw [hscan] at h
    cases h
  | ok tokens =>
    rw [hscan] at h
    exact ⟨tokens, rfl, Option.some.inj h⟩

/-- Two assignments, one in the right-hand side of the other, and one behind both. -/
theorem errors_in_source_order_nested :
    ∃ tokens, scan "1 = 2 = 3; 4 = 5;" = .ok tokens ∧
      (Parsed.ofTokens .initial tokens).errors.map (fun e => e.span.offset) = [6, 2, 13] ∧
      (Parsed.ofTokens .initial tokens).errors.Pairwise fun e e' =>
        e'.span.offset < e.span.offset ↔ e.InRightHandSide tokens e' := by
  have herrors : HasErrorsAt "1 = 2 = 3; 4 = 5;" [6, 2, 13] := by decide +kernel
  obtain ⟨tokens, hscan, hoffsets⟩ := herrors.exists_scan
  exact ⟨tokens, hscan, hoffsets, errors_in_source_order hscan .initial⟩

/-- The error of the outer assignment comes last, although it stands first. -/
theorem nested_assignment_errors_out_of_order :
    ∃ tokens, scan "1 = 2 = 3;" = .ok tokens ∧
      ¬ (Parsed.ofTokens .initial tokens).errors.Pairwise fun e e' =>
        e.span.offset ≤ e'.span.offset := by
  have herrors : HasErrorsAt "1 = 2 = 3;" [6, 2] := by decide +kernel
  obtain ⟨tokens, hscan, hoffsets⟩ := herrors.exists_scan
  refine ⟨tokens, hscan, fun hsorted => ?_⟩
  have hle := List.pairwise_map.2 hsorted
  rw [hoffsets] at hle
  exact absurd hle (by decide)

end Lox
