import Lox.Proofs.Syntax.Contract

/-!
# Places in trees and of errors

Every place in a tree, and that of every error, is the place of a token or is joined from such
places.  So whatever holds of the places of all tokens, and of two places joined if it holds of
both, holds of all places (`Parsed.placed`), also after errors.
-/

namespace Lox

/-! ## Trees -/

section

variable (P : Span → Prop)

mutual
/-- All places in the expression have the property. -/
def Expr.Placed : Expr → Prop
  | .literal node _ => P node.span
  | .grouping node inner => P node.span ∧ inner.Placed
  | .unary node _ operand => P node.span ∧ operand.Placed
  | .binary node _ left right opSpan =>
    P node.span ∧ left.Placed ∧ right.Placed ∧ P opSpan
  | .logical node _ left right => P node.span ∧ left.Placed ∧ right.Placed
  | .variable node _ => P node.span
  | .assign node _ value => P node.span ∧ value.Placed
  | .call node callee arguments paren =>
    P node.span ∧ callee.Placed ∧ Expr.PlacedAll arguments ∧ P paren
  | .new node callee arguments paren =>
    P node.span ∧ callee.Placed ∧ Expr.PlacedAll arguments ∧ P paren
  | .get node object _ nameSpan => P node.span ∧ object.Placed ∧ P nameSpan
  | .set node object _ nameSpan value =>
    P node.span ∧ object.Placed ∧ P nameSpan ∧ value.Placed
  | .this node => P node.span

/-- All places in the expressions have the property. -/
def Expr.PlacedAll : List Expr → Prop
  | [] => True
  | e :: es => e.Placed ∧ Expr.PlacedAll es
end

/-- All places in an expression that may be missing have the property. -/
def Expr.PlacedOption : Option Expr → Prop
  | none => True
  | some e => e.Placed P

mutual
/-- All places in the statement have the property. -/
def Stmt.Placed : Stmt → Prop
  | .expression value span => value.Placed P ∧ P span
  | .print value span => value.Placed P ∧ P span
  | .var _ initializer span => Expr.PlacedOption P initializer ∧ P span
  | .block body span => Stmt.PlacedAll body ∧ P span
  | .ifElse condition thenBranch none span =>
    condition.Placed P ∧ thenBranch.Placed ∧ P span
  | .ifElse condition thenBranch (some elseBranch) span =>
    condition.Placed P ∧ thenBranch.Placed ∧ elseBranch.Placed ∧ P span
  | .while condition body span => condition.Placed P ∧ body.Placed ∧ P span
  | .function decl span => decl.Placed ∧ P span
  | .class _ methods span => FunctionDecl.PlacedAll methods ∧ P span
  | .return value span => Expr.PlacedOption P value ∧ P span

/-- All places in the statements have the property. -/
def Stmt.PlacedAll : List Stmt → Prop
  | [] => True
  | s :: ss => s.Placed ∧ Stmt.PlacedAll ss

/-- All places in the function have the property. -/
def FunctionDecl.Placed : FunctionDecl → Prop
  | .mk _ _ _ body span => Stmt.PlacedAll body ∧ P span

/-- All places in the functions have the property. -/
def FunctionDecl.PlacedAll : List FunctionDecl → Prop
  | [] => True
  | f :: fs => f.Placed ∧ FunctionDecl.PlacedAll fs
end

/-- All places in a statement that may be missing have the property. -/
def Stmt.PlacedOption : Option Stmt → Prop
  | none => True
  | some s => s.Placed P

/-- The places of all tokens around the cursor, and of all errors, have the property. -/
structure Parser.Placed (p : Parser) : Prop where
  previous : P p.previous.span
  current : P p.current.span
  later : ∀ t ∈ p.later, P t.span
  errors : ∀ e ∈ p.errors, P e.span

end

section

variable {P : Span → Prop} {e : Expr} {s : Stmt} {ss : List Stmt} {f : FunctionDecl}
  {fs : List FunctionDecl} {p : Parser}

theorem Expr.Placed.span (h : e.Placed P) : P e.span := by
  cases e with
  | literal | «variable» | this => exact h
  | _ => exact h.1

theorem Stmt.Placed.of_mem (h : Stmt.PlacedAll P ss) (hs : s ∈ ss) : s.Placed P := by
  induction ss with
  | nil => cases hs
  | cons first ss ih =>
    rcases List.mem_cons.1 hs with rfl | hs
    · exact h.1
    · exact ih h.2 hs

theorem FunctionDecl.Placed.of_mem (h : FunctionDecl.PlacedAll P fs) (hf : f ∈ fs) :
    f.Placed P := by
  induction fs with
  | nil => cases hf
  | cons first fs ih =>
    rcases List.mem_cons.1 hf with rfl | hf
    · exact h.1
    · exact ih h.2 hf

theorem FunctionDecl.Placed.body (h : f.Placed P) : Stmt.PlacedAll P f.body := by
  cases f
  exact h.1

theorem Stmt.placed_ifElse {condition : Expr} {thenBranch : Stmt} {elseBranch : Option Stmt}
    {span : Span} :
    (Stmt.ifElse condition thenBranch elseBranch span).Placed P ↔
      condition.Placed P ∧ thenBranch.Placed P ∧ Stmt.PlacedOption P elseBranch ∧ P span := by
  cases elseBranch with
  | none => simp [Stmt.Placed, Stmt.PlacedOption]
  | some elseBranch => rfl

/-- The tree of a loop has no places of its own but that of the loop. -/
theorem Stmt.placed_forLoop {initializer : Option Stmt} {condition : Expr}
    {increment : Option Expr} {body : Stmt} {span : Span}
    (hinitializer : Stmt.PlacedOption P initializer) (hcondition : condition.Placed P)
    (hincrement : Expr.PlacedOption P increment) (hbody : body.Placed P) (hspan : P span) :
    (Stmt.forLoop initializer condition increment body span).Placed P := by
  have hloop : (Stmt.forLoop none condition increment body span).Placed P := by
    cases increment with
    | none => exact ⟨hcondition, hbody, hspan⟩
    | some value =>
      exact ⟨hcondition, ⟨⟨hbody, ⟨hincrement, hincrement.span⟩, trivial⟩, hspan⟩, hspan⟩
  cases initializer with
  | none => exact hloop
  | some first => exact ⟨⟨hinitializer, hloop, trivial⟩, hspan⟩

theorem Parser.Placed.advance (h : p.Placed P) : p.advance.Placed P := by
  unfold Parser.advance
  cases hlater : p.later with
  | nil => exact h
  | cons next later =>
    have hall := h.later
    rw [hlater] at hall
    dsimp only
    split
    · exact h
    · exact ⟨h.current, hall next (.head _), fun t ht => hall t (.tail _ ht), h.errors⟩

theorem Parser.placed_start (supply : Supply) {tokens : List Token} (hne : tokens ≠ [])
    (h : ∀ t ∈ tokens, P t.span) : (Parser.start supply tokens).Placed P := by
  cases tokens with
  | nil => exact absurd rfl hne
  | cons first later =>
    exact ⟨h first (.head _), h first (.head _), fun t ht => h t (.tail _ ht), by simp [start]⟩

end

namespace Parse

/-! ## The contract -/

section

variable (P : Span → Prop)

/-- All places in what a rule reads have the property. -/
def Rule.Places : (r : Rule) → r.Answer → Prop
  | .properties _, e => Expr.Placed P e
  | .parameterNames _, _ => True
  | .expression, e => Expr.Placed P e
  | .binary _, e => Expr.Placed P e
  | .operand _, e => Expr.Placed P e
  | .binaryTail .., e => Expr.Placed P e
  | .unary, e => Expr.Placed P e
  | .call, e => Expr.Placed P e
  | .callTail _, e => Expr.Placed P e
  | .instantiation, e => Expr.Placed P e
  | .arguments, es => Expr.PlacedAll P es
  | .argumentValues _, es => Expr.PlacedAll P es
  | .primary, e => Expr.Placed P e
  | .declaration, s => Stmt.Placed P s
  | .classDeclaration, s => Stmt.Placed P s
  | .methods, fs => FunctionDecl.PlacedAll P fs
  | .functionDeclaration, s => Stmt.Placed P s
  | .function _, f => FunctionDecl.Placed P f
  | .blockBody, ss => Stmt.PlacedAll P ss
  | .blockItems, ss => Stmt.PlacedAll P ss
  | .statement, s => Stmt.Placed P s
  | .block, s => Stmt.Placed P s
  | .ifStatement, s => Stmt.Placed P s
  | .whileStatement, s => Stmt.Placed P s
  | .forStatement, s => Stmt.Placed P s
  | .statements, ss => Stmt.PlacedAll P ss

/-- All places in the expression that a rule reads on after have the property. -/
def Rule.ReadsAfter : Rule → Prop
  | .properties left | .binaryTail _ left | .callTail left => left.Placed P
  | .parameterNames _ | .expression | .binary _ | .operand _ | .unary | .call | .instantiation
  | .arguments | .argumentValues _ | .primary | .declaration | .classDeclaration | .methods
  | .functionDeclaration | .function _ | .blockBody | .blockItems | .statement | .block
  | .ifStatement | .whileStatement | .forStatement | .statements => True

/-- The contract of all rules: whatever places there are have the property. -/
def placed : Contract where
  safe _ _ := True
  ready _ r p := p.Placed P ∧ r.ReadsAfter P
  reads r _ a q := q.Placed P ∧ r.Places P a
  stops _ _ e q := q.Placed P ∧ P e.span

namespace Reading

/-- If all places around the cursor have the property, a reading answers with `J`, and the places
around the cursor and those of all errors still have it. -/
def Yields {α : Type} (n : Nat) (x : Reading α) (J : α → Prop) : Prop :=
  ∀ q : Parser, q.Placed P →
    x.Obeys (placed P) n (fun a q' => q'.Placed P ∧ J a) (fun e q' => q'.Placed P ∧ P e.span) q

/-- If all places in the expression that a rule reads on after have the property, so have those
in what it reads. -/
def Passes (r : Rule) : Prop := ∀ n, r.ReadsAfter P → Yields P n (ofRule r) (r.Places P)

end Reading

end

namespace Reading

variable {α β : Type} {P : Span → Prop} {n : Nat} {J : α → Prop} {K : β → Prop}

/-! ## Single steps -/

theorem yields_pure {a : α} (h : J a) : Yields P n (pure a) J := fun _ hq => ⟨hq, h⟩

theorem yields_fail {fault : SyntaxFault} : Yields P n (.fail fault : Reading α) J :=
  fun _ hq => ⟨trivial, hq, hq.current⟩

theorem Yields.bind {x : Reading β} {f : β → Reading α} (hx : Yields P n x K)
    (hf : ∀ b, K b → Yields P n (f b) J) : Yields P n (x >>= f) J :=
  fun q hq => obeys_bind.2 ((hx q hq).mono (fun b q' hb => hf b hb.2 q' hb.1) fun _ _ => id)

theorem Yields.map {x : Reading β} {f : β → α} (hx : Yields P n x fun b => J (f b)) :
    Yields P n (f <$> x) J := .bind hx fun _ hb => yields_pure hb

/-- What comes after two branches need not be split. -/
theorem yields_ite_bind {c : Prop} [Decidable c] {x y : Reading β} {f : β → Reading α} :
    Yields P n (if c then x >>= f else y >>= f) J ↔
      Yields P n ((if c then x else y) >>= f) J := by
  split <;> rfl

theorem yields_ite {c : Prop} [Decidable c] {x y : Reading α} (hx : Yields P n x J)
    (hy : Yields P n y J) : Yields P n (if c then x else y) J := by
  split
  · exact hx
  · exact hy

theorem yields_look : Yields P n look fun t => P t.span :=
  fun _ hq => ⟨trivial, hq, hq.current⟩

theorem yields_peek : Yields P n peek fun _ => True := fun _ hq => ⟨trivial, hq, trivial⟩

theorem yields_atEnd : Yields P n atEnd fun _ => True := fun _ hq => ⟨trivial, hq, trivial⟩

theorem yields_here : Yields P n here P := fun _ hq => ⟨trivial, hq, hq.current⟩

theorem yields_before : Yields P n before P := fun _ hq => ⟨trivial, hq, hq.previous⟩

theorem yields_advance : Yields P n advance fun _ => True :=
  fun _ hq => ⟨trivial, hq.advance, trivial⟩

theorem yields_freshNode {span : Span} (h : P span) :
    Yields P n (freshNode span) fun node => P node.span :=
  fun _ hq => ⟨trivial, ⟨hq.previous, hq.current, hq.later, hq.errors⟩, h⟩

theorem yields_freshFunction : Yields P n freshFunction fun _ => True :=
  fun _ hq => ⟨trivial, ⟨hq.previous, hq.current, hq.later, hq.errors⟩, trivial⟩

theorem yields_note {error : CompileError} (h : P error.span) :
    Yields P n (note error) fun _ => True := fun q hq => by
  refine ⟨trivial, ⟨hq.previous, hq.current, hq.later, fun e he => ?_⟩, trivial⟩
  rcases Array.mem_push.1 he with he | rfl
  · exact hq.errors e he
  · exact h

theorem yields_accept (kind : Token.Kind) : Yields P n (accept kind) fun _ => True :=
  .bind yields_peek fun _ _ =>
    yields_ite (.bind yields_advance fun _ _ => yields_pure trivial) (yields_pure trivial)

theorem yields_expect (kind : Token.Kind) (missing : Missing) :
    Yields P n (expect kind missing) fun _ => True :=
  .bind yields_peek fun _ _ => yields_ite yields_advance yields_fail

theorem yields_expectName (missing : Missing) :
    Yields P n (expectName missing) fun _ => True :=
  .bind yields_peek fun _ _ =>
    yields_ite (.bind yields_look fun _ _ => .bind yields_advance fun _ _ => yields_pure trivial)
      yields_fail

theorem yields_seekBoundary (k : Nat) : Yields P n (seekBoundary k) fun _ => True := by
  induction k with
  | zero => exact yields_pure trivial
  | succ k ih =>
    refine .bind yields_look fun _ _ => yields_ite (yields_pure trivial) ?_
    have hback : Yields P n (move .lookBack answer) fun _ => True :=
      fun _ hq => ⟨trivial, hq, trivial⟩
    exact .bind hback fun _ _ =>
      yields_ite (yields_pure trivial) (.bind yields_advance fun _ _ => ih)

theorem yields_synchronize : Yields P n synchronize fun _ => True := by
  have hremaining : Yields P n (move .remaining answer) fun _ => True :=
    fun _ hq => ⟨trivial, hq, trivial⟩
  exact .bind yields_advance fun _ _ => .bind hremaining fun _ _ => yields_seekBoundary _

theorem yields_rule {r : Rule} (h : r.ReadsAfter P) : Yields P n (rule r) (r.Places P) :=
  fun _ hq => ⟨⟨hq, h⟩, fun _ _ ha => ha, fun _ _ he => he⟩

theorem yields_attempted {r : Rule} (h : r.ReadsAfter P) :
    Yields P n (attempted r)
      fun answer => (∀ a, answer = .ok a → r.Places P a) ∧ ∀ e, answer = .error e → P e.span := by
  refine fun _ hq => ⟨⟨hq, h⟩, fun a q ha => ⟨ha.1, fun b hb => ?_, fun e he => ?_⟩,
    fun e q he => ⟨he.1, fun b hb => ?_, fun e' he' => ?_⟩⟩
  · cases hb
    exact ha.2
  · cases he
  · cases hb
  · cases he'
    exact he.2

/-! ## Rules -/

section Rules

variable (hjoin : ∀ s t : Span, P s → P t → P (s.through t))

include hjoin

theorem yields_spanFrom {span : Span} (h : P span) : Yields P n (spanFrom span) P :=
  fun _ hq => ⟨trivial, hq, hjoin _ _ h hq.previous⟩

theorem yields_property {object : Expr} (h : object.Placed P) :
    Yields P n (property object) (Expr.Placed P) :=
  .bind (yields_expectName _) fun _ _ => .bind yields_before fun _ hname =>
    .bind (yields_freshNode (hjoin _ _ h.span hname)) fun _ hnode =>
      yields_pure ⟨hnode, h, hname⟩

omit hjoin in
theorem yields_parameters : Yields P n parameters fun _ => True := by
  refine .bind yields_peek fun _ _ => ?_
  rw [yields_ite_bind]
  exact .bind (K := fun _ => True)
    (yields_ite (yields_pure trivial) (yields_rule (r := .parameterNames 0) trivial))
    fun _ _ => .bind (yields_expect _ _) fun _ _ => yields_pure trivial

theorem yields_assignTo {target value : Expr} {equals : Token} (htarget : target.Placed P)
    (hvalue : value.Placed P) (hequals : P equals.span) :
    Yields P n (assignTo target value equals) (Expr.Placed P) := by
  have hspan := hjoin _ _ htarget.span hvalue.span
  unfold assignTo
  split
  · exact .bind (yields_freshNode hspan) fun _ hnode => yields_pure ⟨hnode, hvalue⟩
  · obtain ⟨-, hobject, hname⟩ := htarget
    exact .bind (yields_freshNode hspan) fun _ hnode =>
      yields_pure ⟨hnode, hobject, hname, hvalue⟩
  · exact .bind (yields_note hequals) fun _ _ => yields_pure htarget

theorem yields_expressionStatement : Yields P n expressionStatement (Stmt.Placed P) :=
  .bind (yields_rule trivial) fun _ hvalue => .bind (yields_expect _ _) fun _ _ =>
    .bind yields_before fun _ hlast =>
      yields_pure ⟨hvalue, hjoin _ _ (Expr.Placed.span hvalue) hlast⟩

omit hjoin in
theorem yields_optional (c : Prop) [Decidable c] :
    Yields P n (if c then some <$> rule .expression else pure none) (Expr.PlacedOption P) :=
  yields_ite (.map (yields_rule (r := .expression) trivial)) (yields_pure trivial)

omit hjoin in
theorem yields_unless (c : Prop) [Decidable c] :
    Yields P n (if c then pure none else some <$> rule .expression) (Expr.PlacedOption P) :=
  yields_ite (yields_pure trivial) (.map (yields_rule (r := .expression) trivial))

theorem yields_varDeclaration : Yields P n varDeclaration (Stmt.Placed P) := by
  refine .bind yields_here fun _ hstart => .bind yields_advance fun _ _ =>
    .bind (yields_expectName _) fun _ _ => .bind (yields_accept _) fun _ _ => ?_
  rw [yields_ite_bind]
  exact .bind (yields_optional _) fun _ hvalue => .bind (yields_expect _ _) fun _ _ =>
    .bind (yields_spanFrom hjoin hstart) fun _ hspan => yields_pure ⟨hvalue, hspan⟩

theorem yields_printStatement : Yields P n printStatement (Stmt.Placed P) :=
  .bind yields_here fun _ hstart => .bind yields_advance fun _ _ =>
    .bind (yields_rule trivial) fun _ hvalue => .bind (yields_expect _ _) fun _ _ =>
      .bind (yields_spanFrom hjoin hstart) fun _ hspan => yields_pure ⟨hvalue, hspan⟩

theorem yields_returnStatement : Yields P n returnStatement (Stmt.Placed P) := by
  refine .bind yields_here fun _ hstart => .bind yields_advance fun _ _ =>
    .bind yields_peek fun _ _ => ?_
  rw [yields_ite_bind]
  exact .bind (yields_unless _) fun _ hvalue => .bind (yields_expect _ _) fun _ _ =>
    .bind (yields_spanFrom hjoin hstart) fun _ hspan => yields_pure ⟨hvalue, hspan⟩

theorem yields_forInitializer : Yields P n forInitializer (Stmt.PlacedOption P) :=
  .bind (yields_accept _) fun _ _ => yields_ite (yields_pure trivial)
    (.bind yields_peek fun _ _ => yields_ite (.map (yields_varDeclaration hjoin))
      (.map (yields_expressionStatement hjoin)))

omit hjoin in
theorem yields_forCondition : Yields P n forCondition (Expr.Placed P) :=
  .bind yields_peek fun _ _ => yields_ite
    (.bind yields_here fun _ hspan => .bind (yields_freshNode hspan) fun _ hnode =>
      yields_pure hnode)
    (yields_rule trivial)

theorem passes_properties (object : Expr) : Passes P (.properties object) := by
  intro n h
  simp only [ofRule]
  exact .bind (yields_accept _) fun _ _ => yields_ite
    (.bind (yields_property hjoin h) fun _ hnext => yields_rule hnext) (yields_pure h)

omit hjoin in
theorem passes_parameterNames (count : Nat) : Passes P (.parameterNames count) := by
  intro n _
  simp only [ofRule]
  exact yields_ite yields_fail (.bind (yields_expectName _) fun _ _ =>
    .bind (yields_accept _) fun _ _ => yields_ite
      (.bind (yields_rule trivial) fun _ _ => yields_pure trivial) (yields_pure trivial))

theorem passes_expression : Passes P .expression := by
  intro n _
  simp only [ofRule]
  exact .bind (yields_rule trivial) fun _ htarget => .bind yields_peek fun _ _ => yields_ite
    (.bind yields_look fun _ hequals => .bind yields_advance fun _ _ =>
      .bind (yields_rule trivial) fun _ hvalue => yields_assignTo hjoin htarget hvalue hequals)
    (yields_pure htarget)

omit hjoin in
theorem passes_operand (level : Level) : Passes P (.operand level) := by
  intro n _
  simp only [ofRule]
  split <;> exact yields_rule trivial

theorem passes_binaryTail (level : Level) (left : Expr) : Passes P (.binaryTail level left) := by
  intro n h
  simp only [ofRule]
  refine .bind yields_peek fun _ _ => ?_
  split
  · exact yields_pure h
  · next op _ =>
    refine .bind yields_advance fun _ _ => .bind yields_before fun opSpan hopSpan =>
      .bind (yields_rule trivial) fun right hright =>
        .bind (yields_freshNode (hjoin _ _ (Expr.Placed.span h) (Expr.Placed.span hright)))
          fun node hnode => yields_rule ?_
    cases op with
    | logical op => exact ⟨hnode, h, hright⟩
    | binary op => exact ⟨hnode, h, hright, hopSpan⟩

theorem passes_unary : Passes P .unary := by
  intro n _
  simp only [ofRule]
  refine .bind yields_peek fun _ _ => ?_
  split
  · exact yields_rule trivial
  · exact .bind yields_here fun _ hstart => .bind yields_advance fun _ _ =>
      .bind (yields_rule trivial) fun _ hoperand =>
        .bind (yields_freshNode (hjoin _ _ hstart (Expr.Placed.span hoperand))) fun _ hnode =>
          yields_pure ⟨hnode, hoperand⟩

omit hjoin in
theorem passes_call : Passes P .call := by
  intro n _
  simp only [ofRule]
  refine .bind yields_peek fun _ _ => ?_
  rw [yields_ite_bind]
  exact .bind (K := Expr.Placed P)
    (yields_ite (yields_rule (r := .instantiation) trivial) (yields_rule (r := .primary) trivial))
    fun _ hcallee => yields_rule hcallee

theorem passes_callTail (callee : Expr) : Passes P (.callTail callee) := by
  intro n h
  simp only [ofRule]
  refine .bind (yields_accept _) fun _ _ => yields_ite ?_ ?_
  · exact .bind (yields_rule trivial) fun _ harguments => .bind yields_before fun _ hparen =>
      .bind (yields_freshNode (hjoin _ _ (Expr.Placed.span h) hparen)) fun _ hnode =>
        yields_rule ⟨hnode, h, harguments, hparen⟩
  · exact .bind (yields_accept _) fun _ _ => yields_ite
      (.bind (yields_property hjoin h) fun _ hnext => yields_rule hnext) (yields_pure h)

theorem passes_instantiation : Passes P .instantiation := by
  intro n _
  simp only [ofRule]
  refine .bind yields_here fun _ hstart => .bind yields_advance fun _ _ =>
    .bind (yields_rule trivial) fun _ hhead => .bind (yields_rule hhead) fun _ hcallee =>
      .bind (yields_accept _) fun _ _ => ?_
  rw [yields_ite_bind]
  exact .bind (K := Expr.PlacedAll P)
    (yields_ite (yields_rule (r := .arguments) trivial) (yields_pure trivial))
    fun _ harguments => .bind yields_before fun _ hparen =>
      .bind (yields_freshNode (hjoin _ _ hstart hparen)) fun _ hnode =>
        yields_pure ⟨hnode, hcallee, harguments, hparen⟩

omit hjoin in
theorem passes_arguments : Passes P .arguments := by
  intro n _
  simp only [ofRule]
  refine .bind yields_peek fun _ _ => ?_
  rw [yields_ite_bind]
  exact .bind (K := Expr.PlacedAll P)
    (yields_ite (yields_pure trivial) (yields_rule (r := .argumentValues 0) trivial))
    fun _ hvalues => .bind (yields_expect _ _) fun _ _ => yields_pure hvalues

omit hjoin in
theorem passes_argumentValues (count : Nat) : Passes P (.argumentValues count) := by
  intro n _
  simp only [ofRule]
  exact yields_ite yields_fail (.bind (yields_rule trivial) fun _ hvalue =>
    .bind (yields_accept _) fun _ _ => yields_ite
      (.bind (yields_rule trivial) fun _ hvalues => yields_pure ⟨hvalue, hvalues⟩)
      (yields_pure ⟨hvalue, trivial⟩))

theorem passes_primary : Passes P .primary := by
  intro n _
  simp only [ofRule]
  refine .bind yields_look fun token htoken => ?_
  have hsingle : ∀ make : Node → Expr, (∀ node : Node, P node.span → (make node).Placed P) →
      Yields P n (advance >>= fun _ => freshNode token.span >>= fun node => pure (make node))
        (Expr.Placed P) := fun make hmake =>
    .bind yields_advance fun _ _ => .bind (yields_freshNode htoken) fun node hnode =>
      yields_pure (hmake node hnode)
  split
  · exact hsingle _ fun _ hnode => hnode
  · exact yields_fail
  · split
    · exact hsingle _ fun _ hnode => hnode
    · exact hsingle _ fun _ hnode => hnode
    · exact .bind yields_advance fun _ _ => .bind (yields_rule trivial) fun _ hinner =>
        .bind (yields_expect _ _) fun _ _ => .bind (yields_spanFrom hjoin htoken) fun _ hspan =>
          .bind (yields_freshNode hspan) fun _ hnode => yields_pure ⟨hnode, hinner⟩
    · exact yields_fail

theorem passes_declaration : Passes P .declaration := by
  intro n _
  simp only [ofRule]
  refine .bind yields_peek fun _ _ => ?_
  split
  · exact yields_rule (r := .classDeclaration) trivial
  · exact yields_rule (r := .functionDeclaration) trivial
  · exact yields_varDeclaration hjoin
  · exact yields_fail
  · exact yields_fail
  · exact yields_rule (r := .statement) trivial

theorem passes_statement : Passes P .statement := by
  intro n _
  simp only [ofRule]
  refine .bind yields_peek fun _ _ => ?_
  split
  · exact yields_printStatement hjoin
  · exact yields_returnStatement hjoin
  · exact yields_rule (r := .block) trivial
  · exact yields_rule (r := .ifStatement) trivial
  · exact yields_rule (r := .whileStatement) trivial
  · exact yields_rule (r := .forStatement) trivial
  · exact yields_expressionStatement hjoin

theorem passes_classDeclaration : Passes P .classDeclaration := by
  intro n _
  simp only [ofRule]
  exact .bind yields_here fun _ hstart => .bind yields_advance fun _ _ =>
    .bind (yields_expectName _) fun _ _ => .bind (yields_expect _ _) fun _ _ =>
      .bind (yields_rule trivial) fun _ hmethods => .bind (yields_expect _ _) fun _ _ =>
        .bind (yields_spanFrom hjoin hstart) fun _ hspan => yields_pure ⟨hmethods, hspan⟩

omit hjoin in
theorem passes_methods : Passes P .methods := by
  intro n _
  simp only [ofRule]
  exact .bind yields_atEnd fun _ _ => .bind yields_peek fun _ _ => yields_ite
    (yields_pure trivial)
    (.bind (yields_rule trivial) fun _ hmethod => .bind (yields_rule trivial) fun _ hmethods =>
      yields_pure ⟨hmethod, hmethods⟩)

theorem passes_functionDeclaration : Passes P .functionDeclaration := by
  intro n _
  simp only [ofRule]
  exact .bind yields_here fun _ hstart => .bind yields_advance fun _ _ =>
    .bind (yields_rule trivial) fun _ hdecl => .bind (yields_spanFrom hjoin hstart) fun _ hspan =>
      yields_pure ⟨hdecl, hspan⟩

theorem passes_function (role : FunctionRole) : Passes P (.function role) := by
  intro n _
  simp only [ofRule]
  exact .bind yields_here fun _ hstart => .bind (yields_expectName _) fun _ _ =>
    .bind (yields_expect _ _) fun _ _ => .bind yields_parameters fun _ _ =>
      .bind (yields_expect _ _) fun _ _ => .bind (yields_rule trivial) fun _ hbody =>
        .bind yields_freshFunction fun _ _ => .bind (yields_spanFrom hjoin hstart)
          fun _ hspan => yields_pure ⟨hbody, hspan⟩

omit hjoin in
theorem passes_blockBody : Passes P .blockBody := by
  intro n _
  simp only [ofRule]
  exact .bind (yields_rule trivial) fun _ hbody => .bind (yields_expect _ _) fun _ _ =>
    yields_pure hbody

omit hjoin in
/-- The error that ends a statement is noted. -/
theorem passes_blockItems : Passes P .blockItems := by
  intro n _
  simp only [ofRule]
  refine .bind yields_atEnd fun _ _ => .bind yields_peek fun _ _ =>
    yields_ite (yields_pure trivial)
      (.bind (yields_attempted trivial) fun answer hanswer => ?_)
  cases answer with
  | ok s =>
    exact .bind (yields_rule trivial) fun _ hothers => yields_pure ⟨hanswer.1 s rfl, hothers⟩
  | error error =>
    refine .bind (yields_note (hanswer.2 error rfl)) fun _ _ => .bind yields_peek fun _ _ => ?_
    exact yields_ite (.bind yields_synchronize fun _ _ => yields_rule trivial) (yields_rule trivial)

omit hjoin in
theorem passes_statements : Passes P .statements := by
  intro n _
  simp only [ofRule]
  refine .bind yields_atEnd fun _ _ =>
    yields_ite (yields_pure trivial)
      (.bind (yields_attempted trivial) fun answer hanswer => ?_)
  cases answer with
  | ok s =>
    exact .bind (yields_rule trivial) fun _ hothers => yields_pure ⟨hanswer.1 s rfl, hothers⟩
  | error error =>
    exact .bind (yields_note (hanswer.2 error rfl)) fun _ _ =>
      .bind yields_synchronize fun _ _ => yields_rule trivial

theorem passes_block : Passes P .block := by
  intro n _
  simp only [ofRule]
  exact .bind yields_here fun _ hstart => .bind yields_advance fun _ _ =>
    .bind (yields_rule trivial) fun _ hbody => .bind (yields_spanFrom hjoin hstart) fun _ hspan =>
      yields_pure ⟨hbody, hspan⟩

theorem passes_ifStatement : Passes P .ifStatement := by
  intro n _
  simp only [ofRule]
  refine .bind yields_here fun _ hstart => .bind yields_advance fun _ _ =>
    .bind (yields_expect _ _) fun _ _ => .bind (yields_rule trivial) fun _ hcondition =>
      .bind (yields_expect _ _) fun _ _ => .bind (yields_rule trivial) fun _ hthen =>
        .bind (yields_accept _) fun _ _ => ?_
  rw [yields_ite_bind]
  exact .bind (K := Stmt.PlacedOption P)
    (yields_ite (.map (yields_rule (r := .statement) trivial)) (yields_pure trivial))
    fun _ helse => .bind (yields_spanFrom hjoin hstart) fun _ hspan =>
      yields_pure (Stmt.placed_ifElse.2 ⟨hcondition, hthen, helse, hspan⟩)

theorem passes_whileStatement : Passes P .whileStatement := by
  intro n _
  simp only [ofRule]
  exact .bind yields_here fun _ hstart => .bind yields_advance fun _ _ =>
    .bind (yields_expect _ _) fun _ _ => .bind (yields_rule trivial) fun _ hcondition =>
      .bind (yields_expect _ _) fun _ _ => .bind (yields_rule trivial) fun _ hbody =>
        .bind (yields_spanFrom hjoin hstart) fun _ hspan =>
          yields_pure ⟨hcondition, hbody, hspan⟩

theorem passes_forStatement : Passes P .forStatement := by
  intro n _
  simp only [ofRule]
  refine .bind yields_here fun _ hstart => .bind yields_advance fun _ _ =>
    .bind (yields_expect _ _) fun _ _ => .bind (yields_forInitializer hjoin)
      fun _ hinitializer => .bind yields_forCondition fun _ hcondition =>
        .bind (yields_expect _ _) fun _ _ => .bind yields_peek fun _ _ => ?_
  rw [yields_ite_bind]
  exact .bind (yields_unless _) fun _ hincrement => .bind (yields_expect _ _) fun _ _ =>
    .bind (yields_rule trivial) fun _ hbody => .bind (yields_spanFrom hjoin hstart)
      fun _ hspan =>
        yields_pure (Stmt.placed_forLoop hinitializer hcondition hincrement hbody hspan)

/-- Reading keeps the property. -/
theorem placed_kept : (placed P).Kept where
  zero _ p _ h := ⟨h.1, h.1.current⟩
  succ r := by
    suffices hpasses : Passes P r from fun n p h => hpasses n h.2 p h.1
    cases r with
    | properties object => exact passes_properties hjoin object
    | parameterNames count => exact passes_parameterNames count
    | expression => exact passes_expression hjoin
    | binary level =>
      exact fun n _ => .bind (yields_rule trivial) fun _ hleft => yields_rule hleft
    | operand level => exact passes_operand level
    | binaryTail level left => exact passes_binaryTail hjoin level left
    | unary => exact passes_unary hjoin
    | call => exact passes_call
    | callTail callee => exact passes_callTail hjoin callee
    | instantiation => exact passes_instantiation hjoin
    | arguments => exact passes_arguments
    | argumentValues count => exact passes_argumentValues count
    | primary => exact passes_primary hjoin
    | declaration => exact passes_declaration hjoin
    | classDeclaration => exact passes_classDeclaration hjoin
    | methods => exact passes_methods
    | functionDeclaration => exact passes_functionDeclaration hjoin
    | function role => exact passes_function hjoin role
    | blockBody => exact passes_blockBody
    | blockItems => exact passes_blockItems
    | statement => exact passes_statement hjoin
    | block => exact passes_block hjoin
    | ifStatement => exact passes_ifStatement hjoin
    | whileStatement => exact passes_whileStatement hjoin
    | forStatement => exact passes_forStatement hjoin
    | statements => exact passes_statements

end Rules

end Reading

end Parse

/-- What holds of the places of all tokens, and of places joined if it holds of each, holds of the
places of all errors and of all places in the program. -/
theorem Parsed.placed {P : Span → Prop} (hjoin : ∀ s t : Span, P s → P t → P (s.through t))
    {tokens : List Token} (hne : tokens ≠ []) (htokens : ∀ t ∈ tokens, P t.span)
    (supply : Supply) :
    (∀ e ∈ (Parsed.ofTokens supply tokens).errors, P e.span) ∧
      Stmt.PlacedAll P (Parsed.ofTokens supply tokens).program.statements := by
  have hready : (Parse.placed P).ready (Parse.budget tokens) .statements
      (Parser.start supply tokens) := ⟨Parser.placed_start supply hne htokens, trivial⟩
  have hends : (Parse.placed P).Ends .statements _
      (Parse.statements (Parse.budget tokens) (Parser.start supply tokens)) :=
    (Parse.Reading.placed_kept hjoin).ends hready
  rw [Parsed.ofTokens]
  cases hrun : Parse.statements (Parse.budget tokens) (Parser.start supply tokens) with
  | ok statements p =>
    rw [hrun] at hends
    obtain ⟨hp, hstatements⟩ := hends
    exact ⟨fun e he => hp.errors e (Array.mem_toList_iff.1 he), hstatements⟩
  | error e p =>
    rw [hrun] at hends
    obtain ⟨hp, he⟩ := hends
    refine ⟨fun e' he' => ?_, trivial⟩
    rcases List.mem_append.1 he' with he' | he'
    · exact hp.errors e' (Array.mem_toList_iff.1 he')
    · rw [List.mem_singleton.1 he']
      exact he

end Lox
