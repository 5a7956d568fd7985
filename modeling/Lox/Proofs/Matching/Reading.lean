import Lox.Proofs.Matching.Trees
import Lox.Proofs.Syntax.Cursor

/-!
# Reading alike

The same tokens, at corresponding places and read with numbers from another supply, give
matching trees and the same errors.  Reading never looks at numbers or places: two runs go
through the same states, except for these.

**Actions.** `Alike μ answers x x'` says this of two actions, where `answers` relates their
answers.  The place of what is read is put together from the places of its parts, so places
have to correspond if they are joined from corresponding ones (`Matching.JoinsPlaces`).
-/

namespace Lox

/-- The numbers that are left correspond one by one. -/
structure Supply.Matches (μ : Matching) (supply supply' : Supply) : Prop where
  /-- Numbers of expressions. -/
  node : ∀ j, μ.node (supply.node + j) (supply'.node + j)
  /-- Numbers of function declarations. -/
  function : ∀ j, μ.function (supply.function + j) (supply'.function + j)

/-- Corresponding states of reading. -/
structure Parser.Matches (μ : Matching) (p p' : Parser) : Prop where
  /-- The places of the tokens before the cursor correspond. -/
  previous : μ.span p.previous.span p'.previous.span
  /-- The tokens at the cursor match. -/
  current : p.current.Matches μ p'.current
  /-- So do the tokens after it. -/
  later : List.Forall₂ (Token.Matches μ) p.later p'.later
  /-- The numbers that are left correspond. -/
  supply : p.supply.Matches μ p'.supply
  /-- The errors noted so far match. -/
  errors : List.Forall₂ (CompileError.Matches μ) p.errors.toList p'.errors.toList

/-- Two ways of reading end alike: both answer, or both give up with the same error. -/
inductive Parse.Ends {α : Type} (μ : Matching) (answers : α → α → Prop) :
    EStateM.Result CompileError Parser α → EStateM.Result CompileError Parser α → Prop
  | ok {a a' p p'} : p.Matches μ p' → answers a a' → Ends μ answers (.ok a p) (.ok a' p')
  | error {e e' p p'} : p.Matches μ p' → e.Matches μ e' →
      Ends μ answers (.error e p) (.error e' p')

/-- From corresponding states, both actions end alike. -/
def Parse.Alike {α : Type} (μ : Matching) (answers : α → α → Prop) (x x' : Parse α) : Prop :=
  ∀ p p', p.Matches μ p' → Parse.Ends μ answers (x p) (x' p')

/-- Places that are joined from corresponding places correspond. -/
def Matching.JoinsPlaces (μ : Matching) : Prop :=
  ∀ first first' last last', μ.span first first' → μ.span last last' →
    μ.span (first.through last) (first'.through last')

variable {μ : Matching} {α β : Type}

theorem Matching.KeepsPlaces.joinsPlaces (hμ : μ.KeepsPlaces) : μ.JoinsPlaces := by
  intro first first' last last' hfirst hlast
  rw [hμ] at hfirst hlast ⊢
  rw [hfirst, hlast]

namespace Parser.Matches

variable {p p' : Parser}

theorem kind (h : p.Matches μ p') : p'.kind = p.kind := h.current.kind

theorem atEnd (h : p.Matches μ p') : p'.atEnd = p.atEnd := by
  rw [Parser.atEnd, Parser.atEnd, h.kind]

theorem advance (h : p.Matches μ p') : p.advance.Matches μ p'.advance := by
  have hlater := h.later
  unfold Parser.advance
  rw [h.atEnd]
  generalize p.later = later at hlater ⊢
  generalize p'.later = later' at hlater ⊢
  cases hlater with
  | nil => exact h
  | cons hnext hlater =>
    dsimp only
    split
    · exact h
    · exact { h with previous := h.current.span, current := hnext, later := hlater }

/-- Once a token is stepped over, the tokens before the cursor are of the same kind. -/
theorem kind_previous_advance (h : p.Matches μ p')
    (hp : p'.previous.kind = p.previous.kind ∨ p.kind ≠ .eof ∧ p.later ≠ []) :
    p'.advance.previous.kind = p.advance.previous.kind := by
  have hlater := h.later
  unfold Parser.advance
  rw [h.atEnd]
  generalize p.later = later at hlater hp ⊢
  generalize p'.later = later' at hlater ⊢
  cases hlater with
  | nil => exact hp.resolve_right fun h => h.2 rfl
  | cons =>
    dsimp only
    split
    · next hend => exact hp.resolve_right fun h => h.1 (by simpa [Parser.atEnd] using hend)
    · exact h.kind

theorem note (h : p.Matches μ p') {error error' : CompileError} (herror : error.Matches μ error') :
    Parser.Matches μ { p with errors := p.errors.push error }
      { p' with errors := p'.errors.push error' } := by
  refine { h with errors := ?_ }
  rw [Array.toList_push, Array.toList_push]
  exact List.rel_append h.errors (.cons herror .nil)

end Parser.Matches

namespace Parse.Alike

variable {answers : α → α → Prop} {answers' : β → β → Prop} {x x' : Parse α}

theorem pure {a a' : α} (h : answers a a') : Alike μ answers (Pure.pure a) (Pure.pure a') :=
  fun _ _ hp => .ok hp h

theorem bind {f f' : α → Parse β} (hx : Alike μ answers x x')
    (hf : ∀ a a', answers a a' → Alike μ answers' (f a) (f' a')) :
    Alike μ answers' (x >>= f) (x' >>= f') := by
  intro p p' hp
  have hends := hx p p' hp
  generalize h : x p = o at hends
  generalize h' : x' p' = o' at hends
  cases hends with
  | ok hq ha =>
    rw [bind_of_ok h, bind_of_ok h']
    exact hf _ _ ha _ _ hq
  | error hq he =>
    rw [bind_of_error h, bind_of_error h']
    exact .error hq he

/-- An action with the same answer goes first. -/
theorem after {f f' : α → Parse β} (hx : Alike μ Eq x x')
    (hf : ∀ a, Alike μ answers' (f a) (f' a)) : Alike μ answers' (x >>= f) (x' >>= f') := by
  apply hx.bind
  rintro a a' rfl
  exact hf a

theorem map {f : α → β} (hx : Alike μ answers x x')
    (hf : ∀ a a', answers a a' → answers' (f a) (f a')) :
    Alike μ answers' (f <$> x) (f <$> x') := by
  intro p p' hp
  have hends := hx p p' hp
  generalize h : x p = o at hends
  generalize h' : x' p' = o' at hends
  cases hends with
  | ok hq ha =>
    rw [map_of_ok h, map_of_ok h']
    exact .ok hq (hf _ _ ha)
  | error hq he =>
    rw [map_of_error h, map_of_error h']
    exact .error hq he

theorem fail (fault : SyntaxFault) : Alike μ answers (Parse.fail fault) (Parse.fail fault) :=
  fun _ _ hp => .error hp (.parse hp.current)

theorem get : Alike μ (Parser.Matches μ) get get := fun _ _ hp => .ok hp hp

theorem note {error error' : CompileError} (herror : error.Matches μ error') :
    Alike μ Eq (Parse.note error) (Parse.note error') :=
  fun _ _ hp => .ok (hp.note herror) rfl

theorem peek : Alike μ Eq peek peek := fun _ _ hp => .ok hp hp.kind.symm

theorem here : Alike μ μ.span here here := fun _ _ hp => .ok hp hp.current.span

theorem before : Alike μ μ.span before before := fun _ _ hp => .ok hp hp.previous

theorem spanFrom (hμ : μ.JoinsPlaces) {span span' : Span} (hspan : μ.span span span') :
    Alike μ μ.span (Parse.spanFrom span) (Parse.spanFrom span') :=
  fun _ _ hp => .ok hp (hμ _ _ _ _ hspan hp.previous)

theorem advance : Alike μ Eq advance advance := fun _ _ hp => .ok hp.advance rfl

theorem accept (kind : Token.Kind) : Alike μ Eq (Parse.accept kind) (Parse.accept kind) := by
  intro p p' hp
  rw [accept_apply, accept_apply, hp.kind]
  split
  · exact .ok hp.advance rfl
  · exact .ok hp rfl

theorem expect (kind : Token.Kind) (missing : Missing) :
    Alike μ Eq (Parse.expect kind missing) (Parse.expect kind missing) := by
  intro p p' hp
  rw [expect_apply, expect_apply, hp.kind]
  split
  · exact .ok hp.advance rfl
  · exact .error hp (.parse hp.current)

theorem expectName (missing : Missing) :
    Alike μ Eq (Parse.expectName missing) (Parse.expectName missing) := by
  intro p p' hp
  rw [expectName_apply, expectName_apply, hp.kind]
  split
  · exact .ok hp.advance hp.current.lexeme.symm
  · exact .error hp (.parse hp.current)

theorem attempt (hx : Alike μ answers x x') :
    Alike μ (fun r r' => (∃ a a', r = .ok a ∧ r' = .ok a' ∧ answers a a') ∨
      ∃ e e', r = .error e ∧ r' = .error e' ∧ e.Matches μ e')
      (Parse.attempt x) (Parse.attempt x') := by
  intro p p' hp
  have hends := hx p p' hp
  generalize h : x p = o at hends
  generalize h' : x' p' = o' at hends
  cases hends with
  | ok hq ha =>
    rw [attempt_of_ok h, attempt_of_ok h']
    exact .ok hq (.inl ⟨_, _, rfl, rfl, ha⟩)
  | error hq he =>
    rw [attempt_of_error h, attempt_of_error h']
    exact .ok hq (.inr ⟨_, _, rfl, rfl, he⟩)

theorem freshFunction : Alike μ μ.function freshFunction freshFunction := by
  intro p p' hp
  rw [freshFunction_apply, freshFunction_apply]
  have hfunction : ∀ j, μ.function (p.supply.function + 1 + j) (p'.supply.function + 1 + j) := by
    intro j
    rw [Nat.add_assoc, Nat.add_assoc]
    exact hp.supply.function (1 + j)
  exact .ok { hp with supply := ⟨hp.supply.node, hfunction⟩ } (hp.supply.function 0)

theorem freshNode {span span' : Span} (hspan : μ.span span span') :
    Alike μ (Node.Matches μ) (Parse.freshNode span) (Parse.freshNode span') := by
  intro p p' hp
  rw [freshNode_apply, freshNode_apply]
  have hnode : ∀ j, μ.node (p.supply.node + 1 + j) (p'.supply.node + 1 + j) := by
    intro j
    rw [Nat.add_assoc, Nat.add_assoc]
    exact hp.supply.node (1 + j)
  exact .ok { hp with supply := ⟨hnode, hp.supply.function⟩ } ⟨hp.supply.node 0, hspan⟩

end Parse.Alike

theorem Expr.Matches.span {e e' : Expr} (h : Expr.Matches μ e e') : μ.span e.span e'.span :=
  h.node.span

theorem Operator.apply_matches {node node' : Node} {left left' right right' : Expr}
    {opSpan opSpan' : Span} (op : Operator) (hnode : Node.Matches μ node node')
    (hleft : Expr.Matches μ left left') (hright : Expr.Matches μ right right')
    (hspan : μ.span opSpan opSpan') :
    Expr.Matches μ (op.apply node left right opSpan) (op.apply node' left' right' opSpan') := by
  cases op with
  | logical op => exact .logical hnode hleft hright
  | binary op => exact .binary hnode hleft hright hspan

/-- Loops match if their parts do. -/
theorem Stmt.forLoop_matches {initializer initializer' : Option Stmt}
    {condition condition' : Expr} {increment increment' : Option Expr} {body body' : Stmt}
    {span span' : Span} (hinitializer : Option.Rel (Stmt.Matches μ) initializer initializer')
    (hcondition : Expr.Matches μ condition condition')
    (hincrement : Expr.MatchesOption μ increment increment') (hbody : Stmt.Matches μ body body')
    (hspan : μ.span span span') :
    Stmt.Matches μ (Stmt.forLoop initializer condition increment body span)
      (Stmt.forLoop initializer' condition' increment' body' span') := by
  have hloop : ∀ {round round' : Stmt}, Stmt.Matches μ round round' →
      Stmt.Matches μ (.while condition round span) (.while condition' round' span') :=
    fun hround => .while hcondition hround hspan
  cases hincrement with
  | none =>
    cases hinitializer with
    | none => exact hloop hbody
    | some hfirst => exact .block (.cons hfirst (.cons (hloop hbody) .nil)) hspan
  | some hvalue =>
    have hround := Stmt.Matches.block
      (.cons hbody (.cons (.expression hvalue hvalue.span) .nil)) hspan
    cases hinitializer with
    | none => exact hloop hround
    | some hfirst => exact .block (.cons hfirst (.cons (hloop hround) .nil)) hspan

namespace Parse

/-! ## Expressions -/

/-- Matching tokens are the same written value, or none. -/
theorem constant?_eq {t t' : Token} (h : t.Matches μ t') : constant? t' = constant? t := by
  unfold constant?
  rw [h.kind, h.literal]

theorem alike_property (hμ : μ.JoinsPlaces) {object object' : Expr}
    (hobject : Expr.Matches μ object object') :
    Alike μ (Expr.Matches μ) (property object) (property object') :=
  .after (.expectName _) fun _ => .bind .before fun _ _ hname =>
    .bind (.freshNode (hμ _ _ _ _ hobject.span hname)) fun _ _ hnode =>
      .pure (.get hnode hobject hname)

theorem alike_properties (hμ : μ.JoinsPlaces) (n : Nat) {object object' : Expr}
    (hobject : Expr.Matches μ object object') :
    Alike μ (Expr.Matches μ) (properties n object) (properties n object') := by
  induction n generalizing object object' with
  | zero => exact .fail _
  | succ n ih =>
    refine .after (.accept _) fun _ => ?_
    split
    · exact .bind (alike_property hμ hobject) fun _ _ hget => ih hget
    · exact .pure hobject

theorem alike_parameterNames (n count : Nat) :
    Alike μ Eq (parameterNames n count) (parameterNames n count) := by
  induction n generalizing count with
  | zero => exact .fail _
  | succ n ih =>
    rw [parameterNames]
    split
    · exact .fail _
    · refine .after (.expectName _) fun _ => .after (.accept _) fun _ => ?_
      split
      · exact .after (ih _) fun _ => .pure rfl
      · exact .pure rfl

theorem alike_parameters (n : Nat) : Alike μ Eq (parameters n) (parameters n) := by
  refine .after .peek fun kind => ?_
  dsimp only
  split
  · exact .after (.pure rfl) fun _ => .after (.expect _ _) fun _ => .pure rfl
  · exact .after (alike_parameterNames n 0) fun _ => .after (.expect _ _) fun _ => .pure rfl

theorem alike_assignTo (hμ : μ.JoinsPlaces) {target target' value value' : Expr}
    {equals equals' : Token} (htarget : Expr.Matches μ target target')
    (hvalue : Expr.Matches μ value value') (hequals : equals.Matches μ equals') :
    Alike μ (Expr.Matches μ) (assignTo target value equals) (assignTo target' value' equals') := by
  have hspan : μ.span (target.span.through value.span) (target'.span.through value'.span) :=
    hμ _ _ _ _ htarget.span hvalue.span
  have hmatches := htarget
  cases htarget with
  | «variable» hnode =>
    exact .bind (.freshNode hspan) fun _ _ hnode => .pure (.assign hnode hvalue)
  | get _ hobject hname =>
    exact .bind (.freshNode hspan) fun _ _ hnode => .pure (.set hnode hobject hname hvalue)
  | _ => exact .after (.note (.parse hequals)) fun _ => .pure hmatches

/-- With this budget, expressions and their parts are read alike. -/
structure ExprsAlike (μ : Matching) (n : Nat) : Prop where
  expression : Alike μ (Expr.Matches μ) (expression n) (expression n)
  binary : ∀ level, Alike μ (Expr.Matches μ) (binary n level) (binary n level)
  operand : ∀ level, Alike μ (Expr.Matches μ) (operand n level) (operand n level)
  binaryTail : ∀ level left left', Expr.Matches μ left left' →
    Alike μ (Expr.Matches μ) (binaryTail n level left) (binaryTail n level left')
  unary : Alike μ (Expr.Matches μ) (unary n) (unary n)
  call : Alike μ (Expr.Matches μ) (call n) (call n)
  callTail : ∀ callee callee', Expr.Matches μ callee callee' →
    Alike μ (Expr.Matches μ) (callTail n callee) (callTail n callee')
  instantiation : Alike μ (Expr.Matches μ) (instantiation n) (instantiation n)
  arguments : Alike μ (Expr.MatchesAll μ) (arguments n) (arguments n)
  argumentValues : ∀ count,
    Alike μ (Expr.MatchesAll μ) (argumentValues n count) (argumentValues n count)
  primary : Alike μ (Expr.Matches μ) (primary n) (primary n)

/-! ### Rules

A rule with one more unit of budget is read alike if the rules that it calls are. -/

section Rules

variable {n : Nat} (hμ : μ.JoinsPlaces) (ih : ExprsAlike μ n)

include ih

theorem alike_binary (level : Level) :
    Alike μ (Expr.Matches μ) (binary (n + 1) level) (binary (n + 1) level) := by
  rw [binary]
  exact .bind (ih.operand level) fun _ _ hleft => ih.binaryTail level _ _ hleft

theorem alike_operand (level : Level) :
    Alike μ (Expr.Matches μ) (operand (n + 1) level) (operand (n + 1) level) := by
  rw [operand]
  split
  · exact ih.binary _
  · exact ih.unary

theorem alike_call : Alike μ (Expr.Matches μ) (call (n + 1)) (call (n + 1)) := by
  rw [call]
  refine .after .peek fun kind => ?_
  dsimp only
  split
  · exact .bind ih.instantiation fun _ _ hcallee => ih.callTail _ _ hcallee
  · exact .bind ih.primary fun _ _ hcallee => ih.callTail _ _ hcallee

theorem alike_arguments : Alike μ (Expr.MatchesAll μ) (arguments (n + 1)) (arguments (n + 1)) := by
  rw [arguments]
  refine .after .peek fun kind => ?_
  have finish (values values' : List Expr) (hvalues : Expr.MatchesAll μ values values') :
      Alike μ (Expr.MatchesAll μ)
        (do expect .rightParen .argumentsEnd; return values)
        (do expect .rightParen .argumentsEnd; return values') :=
    .after (.expect _ _) fun _ => .pure hvalues
  dsimp only
  split
  · exact .bind (.pure .nil) finish
  · exact .bind (ih.argumentValues 0) finish

theorem alike_argumentValues (count : Nat) :
    Alike μ (Expr.MatchesAll μ) (argumentValues (n + 1) count) (argumentValues (n + 1) count) := by
  rw [argumentValues]
  split
  · exact .fail _
  · refine .bind ih.expression fun _ _ hvalue => .after (.accept _) fun more => ?_
    split
    · exact .bind (ih.argumentValues _) fun _ _ hvalues => .pure (.cons hvalue hvalues)
    · exact .pure (.cons hvalue .nil)

include hμ

theorem alike_expression : Alike μ (Expr.Matches μ) (expression (n + 1)) (expression (n + 1)) := by
  rw [expression]
  refine .bind (ih.binary _) fun _ _ htarget => .after .peek fun kind => ?_
  split
  · exact .bind .get fun _ _ hp => .after .advance fun _ =>
      .bind ih.expression fun _ _ hvalue => alike_assignTo hμ htarget hvalue hp.current
  · exact .pure htarget

theorem alike_binaryTail (level : Level) {left left' : Expr}
    (hleft : Expr.Matches μ left left') :
    Alike μ (Expr.Matches μ) (binaryTail (n + 1) level left) (binaryTail (n + 1) level left') := by
  rw [binaryTail, binaryTail]
  refine .after .peek fun kind => ?_
  split
  · exact .pure hleft
  · exact .after .advance fun _ => .bind .before fun _ _ hop =>
      .bind (ih.operand level) fun _ _ hright =>
        .bind (.freshNode (hμ _ _ _ _ hleft.span hright.span)) fun _ _ hnode =>
          ih.binaryTail level _ _ (Operator.apply_matches _ hnode hleft hright hop)

theorem alike_unary : Alike μ (Expr.Matches μ) (unary (n + 1)) (unary (n + 1)) := by
  rw [unary]
  refine .after .peek fun kind => ?_
  split
  · exact ih.call
  · exact .bind .here fun _ _ hstart => .after .advance fun _ =>
      .bind ih.unary fun _ _ hoperand =>
        .bind (.freshNode (hμ _ _ _ _ hstart hoperand.span)) fun _ _ hnode =>
          .pure (.unary hnode hoperand)

theorem alike_callTail {callee callee' : Expr}
    (hcallee : Expr.Matches μ callee callee') :
    Alike μ (Expr.Matches μ) (callTail (n + 1) callee) (callTail (n + 1) callee') := by
  rw [callTail, callTail]
  refine .after (.accept _) fun isCall => ?_
  split
  · exact .bind ih.arguments fun _ _ harguments => .bind .before fun _ _ hparen =>
      .bind (.freshNode (hμ _ _ _ _ hcallee.span hparen)) fun _ _ hnode =>
        ih.callTail _ _ (.call hnode hcallee harguments hparen)
  · refine .after (.accept _) fun isGet => ?_
    split
    · exact .bind (alike_property hμ hcallee) fun _ _ hobject => ih.callTail _ _ hobject
    · exact .pure hcallee

theorem alike_instantiation :
    Alike μ (Expr.Matches μ) (instantiation (n + 1)) (instantiation (n + 1)) := by
  rw [instantiation]
  refine .bind .here fun start start' hstart => .after .advance fun _ =>
    .bind ih.primary fun _ _ hhead =>
    .bind (alike_properties hμ n hhead) fun callee callee' hcallee =>
    .after (.accept _) fun more => ?_
  have finish (arguments arguments' : List Expr)
      (harguments : Expr.MatchesAll μ arguments arguments') :
      Alike μ (Expr.Matches μ)
        (do
          let paren ← before
          let node ← freshNode (start.through paren)
          return .new node callee arguments paren)
        (do
          let paren ← before
          let node ← freshNode (start'.through paren)
          return .new node callee' arguments' paren) :=
    .bind .before fun _ _ hparen =>
      .bind (.freshNode (hμ _ _ _ _ hstart hparen)) fun _ _ hnode =>
        .pure (.new hnode hcallee harguments hparen)
  dsimp only
  split
  · exact .bind ih.arguments finish
  · exact .bind (.pure .nil) finish

theorem alike_primary : Alike μ (Expr.Matches μ) (primary (n + 1)) (primary (n + 1)) := by
  rw [primary]
  refine .bind .get fun p p' hp => ?_
  have hspan := hp.current.span
  dsimp only
  rw [constant?_eq hp.current, hp.current.kind, hp.current.lexeme]
  split
  · exact .after .advance fun _ => .bind (.freshNode hspan) fun _ _ hnode =>
      .pure (.literal hnode)
  · exact .fail _
  · split
    · exact .after .advance fun _ => .bind (.freshNode hspan) fun _ _ hnode =>
        .pure (.this hnode)
    · exact .after .advance fun _ => .bind (.freshNode hspan) fun _ _ hnode =>
        .pure (.variable hnode)
    · exact .after .advance fun _ => .bind ih.expression fun _ _ hinner =>
        .after (.expect _ _) fun _ => .bind (.spanFrom hμ hspan) fun _ _ hwhole =>
          .bind (.freshNode hwhole) fun _ _ hnode => .pure (.grouping hnode hinner)
    · exact .fail _

end Rules

theorem exprsAlike (hμ : μ.JoinsPlaces) (n : Nat) : ExprsAlike μ n := by
  induction n with
  | zero => constructor <;> intros <;> exact .fail _
  | succ n ih =>
    exact
      { expression := alike_expression hμ ih
        binary := alike_binary ih
        operand := alike_operand ih
        binaryTail := fun level _ _ hleft => alike_binaryTail hμ ih level hleft
        unary := alike_unary hμ ih
        call := alike_call ih
        callTail := fun _ _ hcallee => alike_callTail hμ ih hcallee
        instantiation := alike_instantiation hμ ih
        arguments := alike_arguments ih
        argumentValues := alike_argumentValues ih
        primary := alike_primary hμ ih }

/-! ## Statements -/

theorem alike_someExpression (hμ : μ.JoinsPlaces) (n : Nat) :
    Alike μ (Expr.MatchesOption μ) (some <$> expression n) (some <$> expression n) :=
  (exprsAlike hμ n).expression.map fun _ _ he => .some he

theorem alike_expressionStatement (hμ : μ.JoinsPlaces) (n : Nat) :
    Alike μ (Stmt.Matches μ) (expressionStatement n) (expressionStatement n) :=
  .bind (exprsAlike hμ n).expression fun _ _ hvalue => .after (.expect _ _) fun _ =>
    .bind .before fun _ _ hlast => .pure (.expression hvalue (hμ _ _ _ _ hvalue.span hlast))

theorem alike_varDeclaration (hμ : μ.JoinsPlaces) (n : Nat) :
    Alike μ (Stmt.Matches μ) (varDeclaration n) (varDeclaration n) := by
  refine .bind .here fun start start' hstart => .after .advance fun _ =>
    .after (.expectName _) fun name => .after (.accept _) fun more => ?_
  have finish (initializer initializer' : Option Expr)
      (hinitializer : Expr.MatchesOption μ initializer initializer') :
      Alike μ (Stmt.Matches μ)
        (do
          expect .semicolon .declarationEnd
          return .var name initializer (← spanFrom start))
        (do
          expect .semicolon .declarationEnd
          return .var name initializer' (← spanFrom start')) :=
    .after (.expect _ _) fun _ => .bind (.spanFrom hμ hstart) fun _ _ hspan =>
      .pure (.var hinitializer hspan)
  dsimp only
  split
  · exact .bind (alike_someExpression hμ n) finish
  · exact .bind (.pure .none) finish

theorem alike_printStatement (hμ : μ.JoinsPlaces) (n : Nat) :
    Alike μ (Stmt.Matches μ) (printStatement n) (printStatement n) :=
  .bind .here fun _ _ hstart => .after .advance fun _ =>
    .bind (exprsAlike hμ n).expression fun _ _ hvalue => .after (.expect _ _) fun _ =>
      .bind (.spanFrom hμ hstart) fun _ _ hspan => .pure (.print hvalue hspan)

theorem alike_returnStatement (hμ : μ.JoinsPlaces) (n : Nat) :
    Alike μ (Stmt.Matches μ) (returnStatement n) (returnStatement n) := by
  refine .bind .here fun start start' hstart => .after .advance fun _ =>
    .after .peek fun kind => ?_
  have finish (value value' : Option Expr) (hvalue : Expr.MatchesOption μ value value') :
      Alike μ (Stmt.Matches μ)
        (do
          expect .semicolon .returnEnd
          return .return value (← spanFrom start))
        (do
          expect .semicolon .returnEnd
          return .return value' (← spanFrom start')) :=
    .after (.expect _ _) fun _ => .bind (.spanFrom hμ hstart) fun _ _ hspan =>
      .pure (.return hvalue hspan)
  dsimp only
  split
  · exact .bind (.pure .none) finish
  · exact .bind (alike_someExpression hμ n) finish

theorem alike_forInitializer (hμ : μ.JoinsPlaces) (n : Nat) :
    Alike μ (Option.Rel (Stmt.Matches μ)) (forInitializer n) (forInitializer n) := by
  refine .after (.accept _) fun isMissing => ?_
  split
  · exact .pure .none
  · refine .after .peek fun kind => ?_
    split
    · exact (alike_varDeclaration hμ n).map fun _ _ hs => .some hs
    · exact (alike_expressionStatement hμ n).map fun _ _ hs => .some hs

theorem alike_forCondition (hμ : μ.JoinsPlaces) (n : Nat) :
    Alike μ (Expr.Matches μ) (forCondition n) (forCondition n) := by
  refine .after .peek fun kind => ?_
  split
  · exact .bind .here fun _ _ hspan => .bind (.freshNode hspan) fun _ _ hnode =>
      .pure (.literal hnode)
  · exact (exprsAlike hμ n).expression

/-- Behind tokens of the same kind, boundaries are sought alike. -/
theorem ends_seekBoundary (n : Nat) {p p' : Parser} (hp : p.Matches μ p')
    (hprevious : p'.previous.kind = p.previous.kind) :
    Ends μ Eq (seekBoundary n p) (seekBoundary n p') := by
  induction n generalizing p p' with
  | zero => exact .ok hp rfl
  | succ n ih =>
    rw [seekBoundary_succ, seekBoundary_succ, hp.atEnd, hprevious, hp.kind]
    split
    · exact .ok hp rfl
    · exact ih hp.advance (hp.kind_previous_advance (.inl hprevious))

/-- The token before the cursor makes no difference, because one is skipped first. -/
theorem alike_synchronize : Alike μ Eq synchronize synchronize := by
  intro p p' hp
  rw [synchronize_apply, synchronize_apply, ← hp.advance.later.length_eq]
  by_cases hend : p.kind = .eof
  · have hend' : p'.kind = .eof := hp.kind.trans hend
    rw [Parser.advance_of_eof hend, Parser.advance_of_eof hend', seekBoundary_of_eof hend,
      seekBoundary_of_eof hend']
    exact .ok hp rfl
  · by_cases hlater : p.later = []
    · have hnone : p.advance.later = [] := by rw [Parser.advance_of_later hlater, hlater]
      rw [hnone]
      exact .ok hp.advance rfl
    · exact ends_seekBoundary _ hp.advance (hp.kind_previous_advance (.inr ⟨hend, hlater⟩))

/-- With this budget, statements and their parts are read alike. -/
structure StmtsAlike (μ : Matching) (n : Nat) : Prop where
  declaration : Alike μ (Stmt.Matches μ) (declaration n) (declaration n)
  classDeclaration : Alike μ (Stmt.Matches μ) (classDeclaration n) (classDeclaration n)
  methods : Alike μ (FunctionDecl.MatchesAll μ) (methods n) (methods n)
  functionDeclaration : Alike μ (Stmt.Matches μ) (functionDeclaration n) (functionDeclaration n)
  function : ∀ role, Alike μ (FunctionDecl.Matches μ) (function n role) (function n role)
  blockBody : Alike μ (Stmt.MatchesAll μ) (blockBody n) (blockBody n)
  blockItems : Alike μ (Stmt.MatchesAll μ) (blockItems n) (blockItems n)
  statement : Alike μ (Stmt.Matches μ) (statement n) (statement n)
  block : Alike μ (Stmt.Matches μ) (block n) (block n)
  ifStatement : Alike μ (Stmt.Matches μ) (ifStatement n) (ifStatement n)
  whileStatement : Alike μ (Stmt.Matches μ) (whileStatement n) (whileStatement n)
  forStatement : Alike μ (Stmt.Matches μ) (forStatement n) (forStatement n)

/-! ### Rules

A rule with one more unit of budget is read alike if the rules that it calls are. -/

section Rules

variable {n : Nat} (hμ : μ.JoinsPlaces) (ih : StmtsAlike μ n)

include ih

theorem alike_methods :
    Alike μ (FunctionDecl.MatchesAll μ) (methods (n + 1)) (methods (n + 1)) := by
  rw [methods]
  refine .bind .get fun p p' hp => .after .peek fun kind => ?_
  rw [hp.atEnd]
  split
  · exact .pure .nil
  · exact .bind (ih.function _) fun _ _ hmethod =>
      .bind ih.methods fun _ _ hmethods => .pure (.cons hmethod hmethods)

theorem alike_blockBody : Alike μ (Stmt.MatchesAll μ) (blockBody (n + 1)) (blockBody (n + 1)) := by
  rw [blockBody]
  exact .bind ih.blockItems fun _ _ hbody => .after (.expect _ _) fun _ => .pure hbody

theorem alike_blockItems :
    Alike μ (Stmt.MatchesAll μ) (blockItems (n + 1)) (blockItems (n + 1)) := by
  rw [blockItems]
  refine .bind .get fun p p' hp => .after .peek fun kind => ?_
  rw [hp.atEnd]
  split
  · exact .pure .nil
  · refine .bind (.attempt ih.declaration) fun r r' hr => ?_
    rcases hr with ⟨s, s', rfl, rfl, hs⟩ | ⟨e, e', rfl, rfl, he⟩
    · exact .bind ih.blockItems fun _ _ hbody => .pure (.cons hs hbody)
    · refine .after (.note he) fun _ => .after .peek fun kind => ?_
      dsimp only
      split
      · exact .after alike_synchronize fun _ => ih.blockItems
      · exact ih.blockItems

include hμ

theorem alike_declaration :
    Alike μ (Stmt.Matches μ) (declaration (n + 1)) (declaration (n + 1)) := by
  rw [declaration]
  refine .after .peek fun kind => ?_
  split
  · exact ih.classDeclaration
  · exact ih.functionDeclaration
  · exact alike_varDeclaration hμ n
  · exact .fail _
  · exact .fail _
  · exact ih.statement

theorem alike_classDeclaration :
    Alike μ (Stmt.Matches μ) (classDeclaration (n + 1)) (classDeclaration (n + 1)) := by
  rw [classDeclaration]
  exact .bind .here fun _ _ hstart => .after .advance fun _ =>
    .after (.expectName _) fun _ => .after (.expect _ _) fun _ =>
      .bind ih.methods fun _ _ hmethods => .after (.expect _ _) fun _ =>
        .bind (.spanFrom hμ hstart) fun _ _ hspan => .pure (.class hmethods hspan)

theorem alike_functionDeclaration :
    Alike μ (Stmt.Matches μ) (functionDeclaration (n + 1)) (functionDeclaration (n + 1)) := by
  rw [functionDeclaration]
  exact .bind .here fun _ _ hstart => .after .advance fun _ =>
    .bind (ih.function _) fun _ _ hdecl => .bind (.spanFrom hμ hstart) fun _ _ hspan =>
      .pure (.function hdecl hspan)

theorem alike_function (role : FunctionRole) :
    Alike μ (FunctionDecl.Matches μ) (function (n + 1) role) (function (n + 1) role) := by
  rw [function]
  exact .bind .here fun _ _ hstart => .after (.expectName _) fun _ =>
    .after (.expect _ _) fun _ => .after (alike_parameters n) fun _ =>
      .after (.expect _ _) fun _ => .bind ih.blockBody fun _ _ hbody =>
        .bind .freshFunction fun _ _ hnumber => .bind (.spanFrom hμ hstart) fun _ _ hspan =>
          .pure (.mk hnumber hbody hspan)

theorem alike_statement : Alike μ (Stmt.Matches μ) (statement (n + 1)) (statement (n + 1)) := by
  rw [statement]
  refine .after .peek fun kind => ?_
  split
  · exact alike_printStatement hμ n
  · exact alike_returnStatement hμ n
  · exact ih.block
  · exact ih.ifStatement
  · exact ih.whileStatement
  · exact ih.forStatement
  · exact alike_expressionStatement hμ n

theorem alike_block : Alike μ (Stmt.Matches μ) (block (n + 1)) (block (n + 1)) := by
  rw [block]
  exact .bind .here fun _ _ hstart => .after .advance fun _ =>
    .bind ih.blockBody fun _ _ hbody => .bind (.spanFrom hμ hstart) fun _ _ hspan =>
      .pure (.block hbody hspan)

theorem alike_ifStatement :
    Alike μ (Stmt.Matches μ) (ifStatement (n + 1)) (ifStatement (n + 1)) := by
  rw [ifStatement]
  refine .bind .here fun start start' hstart => .after .advance fun _ =>
    .after (.expect _ _) fun _ =>
    .bind (exprsAlike hμ n).expression fun condition condition' hcondition =>
      .after (.expect _ _) fun _ => .bind ih.statement fun thenBranch thenBranch' hthen =>
        .after (.accept _) fun more => ?_
  have finish (elseBranch elseBranch' : Option Stmt)
      (helse : Option.Rel (Stmt.Matches μ) elseBranch elseBranch') :
      Alike μ (Stmt.Matches μ)
        (do return .ifElse condition thenBranch elseBranch (← spanFrom start))
        (do return .ifElse condition' thenBranch' elseBranch' (← spanFrom start')) := by
    refine .bind (.spanFrom hμ hstart) fun _ _ hspan => ?_
    cases helse with
    | none => exact .pure (.ifThen hcondition hthen hspan)
    | some helse => exact .pure (.ifElse hcondition hthen helse hspan)
  dsimp only
  split
  · exact .bind (ih.statement.map fun _ _ helse => .some helse) finish
  · exact .bind (.pure .none) finish

theorem alike_whileStatement :
    Alike μ (Stmt.Matches μ) (whileStatement (n + 1)) (whileStatement (n + 1)) := by
  rw [whileStatement]
  exact .bind .here fun _ _ hstart => .after .advance fun _ => .after (.expect _ _) fun _ =>
    .bind (exprsAlike hμ n).expression fun _ _ hcondition => .after (.expect _ _) fun _ =>
      .bind ih.statement fun _ _ hbody => .bind (.spanFrom hμ hstart) fun _ _ hspan =>
        .pure (.while hcondition hbody hspan)

theorem alike_forStatement :
    Alike μ (Stmt.Matches μ) (forStatement (n + 1)) (forStatement (n + 1)) := by
  rw [forStatement]
  refine .bind .here fun start start' hstart => .after .advance fun _ =>
    .after (.expect _ _) fun _ =>
    .bind (alike_forInitializer hμ n) fun initializer initializer' hinitializer =>
      .bind (alike_forCondition hμ n) fun condition condition' hcondition =>
        .after (.expect _ _) fun _ => .after .peek fun kind => ?_
  have finish (increment increment' : Option Expr)
      (hincrement : Expr.MatchesOption μ increment increment') :
      Alike μ (Stmt.Matches μ)
        (do
          expect .rightParen .forClausesEnd
          let body ← statement n
          return .forLoop initializer condition increment body (← spanFrom start))
        (do
          expect .rightParen .forClausesEnd
          let body ← statement n
          return .forLoop initializer' condition' increment' body (← spanFrom start')) :=
    .after (.expect _ _) fun _ => .bind ih.statement fun _ _ hbody =>
      .bind (.spanFrom hμ hstart) fun _ _ hspan =>
        .pure (Stmt.forLoop_matches hinitializer hcondition hincrement hbody hspan)
  dsimp only
  split
  · exact .bind (.pure .none) finish
  · exact .bind (alike_someExpression hμ n) finish

end Rules

theorem stmtsAlike (hμ : μ.JoinsPlaces) (n : Nat) : StmtsAlike μ n := by
  induction n with
  | zero => constructor <;> intros <;> exact .fail _
  | succ n ih =>
    exact
      { declaration := alike_declaration hμ ih
        classDeclaration := alike_classDeclaration hμ ih
        methods := alike_methods ih
        functionDeclaration := alike_functionDeclaration hμ ih
        function := alike_function hμ ih
        blockBody := alike_blockBody ih
        blockItems := alike_blockItems ih
        statement := alike_statement hμ ih
        block := alike_block hμ ih
        ifStatement := alike_ifStatement hμ ih
        whileStatement := alike_whileStatement hμ ih
        forStatement := alike_forStatement hμ ih }

theorem alike_statements (hμ : μ.JoinsPlaces) (n : Nat) :
    Alike μ (Stmt.MatchesAll μ) (statements n) (statements n) := by
  induction n with
  | zero => exact .fail _
  | succ n ih =>
    rw [statements]
    refine .bind .get fun p p' hp => ?_
    rw [hp.atEnd]
    split
    · exact .pure .nil
    · refine .bind (.attempt (stmtsAlike hμ n).declaration) fun r r' hr => ?_
      rcases hr with ⟨s, s', rfl, rfl, hs⟩ | ⟨e, e', rfl, rfl, he⟩
      · exact .bind ih fun _ _ hbody => .pure (.cons hs hbody)
      · exact .after (.note he) fun _ => .after alike_synchronize fun _ => ih

end Parse

/-! ## Programs -/

/-- What reading gives matches: the program, the errors and the numbers that are left. -/
structure Parsed.Matches (μ : Matching) (parsed parsed' : Parsed) : Prop where
  /-- The programs match. -/
  program : Stmt.MatchesAll μ parsed.program.statements parsed'.program.statements
  /-- So do the errors. -/
  errors : List.Forall₂ (CompileError.Matches μ) parsed.errors parsed'.errors
  /-- The numbers that are left correspond. -/
  supply : parsed.supply.Matches μ parsed'.supply

/-- Matching tokens, read with corresponding numbers, give matching programs and errors. -/
theorem Parsed.ofTokens_matches (hμ : μ.JoinsPlaces) {supply supply' : Supply}
    (hsupply : supply.Matches μ supply') {tokens tokens' : List Token}
    (htokens : List.Forall₂ (Token.Matches μ) tokens tokens') (hne : tokens ≠ []) :
    (Parsed.ofTokens supply tokens).Matches μ (Parsed.ofTokens supply' tokens') := by
  have hbudget : Parse.budget tokens' = Parse.budget tokens := by
    rw [Parse.budget, Parse.budget, htokens.length_eq]
  have hstart : (Parser.start supply tokens).Matches μ (Parser.start supply' tokens') := by
    cases htokens with
    | nil => exact absurd rfl hne
    | cons hfirst hlater => exact ⟨hfirst.span, hfirst, hlater, hsupply, .nil⟩
  have hends := Parse.alike_statements hμ (Parse.budget tokens) _ _ hstart
  unfold Parsed.ofTokens
  rw [hbudget]
  generalize Parse.statements (Parse.budget tokens) (Parser.start supply tokens) = o at hends ⊢
  generalize Parse.statements (Parse.budget tokens) (Parser.start supply' tokens') = o' at hends ⊢
  cases hends with
  | ok hq hss => exact ⟨hss, hq.errors, hq.supply⟩
  | error hq he => exact ⟨.nil, List.rel_append hq.errors (.cons he .nil), hq.supply⟩

end Lox
