import Lox.Proofs.Loop.Places
import Lox.Proofs.Scope.Visit
import Lox.Syntax.Parser

/-!
# Trees of `for` statements

Every `for` statement that is read has the tree of a `ForLoop`, which begins with a declaration or
an expression if it has an initializer, and whose body is no declaration
(`Parse.gives_forStatement`).

**Scopes.** Names in the condition are looked up at the place of the loop (`ForLoop.inside`), where
nothing is declared but what the initializer declares and what is declared around the statement
(`ForLoop.scopeDistance?_inside`).  Names in the body and in the increment are looked up at this
place, or in a scope of the round within it, which is empty (`ForLoop.occurrences_tree`,
`ForLoop.scopeDistance?_roundPlace`).
-/

namespace Lox

/-- The statement can stand before the first semicolon of a `for` statement. -/
def Stmt.isInitializer : Stmt → Bool
  | .var .. | .expression .. => true
  | _ => false

/-- The parts of a `for` statement are of the kinds that can be read. -/
structure ForLoop.IsLegal (loop : ForLoop) : Prop where
  /-- A variable is declared, or an expression is evaluated. -/
  initializer : ∀ s ∈ loop.initializer, s.isInitializer
  /-- A declaration is in a block of its own. -/
  body : loop.body.isDeclaration = false

/-! ## What is read -/

namespace Parse

variable {α β : Type}

/-- Whatever the action answers has the property. -/
def Gives (x : Parse α) (P : α → Prop) : Prop := ∀ p a p', x p = .ok a p' → P a

namespace Gives

variable {P Q : α → Prop}

theorem pure {a : α} (ha : P a) : Gives (Pure.pure a) P := by
  intro p a' p' h
  cases h
  exact ha

theorem fail (fault : SyntaxFault) : Gives (Parse.fail fault : Parse α) P := by
  intro p a p' h
  cases h

theorem bind {x : Parse β} {R : β → Prop} {f : β → Parse α} (hx : Gives x R)
    (hf : ∀ b, R b → Gives (f b) P) : Gives (x >>= f) P := by
  intro p a p' h
  obtain ⟨b, p₁, hb, ha⟩ := bind_eq_ok.1 h
  exact hf b (hx p b p₁ hb) p₁ a p' ha

/-- Only what comes last matters. -/
theorem last {x : Parse β} {f : β → Parse α} (hf : ∀ b, Gives (f b) P) : Gives (x >>= f) P :=
  bind (R := fun _ => True) (fun _ _ _ _ => trivial) fun b _ => hf b

theorem ite {c : Prop} [Decidable c] {x y : Parse α} (hx : Gives x P) (hy : Gives y P) :
    Gives (if c then x else y) P := by
  split
  · exact hx
  · exact hy

theorem weaken {x : Parse α} (h : Gives x Q) (himp : ∀ a, Q a → P a) : Gives x P :=
  fun p a p' ha => himp a (h p a p' ha)

end Gives

theorem gives_expressionStatement (n : Nat) :
    Gives (expressionStatement n) (fun s => ∃ value span, s = .expression value span) :=
  .last fun _ => .last fun _ => .last fun _ => .pure ⟨_, _, rfl⟩

theorem gives_varDeclaration (n : Nat) :
    Gives (varDeclaration n) (fun s => ∃ name value span, s = .var name value span) := by
  refine .last fun _ => .last fun _ => .last fun _ => .last fun _ => .ite ?_ ?_
  all_goals exact .last fun _ => .last fun _ => .last fun _ => .pure ⟨_, _, _, rfl⟩

/-! ### Statements are no declarations -/

theorem gives_printStatement (n : Nat) :
    Gives (printStatement n) (fun s => s.isDeclaration = false) :=
  .last fun _ => .last fun _ => .last fun _ => .last fun _ => .last fun _ => .pure rfl

theorem gives_returnStatement (n : Nat) :
    Gives (returnStatement n) (fun s => s.isDeclaration = false) := by
  refine .last fun _ => .last fun _ => .last fun _ => .ite ?_ ?_
  all_goals exact .last fun _ => .last fun _ => .last fun _ => .pure rfl

theorem gives_block (n : Nat) : Gives (block n) (fun s => s.isDeclaration = false) := by
  cases n with
  | zero => exact .fail _
  | succ n => exact .last fun _ => .last fun _ => .last fun _ => .last fun _ => .pure rfl

theorem gives_ifStatement (n : Nat) : Gives (ifStatement n) (fun s => s.isDeclaration = false) := by
  cases n with
  | zero => exact .fail _
  | succ n =>
    refine .last fun _ => .last fun _ => .last fun _ => .last fun _ => .last fun _ =>
      .last fun _ => .last fun _ => .ite ?_ ?_
    all_goals exact .last fun _ => .last fun _ => .pure rfl

theorem gives_whileStatement (n : Nat) :
    Gives (whileStatement n) (fun s => s.isDeclaration = false) := by
  cases n with
  | zero => exact .fail _
  | succ n =>
    exact .last fun _ => .last fun _ => .last fun _ => .last fun _ => .last fun _ =>
      .last fun _ => .last fun _ => .pure rfl

theorem isDeclaration_tree (loop : ForLoop) (node : Node) (span : Span) :
    (loop.tree node span).isDeclaration = false := by
  obtain ⟨initializer, condition, increment, body⟩ := loop
  cases initializer with
  | none => rfl
  | some first => rfl

/-! ### `for` statements -/

theorem gives_forInitializer (n : Nat) :
    Gives (forInitializer n) (fun first => ∀ s ∈ first, s.isInitializer) := by
  refine .last fun _ => .ite (.pure (by simp)) (.last fun _ => .ite ?_ ?_)
  · refine .bind (gives_varDeclaration n) fun s hs => .pure ?_
    obtain ⟨name, value, span, rfl⟩ := hs
    simp [Stmt.isInitializer]
  · refine .bind (gives_expressionStatement n) fun s hs => .pure ?_
    obtain ⟨value, span, rfl⟩ := hs
    simp [Stmt.isInitializer]

theorem gives_forCondition (n : Nat) :
    Gives (forCondition n) (fun e => ∃ (condition : Option Expr) (node : Node),
      e = condition.getD (.literal node (.bool true))) := by
  refine .last fun _ => .ite (.last fun _ => .last fun node => .pure ⟨none, node, rfl⟩) ?_
  intro p e p' _
  exact ⟨some e, ⟨0, e.span⟩, rfl⟩

theorem gives_forStatement_succ {n : Nat}
    (hbody : Gives (statement n) (fun s => s.isDeclaration = false)) :
    Gives (forStatement (n + 1)) (fun s => ∃ (loop : ForLoop) (node : Node) (span : Span),
      s = loop.tree node span ∧ loop.IsLegal) := by
  refine .last fun _ => .last fun _ => .last fun _ =>
    .bind (gives_forInitializer n) fun first hfirst =>
    .bind (gives_forCondition n) fun e he => .last fun _ => .last fun _ => .ite ?_ ?_
  all_goals
    refine .last fun increment => .last fun _ => .bind hbody fun body hbody => .last fun span => ?_
    obtain ⟨condition, node, rfl⟩ := he
    exact .pure ⟨⟨first, condition, increment, body⟩, node, span, rfl, hfirst, hbody⟩

theorem gives_statement (n : Nat) : Gives (statement n) (fun s => s.isDeclaration = false) := by
  induction n using Nat.strongRecOn with
  | ind n ih =>
    cases n with
    | zero => exact .fail _
    | succ n =>
      rw [statement]
      refine .last fun kind => ?_
      split
      · exact gives_printStatement n
      · exact gives_returnStatement n
      · exact gives_block n
      · exact gives_ifStatement n
      · exact gives_whileStatement n
      · cases n with
        | zero => exact .fail _
        | succ n =>
          refine (gives_forStatement_succ (ih n (by omega))).weaken fun s hs => ?_
          obtain ⟨loop, node, span, rfl, -⟩ := hs
          exact isDeclaration_tree loop node span
      · refine (gives_expressionStatement n).weaken fun s hs => ?_
        obtain ⟨value, span, rfl⟩ := hs
        rfl

/-- **Every `for` statement that is read** is the tree of its parts. -/
theorem gives_forStatement (n : Nat) :
    Gives (forStatement n) (fun s => ∃ (loop : ForLoop) (node : Node) (span : Span),
      s = loop.tree node span ∧ loop.IsLegal) := by
  cases n with
  | zero => exact .fail _
  | succ n => exact gives_forStatement_succ (gives_statement n)

end Parse

/-! ## Scopes of a `for` statement -/

namespace ForLoop

/-- The loop without its initializer. -/
def rest (loop : ForLoop) (node : Node) (span : Span) : Stmt :=
  .while (loop.testTree node) (loop.roundTree span) span

/-- The place of the initializer: a scope of its own, if there is one. -/
def firstPlace (loop : ForLoop) (node : Node) (span : Span) (place : Place) : Place :=
  match loop.initializer with
  | none => place
  | some first => place.enter (.block [first, loop.rest node span])

/-- The place of the condition, behind the initializer. -/
def inside (loop : ForLoop) (node : Node) (span : Span) (place : Place) : Place :=
  match loop.initializer with
  | none => place
  | some first => first.leave (loop.firstPlace node span place)

/-- The place of the body and of the increment. -/
def roundPlace (loop : ForLoop) (node : Node) (span : Span) (place : Place) : Place :=
  match loop.increment with
  | none => loop.inside node span place
  | some increment =>
    (loop.inside node span place).enter (.block [loop.body, .expression increment increment.span])

/-- Where a name in the condition is found: the loop's own variable in the scope of the loop, and
any other name around the statement. -/
def distance? (loop : ForLoop) (name : String) (place : Place) : Option Nat :=
  match loop.initializer with
  | none => scopeDistance? name place.names
  | some first =>
    if name ∈ first.declared then some 0
    else (scopeDistance? name place.names).map (· + 1)

variable {loop : ForLoop} {node : Node} {span : Span} {place : Place}

theorem orderly_body (h : (loop.tree node span).Orderly) : loop.body.Orderly := by
  obtain ⟨initializer, condition, increment, body⟩ := loop
  cases initializer <;> cases increment <;>
    simp only [tree, Stmt.forLoop, Stmt.Orderly, Stmt.OrderlyAll] at h
  · exact h.1
  · exact h.1.1
  · exact h.2.1.1
  · exact h.2.1.1.1

/-- **Places of a `for` statement.** The initializer, the condition, the body and the increment
stand in this order, and nothing that the body declares is left for the increment. -/
theorem occurrences_tree (hlegal : loop.IsLegal) (horderly : (loop.tree node span).Orderly) :
    (loop.tree node span).occurrences place =
      loop.initializer.elim [] (·.occurrences (loop.firstPlace node span place)) ++
      ((loop.testTree node).occurrences (loop.inside node span place) ++
        (loop.body.occurrences (loop.roundPlace node span place) ++
          Expr.occurrencesOption (loop.roundPlace node span place) loop.increment)) := by
  have hleave (place : Place) : loop.body.leave place = place :=
    Stmt.leave_of_not_declaration (orderly_body horderly) hlegal.body
  obtain ⟨initializer, condition, increment, body⟩ := loop
  cases initializer <;> cases increment <;>
    simp [tree, Stmt.forLoop, firstPlace, inside, roundPlace, rest, roundTree, testTree,
      Stmt.occurrences, Stmt.occurrencesAll, Expr.occurrencesOption, hleave]

/-- In the condition, only what the initializer declares hides what is around the statement. -/
theorem scopeDistance?_inside (hlegal : loop.IsLegal) (name : String) :
    scopeDistance? name (loop.inside node span place).names = loop.distance? name place := by
  obtain ⟨initializer, condition, increment, body⟩ := loop
  cases initializer with
  | none => rfl
  | some first =>
    have hfirst : first.isInitializer := hlegal.initializer first rfl
    cases first with
    | var declared value span' =>
      by_cases hname : declared = name
      · simp [inside, distance?, firstPlace, Stmt.leave, Stmt.declared, Place.enter, Place.bind,
          Place.names_cons, scopeDistance?, Bindings.contains, hname]
      · simp [inside, distance?, firstPlace, Stmt.leave, Stmt.declared, Place.enter, Place.bind,
          Place.names_cons, scopeDistance?, Bindings.contains, hname, Ne.symm hname]
    | expression value span' =>
      simp [inside, distance?, firstPlace, Stmt.leave, Stmt.declared, Place.enter,
        Place.names_cons, scopeDistance?, Bindings.contains]
    | _ => cases hfirst

/-- The scope of a round declares nothing. -/
theorem scopeDistance?_roundPlace (hlegal : loop.IsLegal) (name : String) :
    scopeDistance? name (loop.roundPlace node span place).names =
      if loop.increment.isSome then (loop.distance? name place).map (· + 1)
      else loop.distance? name place := by
  have hinside : scopeDistance? name (loop.inside node span place).names =
      loop.distance? name place := scopeDistance?_inside hlegal name
  rw [← hinside, roundPlace]
  cases loop.increment with
  | none => rfl
  | some increment =>
    simp [Place.enter, Place.names_cons, scopeDistance?, Bindings.contains]

end ForLoop

end Lox
