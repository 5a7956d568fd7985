import Lox.Proofs.Scope.Occurrence
import Lox.Proofs.Syntax.Cursor
import Lox.Proofs.Syntax.Orderly

/-!
# Numbers of what is read

Every expression that is read has a number of its own, and so has every function: the
numbers of a program are pairwise distinct, and they are between the supply before and the
supply after (`Parsed.nodup_numbers`, `Parsed.number_mem_range`).  This holds also after
errors.

**Counting.** `Numbers used x ids` says that the answer of an action contains each
number at most as often as it stands in `used`, and once more if the number was taken
from the supply by the action.  The list `used` holds the numbers of what was read
before and goes into the answer.
-/

namespace Lox

/-! ## Numbers of functions -/

mutual
/-- The numbers of the functions declared in a statement.  A function comes after the ones
in its body. -/
def Stmt.functionIds : Stmt → List Nat
  | .block body _ => Stmt.functionIdsAll body
  | .ifElse _ thenBranch none _ => thenBranch.functionIds
  | .ifElse _ thenBranch (some elseBranch) _ =>
    thenBranch.functionIds ++ elseBranch.functionIds
  | .while _ body _ => body.functionIds
  | .function decl _ => decl.functionIds
  | .class _ methods _ => FunctionDecl.functionIdsAll methods
  | _ => []

/-- The numbers of the functions declared in statements. -/
def Stmt.functionIdsAll : List Stmt → List Nat
  | [] => []
  | s :: ss => s.functionIds ++ Stmt.functionIdsAll ss

/-- The numbers of a function and of the functions in its body. -/
def FunctionDecl.functionIds : FunctionDecl → List Nat
  | .mk number _ _ body _ => Stmt.functionIdsAll body ++ [number]

/-- The numbers of functions and of the functions in their bodies. -/
def FunctionDecl.functionIdsAll : List FunctionDecl → List Nat
  | [] => []
  | f :: fs => f.functionIds ++ FunctionDecl.functionIdsAll fs
end

/-! ## Two kinds of numbers -/

/-- Expressions and functions are numbered apart. -/
inductive Numbered where
  | expression
  | function

namespace Numbered

/-- The next number of the supply. -/
def next : Numbered → Supply → Nat
  | .expression, supply => supply.node
  | .function, supply => supply.function

/-- The number of an expression. -/
def ofNode : Numbered → Node → List Nat
  | .expression, node => [node.id]
  | .function, _ => []

/-- The number of a function. -/
def ofFunction : Numbered → Nat → List Nat
  | .expression, _ => []
  | .function, number => [number]

end Numbered

/-- The numbers of one kind in an expression. -/
def Expr.numbers : Numbered → Expr → List Nat
  | .expression, e => e.ids
  | .function, _ => []

/-- The numbers of one kind in expressions. -/
def Expr.numbersAll : Numbered → List Expr → List Nat
  | .expression, es => Expr.idsAll es
  | .function, _ => []

/-- The numbers of one kind in an expression that may be missing. -/
def Expr.numbersOption : Numbered → Option Expr → List Nat
  | .expression, e => Expr.idsOption e
  | .function, _ => []

/-- The numbers of one kind in a statement. -/
def Stmt.numbers : Numbered → Stmt → List Nat
  | .expression, s => s.ids
  | .function, s => s.functionIds

/-- The numbers of one kind in statements. -/
def Stmt.numbersAll : Numbered → List Stmt → List Nat
  | .expression, ss => Stmt.idsAll ss
  | .function, ss => Stmt.functionIdsAll ss

/-- The numbers of one kind in a function. -/
def FunctionDecl.numbers : Numbered → FunctionDecl → List Nat
  | .expression, f => f.ids
  | .function, f => f.functionIds

/-- The numbers of one kind in functions. -/
def FunctionDecl.numbersAll : Numbered → List FunctionDecl → List Nat
  | .expression, fs => FunctionDecl.idsAll fs
  | .function, fs => FunctionDecl.functionIdsAll fs

namespace Parse

variable {α β : Type} {k : Numbered} {used : List Nat}

/-- One if the supply gave a number out between two states, else zero. -/
def issued (k : Numbered) (p p' : Parser) (i : Nat) : Nat :=
  if k.next p.supply ≤ i ∧ i < k.next p'.supply then 1 else 0

/-- The numbers in the answer are used ones and such as the action takes from the
supply, each of them once. -/
structure Numbers (k : Numbered) (used : List Nat) (x : Parse α) (ids : α → List Nat) : Prop where
  /-- An answer holds no number twice. -/
  answers : ∀ {p p' : Parser} {a : α}, x p = .ok a p' →
    k.next p.supply ≤ k.next p'.supply ∧
      ∀ i, (ids a).count i ≤ used.count i + issued k p p' i
  /-- No number is given back. -/
  stops : ∀ {p p' : Parser} {e : CompileError}, x p = .error e p' →
    k.next p.supply ≤ k.next p'.supply

namespace Numbers

variable {x : Parse α} {ids : α → List Nat}

theorem pure {a : α} (h : ∀ i, (ids a).count i ≤ used.count i) :
    Numbers k used (Pure.pure a) ids where
  answers := by
    rintro p p' b hx
    cases hx
    exact ⟨Nat.le_refl _, fun i => Nat.le_trans (h i) (Nat.le_add_right _ _)⟩
  stops := by
    intro p p' e hx
    cases hx

theorem answer {a : α} (h : ids a = used) : Numbers k used (Pure.pure a) ids :=
  pure fun i => Nat.le_of_eq (by rw [h])

theorem bind {f : α → Parse β} {ids' : β → List Nat} (hx : Numbers k used x ids)
    (hf : ∀ a, Numbers k (ids a) (f a) ids') : Numbers k used (x >>= f) ids' where
  answers := by
    intro p p' b h
    obtain ⟨a, p₁, h₁, h₂⟩ := bind_eq_ok.1 h
    obtain ⟨hle₁, hcount₁⟩ := hx.answers h₁
    obtain ⟨hle₂, hcount₂⟩ := (hf a).answers h₂
    refine ⟨Nat.le_trans hle₁ hle₂, fun i => ?_⟩
    have h₁ := hcount₁ i
    have h₂ := hcount₂ i
    unfold issued at *
    split at h₁ <;> split at h₂ <;> split <;> omega
  stops := by
    intro p p' e h
    rcases bind_eq_error.1 h with h | ⟨a, p₁, h₁, h₂⟩
    · exact hx.stops h
    · exact Nat.le_trans (hx.answers h₁).1 ((hf a).stops h₂)

/-- What was read before can go into the answer. -/
theorem frame (hx : Numbers k [] x ids) (used : List Nat) :
    Numbers k used x (fun a => used ++ ids a) where
  answers := by
    intro p p' a h
    obtain ⟨hle, hcount⟩ := hx.answers h
    refine ⟨hle, fun i => ?_⟩
    have h := hcount i
    simp only [List.count_nil, List.count_append] at h ⊢
    omega
  stops := hx.stops

/-- Numbers may be left out of the answer. -/
theorem weaken {ids' : α → List Nat} (hx : Numbers k used x ids)
    (h : ∀ a i, (ids' a).count i ≤ (ids a).count i) : Numbers k used x ids' where
  answers := by
    intro p p' a hp
    obtain ⟨hle, hcount⟩ := hx.answers hp
    exact ⟨hle, fun i => Nat.le_trans (h a i) (hcount i)⟩
  stops := hx.stops

/-- An action that takes nothing from the supply. -/
theorem quiet (h : ∀ p, (endState x p).supply = p.supply) :
    Numbers k used x (fun _ => used) where
  answers := by
    intro p p' a hp
    have hsupply := h p
    rw [endState_of_ok hp] at hsupply
    exact ⟨Nat.le_of_eq (congrArg k.next hsupply).symm, fun i => Nat.le_add_right _ _⟩
  stops := by
    intro p p' e hp
    have hsupply := h p
    rw [endState_of_error hp] at hsupply
    exact Nat.le_of_eq (congrArg k.next hsupply).symm

theorem fail (fault : SyntaxFault) : Numbers k used (Parse.fail fault : Parse α) ids where
  answers := by
    intro p p' a h
    cases h
  stops := by
    intro p p' e h
    cases h
    exact Nat.le_refl _

theorem get : Numbers k used get (fun _ => used) := quiet fun _ => rfl

theorem note (error : CompileError) : Numbers k used (Parse.note error) (fun _ => used) :=
  quiet fun _ => rfl

theorem peek : Numbers k used peek (fun _ => used) := quiet fun _ => rfl

theorem here : Numbers k used here (fun _ => used) := quiet fun _ => rfl

theorem before : Numbers k used before (fun _ => used) := quiet fun _ => rfl

theorem spanFrom (span : Span) : Numbers k used (Parse.spanFrom span) (fun _ => used) :=
  quiet fun _ => rfl

theorem advance : Numbers k used advance (fun _ => used) := quiet fun p => by
  simp [endState]

theorem accept (kind : Token.Kind) : Numbers k used (Parse.accept kind) (fun _ => used) :=
  quiet fun p => by
    rw [endState, accept_apply]
    by_cases h : p.kind = kind <;> simp [h]

theorem expect (kind : Token.Kind) (missing : Missing) :
    Numbers k used (Parse.expect kind missing) (fun _ => used) :=
  quiet fun p => by
    rw [endState, expect_apply]
    by_cases h : p.kind = kind <;> simp [h]

theorem expectName (missing : Missing) :
    Numbers k used (Parse.expectName missing) (fun _ => used) :=
  quiet fun p => by
    rw [endState, expectName_apply]
    by_cases h : p.kind = .identifier <;> simp [h]

theorem count_given (first i : Nat) :
    [first].count i ≤ if first ≤ i ∧ i < first + 1 then 1 else 0 := by
  by_cases hi : first = i <;> simp [hi]

theorem freshNode (span : Span) :
    Numbers k used (Parse.freshNode span) (fun node => used ++ k.ofNode node) where
  answers := by
    intro p p' node h
    cases h
    cases k with
    | expression =>
      refine ⟨Nat.le_succ _, fun i => ?_⟩
      rw [Numbered.ofNode, List.count_append]
      exact Nat.add_le_add_left (count_given _ i) _
    | function => exact ⟨Nat.le_refl _, fun i => by simp [Numbered.ofNode]⟩
  stops := by
    intro p p' e h
    cases h

theorem freshFunction :
    Numbers k used freshFunction (fun number => used ++ k.ofFunction number) where
  answers := by
    intro p p' number h
    cases h
    cases k with
    | expression => exact ⟨Nat.le_refl _, fun i => by simp [Numbered.ofFunction]⟩
    | function =>
      refine ⟨Nat.le_succ _, fun i => ?_⟩
      rw [Numbered.ofFunction, List.count_append]
      exact Nat.add_le_add_left (count_given _ i) _
  stops := by
    intro p p' e h
    cases h

theorem attempt (hx : Numbers k [] x ids) :
    Numbers k [] (Parse.attempt x) (fun | .ok a => ids a | .error _ => []) where
  answers := by
    intro p p' r h
    cases hx' : x p with
    | ok a p₁ =>
      rw [attempt_of_ok hx'] at h
      cases h
      exact hx.answers hx'
    | error e p₁ =>
      rw [attempt_of_error hx'] at h
      cases h
      exact ⟨hx.stops hx', fun i => Nat.zero_le _⟩
  stops := by
    intro p p' e h
    cases hx' : x p with
    | ok a p₁ => rw [attempt_of_ok hx'] at h; cases h
    | error e p₁ => rw [attempt_of_error hx'] at h; cases h

theorem some (hx : Numbers k [] x ids) :
    Numbers k [] (Option.some <$> x) (fun | none => [] | Option.some a => ids a) where
  answers := by
    intro p p' r h
    cases hx' : x p with
    | ok a p₁ =>
      rw [map_of_ok hx'] at h
      cases h
      exact hx.answers hx'
    | error e p₁ => rw [map_of_error hx'] at h; cases h
  stops := by
    intro p p' e h
    cases hx' : x p with
    | ok a p₁ => rw [map_of_ok hx'] at h; cases h
    | error e p₁ =>
      rw [map_of_error hx'] at h
      cases h
      exact hx.stops hx'

end Numbers

/-! ## Expressions -/

theorem numbers_property (object : Expr) :
    Numbers k (object.numbers k) (property object) (Expr.numbers k) :=
  .bind (.expectName _) fun _ => .bind .before fun _ =>
    .bind (.freshNode _) fun _ => .answer (by cases k <;> rfl)

theorem numbers_properties (n : Nat) (object : Expr) :
    Numbers k (object.numbers k) (properties n object) (Expr.numbers k) := by
  induction n generalizing object with
  | zero => exact .fail _
  | succ n ih =>
    refine .bind (.accept _) fun more => ?_
    split
    · exact .bind (numbers_property object) fun object' => ih object'
    · exact .answer (by cases k <;> rfl)

theorem numbers_assignTo (target value : Expr) (equals : Token) :
    Numbers k (target.numbers k ++ value.numbers k) (assignTo target value equals)
      (Expr.numbers k) := by
  unfold assignTo
  dsimp only
  split
  · refine .bind (.freshNode _) fun node => .pure fun i => ?_
    cases k <;> simp only [Expr.numbers, Expr.ids, Numbered.ofNode, List.count_append,
      List.count_nil] <;> omega
  · refine .bind (.freshNode _) fun node => .pure fun i => ?_
    cases k <;> simp only [Expr.numbers, Expr.ids, Numbered.ofNode, List.count_append,
      List.count_nil] <;> omega
  · refine .bind (.note _) fun _ => .pure fun i => ?_
    simp only [List.count_append]
    omega

theorem Operator.numbers_apply (op : Operator) (node : Node) (left right : Expr)
    (opSpan : Span) :
    (op.apply node left right opSpan).numbers k =
      left.numbers k ++ right.numbers k ++ k.ofNode node := by
  cases op <;> cases k <;> rfl

/-- What reading an expression and its parts with budget `n` does to the numbers. -/
structure ExprNumbers (k : Numbered) (n : Nat) : Prop where
  expression : Numbers k [] (expression n) (Expr.numbers k)
  binary : ∀ level, Numbers k [] (binary n level) (Expr.numbers k)
  operand : ∀ level, Numbers k [] (operand n level) (Expr.numbers k)
  binaryTail : ∀ level left, Numbers k (left.numbers k) (binaryTail n level left) (Expr.numbers k)
  unary : Numbers k [] (unary n) (Expr.numbers k)
  call : Numbers k [] (call n) (Expr.numbers k)
  callTail : ∀ callee, Numbers k (callee.numbers k) (callTail n callee) (Expr.numbers k)
  instantiation : Numbers k [] (instantiation n) (Expr.numbers k)
  arguments : Numbers k [] (arguments n) (Expr.numbersAll k)
  argumentValues : ∀ count, Numbers k [] (argumentValues n count) (Expr.numbersAll k)
  primary : Numbers k [] (primary n) (Expr.numbers k)

/-! ### Rules

A rule with one more unit of budget takes its numbers from the supply if the rules that it
calls do. -/

section Rules

variable {n : Nat} (ih : ExprNumbers k n)

include ih

theorem numbers_expression : Numbers k [] (expression (n + 1)) (Expr.numbers k) := by
  rw [expression]
  refine .bind (ih.binary _) fun target => .bind .peek fun kind => ?_
  split
  · exact .bind .get fun p => .bind .advance fun _ =>
      .bind (ih.expression.frame _) fun value => numbers_assignTo target value _
  · exact .answer (by cases k <;> rfl)

theorem numbers_binary (level : Level) : Numbers k [] (binary (n + 1) level) (Expr.numbers k) := by
  rw [binary]
  exact .bind (ih.operand level) fun left => ih.binaryTail level left

theorem numbers_operand (level : Level) :
    Numbers k [] (operand (n + 1) level) (Expr.numbers k) := by
  rw [operand]
  split
  · exact ih.binary _
  · exact ih.unary

theorem numbers_binaryTail (level : Level) (left : Expr) :
    Numbers k (left.numbers k) (binaryTail (n + 1) level left) (Expr.numbers k) := by
  rw [binaryTail]
  refine .bind .peek fun kind => ?_
  split
  · exact .answer (by cases k <;> rfl)
  · next op _ =>
    refine .bind .advance fun _ => .bind .before fun opSpan =>
      .bind ((ih.operand level).frame _) fun right => .bind (.freshNode _) fun node => ?_
    rw [← Operator.numbers_apply op node left right opSpan]
    exact ih.binaryTail level _

theorem numbers_unary : Numbers k [] (unary (n + 1)) (Expr.numbers k) := by
  rw [unary]
  refine .bind .peek fun kind => ?_
  split
  · exact ih.call
  · exact .bind .here fun start => .bind .advance fun _ => .bind ih.unary fun operand =>
      .bind (.freshNode _) fun node => .answer (by cases k <;> rfl)

theorem numbers_call : Numbers k [] (call (n + 1)) (Expr.numbers k) := by
  rw [call]
  refine .bind .peek fun kind => ?_
  dsimp only
  split
  · exact .bind ih.instantiation fun callee => ih.callTail callee
  · exact .bind ih.primary fun callee => ih.callTail callee

theorem numbers_callTail (callee : Expr) :
    Numbers k (callee.numbers k) (callTail (n + 1) callee) (Expr.numbers k) := by
  rw [callTail]
  refine .bind (.accept _) fun isCall => ?_
  split
  · refine .bind (ih.arguments.frame _) fun arguments => .bind .before fun paren =>
      .bind (.freshNode _) fun node => ?_
    have hnumbers : (Expr.call node callee arguments paren).numbers k =
        callee.numbers k ++ Expr.numbersAll k arguments ++ k.ofNode node := by
      cases k <;> rfl
    rw [← hnumbers]
    exact ih.callTail _
  · refine .bind (.accept _) fun isGet => ?_
    split
    · exact .bind (numbers_property callee) fun object => ih.callTail object
    · exact .answer (by cases k <;> rfl)

theorem numbers_instantiation : Numbers k [] (instantiation (n + 1)) (Expr.numbers k) := by
  rw [instantiation]
  refine .bind .here fun start => .bind .advance fun _ => .bind ih.primary fun head =>
    .bind (numbers_properties n head) fun callee => .bind (.accept _) fun more => ?_
  have finish (arguments : List Expr) :
      Numbers k (callee.numbers k ++ Expr.numbersAll k arguments)
        (do
          let paren ← before
          let node ← freshNode (start.through paren)
          return .new node callee arguments paren) (Expr.numbers k) :=
    .bind .before fun paren => .bind (.freshNode _) fun node =>
      .answer (by cases k <;> rfl)
  dsimp only
  split
  · exact .bind (ih.arguments.frame _) finish
  · exact .bind (.answer (by cases k <;> simp [Expr.numbersAll, Expr.idsAll])) finish

theorem numbers_arguments : Numbers k [] (arguments (n + 1)) (Expr.numbersAll k) := by
  rw [arguments]
  refine .bind .peek fun kind => ?_
  have finish (values : List Expr) :
      Numbers k (Expr.numbersAll k values)
        (do expect .rightParen .argumentsEnd; return values) (Expr.numbersAll k) :=
    .bind (.expect _ _) fun _ => .answer (by cases k <;> rfl)
  dsimp only
  split
  · exact .bind (.answer (by cases k <;> rfl)) finish
  · exact .bind (ih.argumentValues 0) finish

theorem numbers_argumentValues (count : Nat) :
    Numbers k [] (argumentValues (n + 1) count) (Expr.numbersAll k) := by
  rw [argumentValues]
  split
  · exact .fail _
  · refine .bind ih.expression fun value => .bind (.accept _) fun more => ?_
    split
    · exact .bind ((ih.argumentValues _).frame _) fun values =>
        .answer (by cases k <;> rfl)
    · exact .answer (by cases k <;> simp [Expr.numbers, Expr.numbersAll, Expr.idsAll])

theorem numbers_primary : Numbers k [] (primary (n + 1)) (Expr.numbers k) := by
  rw [primary]
  refine .bind .get fun p => ?_
  dsimp only
  split
  · exact .bind .advance fun _ => .bind (.freshNode _) fun node =>
      .answer (by cases k <;> rfl)
  · exact .fail _
  · split
    · exact .bind .advance fun _ => .bind (.freshNode _) fun node =>
        .answer (by cases k <;> rfl)
    · exact .bind .advance fun _ => .bind (.freshNode _) fun node =>
        .answer (by cases k <;> rfl)
    · exact .bind .advance fun _ => .bind ih.expression fun inner =>
        .bind (.expect _ _) fun _ => .bind (.spanFrom _) fun span =>
          .bind (.freshNode _) fun node => .answer (by cases k <;> rfl)
    · exact .fail _

end Rules

theorem numbers_exprs (n : Nat) : ExprNumbers k n := by
  induction n with
  | zero => constructor <;> intros <;> exact .fail _
  | succ n ih =>
    exact
      { expression := numbers_expression ih
        binary := numbers_binary ih
        operand := numbers_operand ih
        binaryTail := numbers_binaryTail ih
        unary := numbers_unary ih
        call := numbers_call ih
        callTail := numbers_callTail ih
        instantiation := numbers_instantiation ih
        arguments := numbers_arguments ih
        argumentValues := numbers_argumentValues ih
        primary := numbers_primary ih }

/-! ## Statements -/

theorem numbers_someExpression (n : Nat) :
    Numbers k [] (some <$> expression n) (Expr.numbersOption k) :=
  (numbers_exprs n).expression.some.weaken fun a i => by
    cases k <;> cases a <;> exact Nat.le_refl _

theorem numbers_expressionStatement (n : Nat) :
    Numbers k [] (expressionStatement n) (Stmt.numbers k) :=
  .bind (numbers_exprs n).expression fun value => .bind (.expect _ _) fun _ =>
    .bind .before fun span => .answer (by cases k <;> rfl)

theorem numbers_printStatement (n : Nat) : Numbers k [] (printStatement n) (Stmt.numbers k) :=
  .bind .here fun start => .bind .advance fun _ => .bind (numbers_exprs n).expression fun value =>
    .bind (.expect _ _) fun _ => .bind (.spanFrom _) fun span =>
      .answer (by cases k <;> rfl)

theorem numbers_varDeclaration (n : Nat) : Numbers k [] (varDeclaration n) (Stmt.numbers k) := by
  refine .bind .here fun start => .bind .advance fun _ => .bind (.expectName _) fun name =>
    .bind (.accept _) fun more => ?_
  have finish (initializer : Option Expr) :
      Numbers k (Expr.numbersOption k initializer)
        (do
          expect .semicolon .declarationEnd
          return .var name initializer (← spanFrom start)) (Stmt.numbers k) :=
    .bind (.expect _ _) fun _ => .bind (.spanFrom _) fun span =>
      .answer (by cases k <;> rfl)
  dsimp only
  split
  · exact .bind (numbers_someExpression n) finish
  · exact .bind (.answer (by cases k <;> rfl)) finish

theorem numbers_returnStatement (n : Nat) : Numbers k [] (returnStatement n) (Stmt.numbers k) := by
  refine .bind .here fun start => .bind .advance fun _ => .bind .peek fun kind => ?_
  have finish (value : Option Expr) :
      Numbers k (Expr.numbersOption k value)
        (do
          expect .semicolon .returnEnd
          return .return value (← spanFrom start)) (Stmt.numbers k) :=
    .bind (.expect _ _) fun _ => .bind (.spanFrom _) fun span =>
      .answer (by cases k <;> rfl)
  dsimp only
  split
  · exact .bind (.answer (by cases k <;> rfl)) finish
  · exact .bind (numbers_someExpression n) finish

/-- The numbers of a statement that may be missing. -/
def numbersOfOption (k : Numbered) : Option Stmt → List Nat
  | none => []
  | some s => s.numbers k

theorem numbers_some_stmt {x : Parse Stmt} (hx : Numbers k [] x (Stmt.numbers k)) :
    Numbers k [] (some <$> x) (numbersOfOption k) :=
  hx.some.weaken fun a i => by cases a <;> exact Nat.le_refl _

theorem numbers_forInitializer (n : Nat) : Numbers k [] (forInitializer n) (numbersOfOption k) := by
  refine .bind (.accept _) fun isMissing => ?_
  split
  · exact .answer (by cases k <;> rfl)
  · refine .bind .peek fun kind => ?_
    split
    · exact numbers_some_stmt (numbers_varDeclaration n)
    · exact numbers_some_stmt (numbers_expressionStatement n)

theorem numbers_forCondition (n : Nat) : Numbers k [] (forCondition n) (Expr.numbers k) := by
  refine .bind .peek fun kind => ?_
  split
  · exact .bind .here fun span => .bind (.freshNode _) fun node => .answer (by cases k <;> rfl)
  · exact (numbers_exprs n).expression

theorem count_numbers_forLoop (initializer : Option Stmt) (condition : Expr)
    (increment : Option Expr) (body : Stmt) (span : Span) (i : Nat) :
    ((Stmt.forLoop initializer condition increment body span).numbers k).count i =
      (numbersOfOption k initializer ++ condition.numbers k ++ Expr.numbersOption k increment ++
        body.numbers k).count i := by
  cases k with
  | expression =>
    cases initializer <;> cases increment <;>
      simp [Stmt.forLoop, Stmt.numbers, Stmt.ids, Stmt.idsAll, numbersOfOption, Expr.numbers,
        Expr.numbersOption, Expr.idsOption] <;> omega
  | function =>
    cases initializer <;> cases increment <;>
      simp [Stmt.forLoop, Stmt.numbers, Stmt.functionIds, Stmt.functionIdsAll,
        numbersOfOption, Expr.numbers, Expr.numbersOption]

/-- What reading a statement and its parts with budget `n` does to the numbers. -/
structure StmtNumbers (k : Numbered) (n : Nat) : Prop where
  declaration : Numbers k [] (declaration n) (Stmt.numbers k)
  classDeclaration : Numbers k [] (classDeclaration n) (Stmt.numbers k)
  methods : Numbers k [] (methods n) (FunctionDecl.numbersAll k)
  functionDeclaration : Numbers k [] (functionDeclaration n) (Stmt.numbers k)
  function : ∀ role, Numbers k [] (function n role) (FunctionDecl.numbers k)
  blockBody : Numbers k [] (blockBody n) (Stmt.numbersAll k)
  blockItems : Numbers k [] (blockItems n) (Stmt.numbersAll k)
  statement : Numbers k [] (statement n) (Stmt.numbers k)
  block : Numbers k [] (block n) (Stmt.numbers k)
  ifStatement : Numbers k [] (ifStatement n) (Stmt.numbers k)
  whileStatement : Numbers k [] (whileStatement n) (Stmt.numbers k)
  forStatement : Numbers k [] (forStatement n) (Stmt.numbers k)

theorem numbers_parameterNames (n count : Nat) :
    Numbers k used (parameterNames n count) (fun _ => used) := by
  induction n generalizing count with
  | zero => exact .fail _
  | succ n ih =>
    rw [parameterNames]
    split
    · exact .fail _
    · refine .bind (.expectName _) fun name => .bind (.accept _) fun more => ?_
      split
      · exact .bind (ih _) fun names => .answer rfl
      · exact .answer rfl

theorem numbers_parameters (n : Nat) : Numbers k used (parameters n) (fun _ => used) := by
  refine .bind .peek fun kind => ?_
  dsimp only
  split
  · exact .bind (.answer rfl) fun names => .bind (.expect _ _) fun _ =>
      .answer rfl
  · exact .bind (numbers_parameterNames n 0) fun names => .bind (.expect _ _) fun _ =>
      .answer rfl

theorem numbers_seekBoundary (n : Nat) : Numbers k used (seekBoundary n) (fun _ => used) := by
  induction n with
  | zero => exact .answer rfl
  | succ n ih =>
    refine .bind .get fun p => ?_
    split
    · exact .answer rfl
    · exact .bind .advance fun _ => ih

theorem numbers_synchronize : Numbers k used synchronize (fun _ => used) :=
  .bind .advance fun _ => .bind .get fun _ => numbers_seekBoundary _

/-! ### Rules

A rule with one more unit of budget takes its numbers from the supply if the rules that it
calls do. -/

section Rules

variable {n : Nat} (ih : StmtNumbers k n)

include ih

theorem numbers_declaration : Numbers k [] (declaration (n + 1)) (Stmt.numbers k) := by
  rw [declaration]
  refine .bind .peek fun kind => ?_
  split
  · exact ih.classDeclaration
  · exact ih.functionDeclaration
  · exact numbers_varDeclaration n
  · exact .fail _
  · exact .fail _
  · exact ih.statement

theorem numbers_classDeclaration : Numbers k [] (classDeclaration (n + 1)) (Stmt.numbers k) := by
  rw [classDeclaration]
  exact .bind .here fun start => .bind .advance fun _ => .bind (.expectName _) fun name =>
    .bind (.expect _ _) fun _ => .bind ih.methods fun methods =>
      .bind (.expect _ _) fun _ => .bind (.spanFrom _) fun span =>
        .answer (by cases k <;> rfl)

theorem numbers_methods : Numbers k [] (methods (n + 1)) (FunctionDecl.numbersAll k) := by
  rw [methods]
  refine .bind .get fun p => .bind .peek fun kind => ?_
  split
  · exact .answer (by cases k <;> rfl)
  · exact .bind (ih.function _) fun method => .bind (ih.methods.frame _) fun methods =>
      .answer (by cases k <;> rfl)

theorem numbers_functionDeclaration :
    Numbers k [] (functionDeclaration (n + 1)) (Stmt.numbers k) := by
  rw [functionDeclaration]
  exact .bind .here fun start => .bind .advance fun _ => .bind (ih.function _) fun decl =>
    .bind (.spanFrom _) fun span => .answer (by cases k <;> rfl)

theorem numbers_function (role : FunctionRole) :
    Numbers k [] (function (n + 1) role) (FunctionDecl.numbers k) := by
  rw [function]
  exact .bind .here fun start => .bind (.expectName _) fun name =>
    .bind (.expect _ _) fun _ => .bind (numbers_parameters n) fun params =>
      .bind (.expect _ _) fun _ => .bind ih.blockBody fun body =>
        .bind .freshFunction fun number => .bind (.spanFrom _) fun span =>
          .answer (by cases k <;> simp [FunctionDecl.numbers, FunctionDecl.ids,
            FunctionDecl.functionIds, Stmt.numbersAll, Numbered.ofFunction])

theorem numbers_blockBody : Numbers k [] (blockBody (n + 1)) (Stmt.numbersAll k) := by
  rw [blockBody]
  exact .bind ih.blockItems fun body => .bind (.expect _ _) fun _ =>
    .answer (by cases k <;> rfl)

theorem numbers_blockItems : Numbers k [] (blockItems (n + 1)) (Stmt.numbersAll k) := by
  rw [blockItems]
  refine .bind .get fun p => .bind .peek fun kind => ?_
  split
  · exact .answer (by cases k <;> rfl)
  · refine .bind (.attempt ih.declaration) fun r => ?_
    cases r with
    | ok stmt =>
      exact .bind (ih.blockItems.frame _) fun body =>
        .answer (by cases k <;> rfl)
    | error e =>
      refine .bind (.note _) fun _ => .bind .peek fun kind => ?_
      dsimp only
      split
      · exact .bind numbers_synchronize fun _ => ih.blockItems
      · exact ih.blockItems

theorem numbers_statement : Numbers k [] (statement (n + 1)) (Stmt.numbers k) := by
  rw [statement]
  refine .bind .peek fun kind => ?_
  split
  · exact numbers_printStatement n
  · exact numbers_returnStatement n
  · exact ih.block
  · exact ih.ifStatement
  · exact ih.whileStatement
  · exact ih.forStatement
  · exact numbers_expressionStatement n

theorem numbers_block : Numbers k [] (block (n + 1)) (Stmt.numbers k) := by
  rw [block]
  exact .bind .here fun start => .bind .advance fun _ => .bind ih.blockBody fun body =>
    .bind (.spanFrom _) fun span => .answer (by cases k <;> rfl)

theorem numbers_ifStatement : Numbers k [] (ifStatement (n + 1)) (Stmt.numbers k) := by
  rw [ifStatement]
  refine .bind .here fun start => .bind .advance fun _ => .bind (.expect _ _) fun _ =>
    .bind (numbers_exprs n).expression fun condition => .bind (.expect _ _) fun _ =>
      .bind (ih.statement.frame _) fun thenBranch => .bind (.accept _) fun more => ?_
  have finish (elseBranch : Option Stmt) :
      Numbers k (condition.numbers k ++ thenBranch.numbers k ++ numbersOfOption k elseBranch)
        (do return .ifElse condition thenBranch elseBranch (← spanFrom start))
        (Stmt.numbers k) := by
    refine .bind (.spanFrom _) fun span => .pure fun i => ?_
    cases k <;> cases elseBranch <;>
      simp [Stmt.numbers, Stmt.ids, Stmt.functionIds, Expr.numbers, numbersOfOption]
  dsimp only
  split
  · exact .bind ((numbers_some_stmt ih.statement).frame _) finish
  · exact .bind (.answer (by simp [numbersOfOption])) finish

theorem numbers_whileStatement : Numbers k [] (whileStatement (n + 1)) (Stmt.numbers k) := by
  rw [whileStatement]
  exact .bind .here fun start => .bind .advance fun _ => .bind (.expect _ _) fun _ =>
    .bind (numbers_exprs n).expression fun condition => .bind (.expect _ _) fun _ =>
      .bind (ih.statement.frame _) fun body => .bind (.spanFrom _) fun span =>
        .answer (by cases k <;> rfl)

theorem numbers_forStatement : Numbers k [] (forStatement (n + 1)) (Stmt.numbers k) := by
  rw [forStatement]
  refine .bind .here fun start => .bind .advance fun _ => .bind (.expect _ _) fun _ =>
    .bind (numbers_forInitializer n) fun initializer =>
      .bind ((numbers_forCondition n).frame _) fun condition =>
        .bind (.expect _ _) fun _ => .bind .peek fun kind => ?_
  have finish (increment : Option Expr) :
      Numbers k
        (numbersOfOption k initializer ++ condition.numbers k ++ Expr.numbersOption k increment)
        (do
          expect .rightParen .forClausesEnd
          let body ← statement n
          return .forLoop initializer condition increment body (← spanFrom start))
        (Stmt.numbers k) :=
    .bind (.expect _ _) fun _ => .bind (ih.statement.frame _) fun body =>
      .bind (.spanFrom _) fun span =>
        .pure fun i => Nat.le_of_eq (by rw [count_numbers_forLoop])
  dsimp only
  split
  · exact .bind (.answer (by cases k <;> simp [Expr.numbersOption, Expr.idsOption])) finish
  · exact .bind ((numbers_someExpression n).frame _) finish

end Rules

theorem numbers_stmts (n : Nat) : StmtNumbers k n := by
  induction n with
  | zero => constructor <;> intros <;> exact .fail _
  | succ n ih =>
    exact
      { declaration := numbers_declaration ih
        classDeclaration := numbers_classDeclaration ih
        methods := numbers_methods ih
        functionDeclaration := numbers_functionDeclaration ih
        function := numbers_function ih
        blockBody := numbers_blockBody ih
        blockItems := numbers_blockItems ih
        statement := numbers_statement ih
        block := numbers_block ih
        ifStatement := numbers_ifStatement ih
        whileStatement := numbers_whileStatement ih
        forStatement := numbers_forStatement ih }

theorem numbers_statements (n : Nat) : Numbers k [] (statements n) (Stmt.numbersAll k) := by
  induction n with
  | zero => exact .fail _
  | succ n ih =>
    rw [statements]
    refine .bind .get fun p => ?_
    split
    · exact .answer (by cases k <;> rfl)
    · refine .bind (.attempt (numbers_stmts n).declaration) fun r => ?_
      cases r with
      | ok stmt =>
        exact .bind (ih.frame _) fun body =>
          .answer (by cases k <;> rfl)
      | error e => exact .bind (.note _) fun _ => .bind numbers_synchronize fun _ => ih

end Parse

/-! ## Programs -/

/-- The numbers of the expressions in a program. -/
def Program.ids (p : Program) : List Nat := Stmt.idsAll p.statements

theorem Program.map_id_occurrences (p : Program) :
    p.occurrences.map Occurrence.id = p.ids := Stmt.map_id_occurrencesAll [] p.statements

/-- The numbers of one kind in a program. -/
def Program.numbers (k : Numbered) (p : Program) : List Nat := Stmt.numbersAll k p.statements

section

variable (k : Numbered) (supply : Supply) (tokens : List Token)

theorem Parsed.count_numbers (i : Nat) :
    let parsed := Parsed.ofTokens supply tokens
    k.next supply ≤ k.next parsed.supply ∧
      (parsed.program.numbers k).count i ≤
        if k.next supply ≤ i ∧ i < k.next parsed.supply then 1 else 0 := by
  have hsupply : (Parser.start supply tokens).supply = supply := by cases tokens <;> rfl
  have hnumbers := Parse.numbers_statements (k := k) (Parse.budget tokens)
  unfold Parsed.ofTokens
  cases h : Parse.statements (Parse.budget tokens) (Parser.start supply tokens) with
  | ok statements p =>
    obtain ⟨hle, hcount⟩ := hnumbers.answers h
    rw [hsupply] at hle
    have hcount := hcount i
    rw [Parse.issued, hsupply, List.count_nil, Nat.zero_add] at hcount
    exact ⟨hle, hcount⟩
  | error e p =>
    have hle := hnumbers.stops h
    rw [hsupply] at hle
    have hnone : Program.numbers k ⟨[]⟩ = [] := by cases k <;> rfl
    exact ⟨hle, by simp [hnone]⟩

/-- No two expressions, and no two functions, that are read have the same number. -/
theorem Parsed.nodup_numbers : ((Parsed.ofTokens supply tokens).program.numbers k).Nodup := by
  rw [List.nodup_iff_count]
  intro i
  have hcount := (Parsed.count_numbers k supply tokens i).2
  split at hcount <;> omega

end

/-- The numbers of what is read are taken from the supply. -/
theorem Parsed.number_mem_range {k : Numbered} {supply : Supply} {tokens : List Token} {i : Nat}
    (h : i ∈ (Parsed.ofTokens supply tokens).program.numbers k) :
    k.next supply ≤ i ∧ i < k.next (Parsed.ofTokens supply tokens).supply := by
  have hcount := (Parsed.count_numbers k supply tokens i).2
  have hpos := List.count_pos_iff.2 h
  split at hcount
  · assumption
  · omega

theorem Parsed.supply_le (k : Numbered) (supply : Supply) (tokens : List Token) :
    k.next supply ≤ k.next (Parsed.ofTokens supply tokens).supply :=
  (Parsed.count_numbers k supply tokens 0).1

theorem Parsed.nodup_ids (supply : Supply) (tokens : List Token) :
    (Parsed.ofTokens supply tokens).program.ids.Nodup :=
  Parsed.nodup_numbers .expression supply tokens

theorem Parsed.id_mem_range {supply : Supply} {tokens : List Token} {i : Nat}
    (h : i ∈ (Parsed.ofTokens supply tokens).program.ids) :
    supply.node ≤ i ∧ i < (Parsed.ofTokens supply tokens).supply.node :=
  Parsed.number_mem_range (k := .expression) h

/-! ## Compiled texts -/

section

variable {supply : Supply} {source : String} {c : Compiled}

/-- A text that does not compile uses up numbers, too. -/
theorem supply_le_compile (k : Numbered) (supply : Supply) (source : String) :
    k.next supply ≤ k.next (compile supply source).supply := by
  unfold compile
  split
  · exact Nat.le_refl _
  · exact Parsed.supply_le k supply _

/-- The numbers of a compiled text are taken from the supply. -/
theorem number_mem_range_of_compile {k : Numbered} (h : (compile supply source).result = .ok c)
    {i : Nat} (hi : i ∈ c.program.numbers k) :
    k.next supply ≤ i ∧ i < k.next (compile supply source).supply := by
  obtain ⟨tokens, -, hprogram, -, hsupply, -⟩ := compile_eq_ok h
  rw [hprogram] at hi
  rw [hsupply]
  exact Parsed.number_mem_range hi

theorem nodup_numbers_of_compile (k : Numbered) (h : (compile supply source).result = .ok c) :
    (c.program.numbers k).Nodup := by
  obtain ⟨tokens, -, hprogram, -, -, -⟩ := compile_eq_ok h
  rw [hprogram]
  exact Parsed.nodup_numbers k supply tokens

end

end Lox
