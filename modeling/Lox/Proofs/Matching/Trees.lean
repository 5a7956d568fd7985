import Lox.CompileError
import Lox.Syntax
import Mathlib.Data.List.Forall2

/-!
# Matching trees

Two programs match if they are the same up to the numbers of their expressions and
functions and up to the places in the text.  A `Matching` says which numbers and places
correspond.

**Use.** The same text read twice gives matching trees, and so does a text that stands
behind another one.  What is said of two runs of matching trees also holds of two runs of
the same tree.
-/

namespace Lox

/-- Which numbers and places of two programs correspond. -/
structure Matching where
  /-- Numbers of expressions. -/
  node : Nat → Nat → Prop
  /-- Numbers of function declarations. -/
  function : Nat → Nat → Prop
  /-- Places in the text. -/
  span : Span → Span → Prop

/-- Whatever corresponds in the first way also does in the second one. -/
structure Matching.Refines (μ ν : Matching) : Prop where
  /-- Numbers of expressions. -/
  node : ∀ {i i'}, μ.node i i' → ν.node i i'
  /-- Numbers of function declarations. -/
  function : ∀ {i i'}, μ.function i i' → ν.function i i'
  /-- Places in the text. -/
  span : ∀ {s s'}, μ.span s s' → ν.span s s'

/-- Only equal numbers and places correspond. -/
def Matching.same : Matching := ⟨Eq, Eq, Eq⟩

/-- All numbers and all places correspond. -/
def Matching.loose : Matching := ⟨fun _ _ => True, fun _ _ => True, fun _ _ => True⟩

section

variable (μ : Matching)

/-- Numbers and places of two expressions correspond. -/
structure Node.Matches (node node' : Node) : Prop where
  /-- The numbers do. -/
  id : μ.node node.id node'.id
  /-- So do the places. -/
  span : μ.span node.span node'.span

mutual
/-- The expressions match. -/
inductive Expr.Matches : Expr → Expr → Prop
  | literal {node node' value} :
      Node.Matches μ node node' → Expr.Matches (.literal node value) (.literal node' value)
  | grouping {node node' inner inner'} :
      Node.Matches μ node node' → Expr.Matches inner inner' →
      Expr.Matches (.grouping node inner) (.grouping node' inner')
  | unary {node node' op operand operand'} :
      Node.Matches μ node node' → Expr.Matches operand operand' →
      Expr.Matches (.unary node op operand) (.unary node' op operand')
  | binary {node node' op left left' right right' opSpan opSpan'} :
      Node.Matches μ node node' → Expr.Matches left left' → Expr.Matches right right' →
      μ.span opSpan opSpan' →
      Expr.Matches (.binary node op left right opSpan) (.binary node' op left' right' opSpan')
  | logical {node node' op left left' right right'} :
      Node.Matches μ node node' → Expr.Matches left left' → Expr.Matches right right' →
      Expr.Matches (.logical node op left right) (.logical node' op left' right')
  | variable {node node' name} :
      Node.Matches μ node node' → Expr.Matches (.variable node name) (.variable node' name)
  | assign {node node' name value value'} :
      Node.Matches μ node node' → Expr.Matches value value' →
      Expr.Matches (.assign node name value) (.assign node' name value')
  | call {node node' callee callee' arguments arguments' paren paren'} :
      Node.Matches μ node node' → Expr.Matches callee callee' →
      Expr.MatchesAll arguments arguments' → μ.span paren paren' →
      Expr.Matches (.call node callee arguments paren) (.call node' callee' arguments' paren')
  | new {node node' callee callee' arguments arguments' paren paren'} :
      Node.Matches μ node node' → Expr.Matches callee callee' →
      Expr.MatchesAll arguments arguments' → μ.span paren paren' →
      Expr.Matches (.new node callee arguments paren) (.new node' callee' arguments' paren')
  | get {node node' object object' name nameSpan nameSpan'} :
      Node.Matches μ node node' → Expr.Matches object object' → μ.span nameSpan nameSpan' →
      Expr.Matches (.get node object name nameSpan) (.get node' object' name nameSpan')
  | set {node node' object object' name nameSpan nameSpan' value value'} :
      Node.Matches μ node node' → Expr.Matches object object' → μ.span nameSpan nameSpan' →
      Expr.Matches value value' →
      Expr.Matches (.set node object name nameSpan value)
        (.set node' object' name nameSpan' value')
  | this {node node'} : Node.Matches μ node node' → Expr.Matches (.this node) (.this node')

/-- The expressions match one by one. -/
inductive Expr.MatchesAll : List Expr → List Expr → Prop
  | nil : Expr.MatchesAll [] []
  | cons {e e' es es'} :
      Expr.Matches e e' → Expr.MatchesAll es es' → Expr.MatchesAll (e :: es) (e' :: es')
end

/-- The expressions match, or both are missing. -/
inductive Expr.MatchesOption : Option Expr → Option Expr → Prop
  | none : Expr.MatchesOption none none
  | some {e e'} : Expr.Matches μ e e' → Expr.MatchesOption (some e) (some e')

mutual
/-- The statements match. -/
inductive Stmt.Matches : Stmt → Stmt → Prop
  | expression {value value' span span'} :
      Expr.Matches μ value value' → μ.span span span' →
      Stmt.Matches (.expression value span) (.expression value' span')
  | print {value value' span span'} :
      Expr.Matches μ value value' → μ.span span span' →
      Stmt.Matches (.print value span) (.print value' span')
  | var {name initializer initializer' span span'} :
      Expr.MatchesOption μ initializer initializer' → μ.span span span' →
      Stmt.Matches (.var name initializer span) (.var name initializer' span')
  | block {body body' span span'} :
      Stmt.MatchesAll body body' → μ.span span span' →
      Stmt.Matches (.block body span) (.block body' span')
  | ifThen {condition condition' thenBranch thenBranch' span span'} :
      Expr.Matches μ condition condition' → Stmt.Matches thenBranch thenBranch' →
      μ.span span span' →
      Stmt.Matches (.ifElse condition thenBranch none span)
        (.ifElse condition' thenBranch' none span')
  | ifElse {condition condition' thenBranch thenBranch' elseBranch elseBranch' span span'} :
      Expr.Matches μ condition condition' → Stmt.Matches thenBranch thenBranch' →
      Stmt.Matches elseBranch elseBranch' → μ.span span span' →
      Stmt.Matches (.ifElse condition thenBranch (some elseBranch) span)
        (.ifElse condition' thenBranch' (some elseBranch') span')
  | while {condition condition' body body' span span'} :
      Expr.Matches μ condition condition' → Stmt.Matches body body' → μ.span span span' →
      Stmt.Matches (.while condition body span) (.while condition' body' span')
  | function {decl decl' span span'} :
      FunctionDecl.Matches decl decl' → μ.span span span' →
      Stmt.Matches (.function decl span) (.function decl' span')
  | class {name methods methods' span span'} :
      FunctionDecl.MatchesAll methods methods' → μ.span span span' →
      Stmt.Matches (.class name methods span) (.class name methods' span')
  | return {value value' span span'} :
      Expr.MatchesOption μ value value' → μ.span span span' →
      Stmt.Matches (.return value span) (.return value' span')

/-- The statements match one by one. -/
inductive Stmt.MatchesAll : List Stmt → List Stmt → Prop
  | nil : Stmt.MatchesAll [] []
  | cons {s s' ss ss'} :
      Stmt.Matches s s' → Stmt.MatchesAll ss ss' → Stmt.MatchesAll (s :: ss) (s' :: ss')

/-- The functions match. -/
inductive FunctionDecl.Matches : FunctionDecl → FunctionDecl → Prop
  | mk {number number' name params body body' span span'} :
      μ.function number number' → Stmt.MatchesAll body body' → μ.span span span' →
      FunctionDecl.Matches (.mk number name params body span)
        (.mk number' name params body' span')

/-- The functions match one by one. -/
inductive FunctionDecl.MatchesAll : List FunctionDecl → List FunctionDecl → Prop
  | nil : FunctionDecl.MatchesAll [] []
  | cons {f f' fs fs'} :
      FunctionDecl.Matches f f' → FunctionDecl.MatchesAll fs fs' →
      FunctionDecl.MatchesAll (f :: fs) (f' :: fs')
end

end

variable {μ ν : Matching}

/-! ## What matching functions share -/

namespace FunctionDecl.Matches

variable {f f' : FunctionDecl}

theorem number (h : FunctionDecl.Matches μ f f') : μ.function f.number f'.number := by
  cases h
  assumption

theorem name_eq (h : FunctionDecl.Matches μ f f') : f'.name = f.name := by
  cases h
  rfl

theorem params_eq (h : FunctionDecl.Matches μ f f') : f'.params = f.params := by
  cases h
  rfl

theorem arity_eq (h : FunctionDecl.Matches μ f f') : f'.arity = f.arity := by
  rw [FunctionDecl.arity, FunctionDecl.arity, h.params_eq]

theorem body (h : FunctionDecl.Matches μ f f') : Stmt.MatchesAll μ f.body f'.body := by
  cases h
  assumption

end FunctionDecl.Matches

theorem Expr.Matches.node {e e' : Expr} (h : Expr.Matches μ e e') :
    Node.Matches μ e.node e'.node := by
  cases h <;> assumption

/-! ## Tokens and errors -/

/-- The tokens are the same at corresponding places. -/
structure Token.Matches (μ : Matching) (t t' : Token) : Prop where
  /-- The kind is the same. -/
  kind : t'.kind = t.kind
  /-- So is the text. -/
  lexeme : t'.lexeme = t.lexeme
  /-- So is the value. -/
  literal : t'.literal = t.literal
  /-- The places correspond. -/
  span : μ.span t.span t'.span

/-- The errors of syntax or of scope are the same at corresponding places. -/
inductive CompileError.Matches (μ : Matching) : CompileError → CompileError → Prop
  | parse {fault token token'} : Token.Matches μ token token' →
      CompileError.Matches μ (.parse fault token) (.parse fault token')
  | resolve {fault span span'} : μ.span span span' →
      CompileError.Matches μ (.resolve fault span) (.resolve fault span')

/-- Only equal places correspond. -/
def Matching.KeepsPlaces (μ : Matching) : Prop := ∀ span span', μ.span span span' ↔ span = span'

theorem Token.Matches.eq (hμ : μ.KeepsPlaces) {t t' : Token} (h : t.Matches μ t') : t' = t := by
  have hspan := (hμ _ _).1 h.span
  have ⟨hkind, hlexeme, hliteral, _⟩ := h
  cases t
  cases t'
  simp only at hkind hlexeme hliteral hspan
  rw [hkind, hlexeme, hliteral, hspan]

theorem Token.matches_self (hμ : μ.KeepsPlaces) (t : Token) : t.Matches μ t :=
  ⟨rfl, rfl, rfl, (hμ _ _).2 rfl⟩

/-- Errors at equal places are equal. -/
theorem CompileError.Matches.eq (hμ : μ.KeepsPlaces) {e e' : CompileError} (h : e.Matches μ e') :
    e' = e := by
  cases h with
  | parse htoken => rw [htoken.eq hμ]
  | resolve hspan => rw [(hμ _ _).1 hspan]

theorem CompileError.eq_of_matches (hμ : μ.KeepsPlaces) {errors errors' : List CompileError}
    (h : List.Forall₂ (CompileError.Matches μ) errors errors') : errors' = errors := by
  induction h with
  | nil => rfl
  | cons hfirst _ ih => rw [ih, hfirst.eq hμ]

/-! ## Coarser matchings -/

theorem Node.Matches.mono (hμ : μ.Refines ν) {node node' : Node}
    (h : Node.Matches μ node node') : Node.Matches ν node node' :=
  ⟨hμ.node h.id, hμ.span h.span⟩

mutual
theorem Expr.Matches.mono (hμ : μ.Refines ν) {e e' : Expr} :
    Expr.Matches μ e e' → Expr.Matches ν e e'
  | .literal hnode => .literal (hnode.mono hμ)
  | .grouping hnode hinner => .grouping (hnode.mono hμ) (hinner.mono hμ)
  | .unary hnode hoperand => .unary (hnode.mono hμ) (hoperand.mono hμ)
  | .binary hnode hleft hright hspan =>
    .binary (hnode.mono hμ) (hleft.mono hμ) (hright.mono hμ) (hμ.span hspan)
  | .logical hnode hleft hright => .logical (hnode.mono hμ) (hleft.mono hμ) (hright.mono hμ)
  | .variable hnode => .variable (hnode.mono hμ)
  | .assign hnode hvalue => .assign (hnode.mono hμ) (hvalue.mono hμ)
  | .call hnode hcallee harguments hspan =>
    .call (hnode.mono hμ) (hcallee.mono hμ) (harguments.mono hμ) (hμ.span hspan)
  | .new hnode hcallee harguments hspan =>
    .new (hnode.mono hμ) (hcallee.mono hμ) (harguments.mono hμ) (hμ.span hspan)
  | .get hnode hobject hspan => .get (hnode.mono hμ) (hobject.mono hμ) (hμ.span hspan)
  | .set hnode hobject hspan hvalue =>
    .set (hnode.mono hμ) (hobject.mono hμ) (hμ.span hspan) (hvalue.mono hμ)
  | .this hnode => .this (hnode.mono hμ)

theorem Expr.MatchesAll.mono (hμ : μ.Refines ν) {es es' : List Expr} :
    Expr.MatchesAll μ es es' → Expr.MatchesAll ν es es'
  | .nil => .nil
  | .cons hfirst hothers => .cons (hfirst.mono hμ) (hothers.mono hμ)
end

theorem Expr.MatchesOption.mono (hμ : μ.Refines ν) {e e' : Option Expr}
    (h : Expr.MatchesOption μ e e') : Expr.MatchesOption ν e e' := by
  cases h with
  | none => exact .none
  | some h => exact .some (h.mono hμ)

mutual
theorem Stmt.Matches.mono (hμ : μ.Refines ν) {s s' : Stmt} :
    Stmt.Matches μ s s' → Stmt.Matches ν s s'
  | .expression hvalue hspan => .expression (hvalue.mono hμ) (hμ.span hspan)
  | .print hvalue hspan => .print (hvalue.mono hμ) (hμ.span hspan)
  | .var hinitializer hspan => .var (hinitializer.mono hμ) (hμ.span hspan)
  | .block hbody hspan => .block (hbody.mono hμ) (hμ.span hspan)
  | .ifThen hcondition hthen hspan =>
    .ifThen (hcondition.mono hμ) (hthen.mono hμ) (hμ.span hspan)
  | .ifElse hcondition hthen helse hspan =>
    .ifElse (hcondition.mono hμ) (hthen.mono hμ) (helse.mono hμ) (hμ.span hspan)
  | .while hcondition hbody hspan => .while (hcondition.mono hμ) (hbody.mono hμ) (hμ.span hspan)
  | .function hdecl hspan => .function (hdecl.mono hμ) (hμ.span hspan)
  | .class hmethods hspan => .class (hmethods.mono hμ) (hμ.span hspan)
  | .return hvalue hspan => .return (hvalue.mono hμ) (hμ.span hspan)

theorem Stmt.MatchesAll.mono (hμ : μ.Refines ν) {ss ss' : List Stmt} :
    Stmt.MatchesAll μ ss ss' → Stmt.MatchesAll ν ss ss'
  | .nil => .nil
  | .cons hfirst hothers => .cons (hfirst.mono hμ) (hothers.mono hμ)

theorem FunctionDecl.Matches.mono (hμ : μ.Refines ν) {f f' : FunctionDecl} :
    FunctionDecl.Matches μ f f' → FunctionDecl.Matches ν f f'
  | .mk hnumber hbody hspan => .mk (hμ.function hnumber) (hbody.mono hμ) (hμ.span hspan)

theorem FunctionDecl.MatchesAll.mono (hμ : μ.Refines ν) {fs fs' : List FunctionDecl} :
    FunctionDecl.MatchesAll μ fs fs' → FunctionDecl.MatchesAll ν fs fs'
  | .nil => .nil
  | .cons hfirst hothers => .cons (hfirst.mono hμ) (hothers.mono hμ)
end

end Lox
