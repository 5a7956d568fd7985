import Lox.Proofs.Syntax.Bracketed
import Lox.Proofs.Syntax.Grammar
import Lox.Syntax.Sexp

/-!
# Prefix forms

Every tree is written as a bracketed text: a word for the node in front, and its parts behind
it.  A program is written in lines of such texts (`Program.toList_sexp`), in which the numbers
and the places of its nodes do not appear (`Program.sexp_bare`).
-/

namespace Lox

/-! ## Bracketed trees -/

mutual
/-- The expression as a bracketed text. -/
def Expr.bracketed : Expr → Bracketed
  | .literal _ value => .atom value.sexp
  | .grouping _ inner => .list [.atom "group", inner.bracketed]
  | .unary _ op operand => .list [.atom op.sign, operand.bracketed]
  | .binary _ op left right _ => .list [.atom op.sign, left.bracketed, right.bracketed]
  | .logical _ op left right => .list [.atom op.word, left.bracketed, right.bracketed]
  | .variable _ name => .atom name
  | .assign _ name value => .list [.atom "=", .atom name, value.bracketed]
  | .call _ callee arguments _ =>
    .list (.atom "call" :: callee.bracketed :: Expr.bracketedAll arguments)
  | .new _ callee arguments _ =>
    .list (.atom "new" :: callee.bracketed :: Expr.bracketedAll arguments)
  | .get _ object name _ => .list [.atom ".", object.bracketed, .atom name]
  | .set _ object name _ value =>
    .list [.atom ".=", object.bracketed, .atom name, value.bracketed]
  | .this _ => .atom "this"

/-- The expressions as bracketed texts. -/
def Expr.bracketedAll : List Expr → List Bracketed
  | [] => []
  | e :: es => e.bracketed :: Expr.bracketedAll es
end

mutual
/-- The statement as a bracketed text. -/
def Stmt.bracketed : Stmt → Bracketed
  | .expression value _ => value.bracketed
  | .print value _ => .list [.atom "print", value.bracketed]
  | .var name none _ => .list [.atom "var", .atom name]
  | .var name (some value) _ => .list [.atom "var", .atom name, value.bracketed]
  | .block body _ => .list (.atom "block" :: Stmt.bracketedAll body)
  | .ifElse condition thenBranch none _ =>
    .list [.atom "if", condition.bracketed, thenBranch.bracketed]
  | .ifElse condition thenBranch (some elseBranch) _ =>
    .list [.atom "if", condition.bracketed, thenBranch.bracketed, elseBranch.bracketed]
  | .while condition body _ => .list [.atom "while", condition.bracketed, body.bracketed]
  | .function decl _ => decl.bracketed
  | .class name methods _ =>
    .list (.atom "class" :: .atom name :: FunctionDecl.bracketedAll methods)
  | .return none _ => .list [.atom "return"]
  | .return (some value) _ => .list [.atom "return", value.bracketed]

/-- The statements as bracketed texts. -/
def Stmt.bracketedAll : List Stmt → List Bracketed
  | [] => []
  | s :: ss => s.bracketed :: Stmt.bracketedAll ss

/-- The function as a bracketed text. -/
def FunctionDecl.bracketed : FunctionDecl → Bracketed
  | .mk _ name params body _ =>
    .list (.atom "fun" :: .atom name :: .list (params.map .atom) :: Stmt.bracketedAll body)

/-- The functions as bracketed texts. -/
def FunctionDecl.bracketedAll : List FunctionDecl → List Bracketed
  | [] => []
  | f :: fs => f.bracketed :: FunctionDecl.bracketedAll fs
end

mutual
theorem Expr.toList_sexp : ∀ e : Expr, e.sexp.toList = e.bracketed.chars
  | .literal .. | .variable .. | .this _ => by
    simp [Expr.sexp, Expr.bracketed]
  | .grouping _ inner => by
    simp [Expr.sexp, Expr.bracketed, inner.toList_sexp]
  | .unary _ _ operand => by
    simp [Expr.sexp, Expr.bracketed, operand.toList_sexp]
  | .binary _ _ left right _ => by
    simp [Expr.sexp, Expr.bracketed, left.toList_sexp, right.toList_sexp]
  | .logical _ _ left right => by
    simp [Expr.sexp, Expr.bracketed, left.toList_sexp, right.toList_sexp]
  | .assign _ _ value => by
    simp [Expr.sexp, Expr.bracketed, value.toList_sexp]
  | .call _ callee arguments _ => by
    simp [Expr.sexp, Expr.bracketed, callee.toList_sexp, Expr.toList_sexpTail arguments]
  | .new _ callee arguments _ => by
    simp [Expr.sexp, Expr.bracketed, callee.toList_sexp, Expr.toList_sexpTail arguments]
  | .get _ object _ _ => by
    simp [Expr.sexp, Expr.bracketed, object.toList_sexp]
  | .set _ object _ _ value => by
    simp [Expr.sexp, Expr.bracketed, object.toList_sexp, value.toList_sexp]

theorem Expr.toList_sexpTail :
    ∀ es : List Expr, (Expr.sexpTail es).toList = Bracketed.charsTail (Expr.bracketedAll es)
  | [] => by simp [Expr.sexpTail, Expr.bracketedAll]
  | e :: es => by
    simp [Expr.sexpTail, Expr.bracketedAll, e.toList_sexp, Expr.toList_sexpTail es]
end

theorem toList_intercalate_names (names : List String) :
    (" ".intercalate names).toList = Bracketed.charsAll (names.map .atom) := by
  cases names with
  | nil => simp [Bracketed.charsAll]
  | cons name names =>
    rw [List.map_cons, Bracketed.charsAll]
    induction names generalizing name with
    | nil => simp [Bracketed.charsTail]
    | cons next names ih =>
      rw [String.intercalate_cons_cons, String.toList_append, ih, List.map_cons,
        Bracketed.charsTail]
      simp

mutual
theorem Stmt.toList_sexp : ∀ s : Stmt, s.sexp.toList = s.bracketed.chars
  | .expression value _ => by rw [Stmt.sexp, Stmt.bracketed, value.toList_sexp]
  | .print value _ | .return (some value) _ => by
    simp [Stmt.sexp, Stmt.bracketed, value.toList_sexp]
  | .var _ none _ | .return none _ => by
    simp [Stmt.sexp, Stmt.bracketed]
  | .var _ (some value) _ => by
    simp [Stmt.sexp, Stmt.bracketed, value.toList_sexp]
  | .block body _ => by
    simp [Stmt.sexp, Stmt.bracketed, Stmt.toList_sexpTail body]
  | .ifElse condition thenBranch none _ => by
    simp [Stmt.sexp, Stmt.bracketed, condition.toList_sexp, thenBranch.toList_sexp]
  | .ifElse condition thenBranch (some elseBranch) _ => by
    simp [Stmt.sexp, Stmt.bracketed,
      condition.toList_sexp, thenBranch.toList_sexp, elseBranch.toList_sexp]
  | .while condition body _ => by
    simp [Stmt.sexp, Stmt.bracketed, condition.toList_sexp, body.toList_sexp]
  | .function decl _ => by rw [Stmt.sexp, Stmt.bracketed, decl.toList_sexp]
  | .class _ methods _ => by
    simp [Stmt.sexp, Stmt.bracketed, FunctionDecl.toList_sexpTail methods]

theorem Stmt.toList_sexpTail :
    ∀ ss : List Stmt, (Stmt.sexpTail ss).toList = Bracketed.charsTail (Stmt.bracketedAll ss)
  | [] => by simp [Stmt.sexpTail, Stmt.bracketedAll]
  | s :: ss => by
    simp [Stmt.sexpTail, Stmt.bracketedAll, s.toList_sexp, Stmt.toList_sexpTail ss]

theorem FunctionDecl.toList_sexp : ∀ f : FunctionDecl, f.sexp.toList = f.bracketed.chars
  | .mk _ _ params body _ => by
    simp [FunctionDecl.sexp, FunctionDecl.bracketed, toList_intercalate_names params,
      Stmt.toList_sexpTail body]

theorem FunctionDecl.toList_sexpTail : ∀ fs : List FunctionDecl,
    (FunctionDecl.sexpTail fs).toList = Bracketed.charsTail (FunctionDecl.bracketedAll fs)
  | [] => by simp [FunctionDecl.sexpTail, FunctionDecl.bracketedAll]
  | f :: fs => by
    simp [FunctionDecl.sexpTail, FunctionDecl.bracketedAll, f.toList_sexp,
      FunctionDecl.toList_sexpTail fs]
end

/-- A program is written in lines, one for each statement. -/
theorem Program.toList_sexp (p : Program) :
    p.sexp.toList = Bracketed.charsLines (Stmt.bracketedAll p.statements) := by
  obtain ⟨statements⟩ := p
  rw [Program.sexp]
  induction statements with
  | nil => simp [Stmt.bracketedAll]
  | cons s ss ih => simp [Stmt.bracketedAll, s.toList_sexp, ← ih]

/-! ## Numbers and places are not written -/

mutual
theorem Expr.bracketed_bare : ∀ e : Expr, e.bare.bracketed = e.bracketed
  | .literal .. | .variable .. | .this _ => rfl
  | .grouping _ inner => by simp [Expr.bare, Expr.bracketed, inner.bracketed_bare]
  | .unary _ _ operand => by simp [Expr.bare, Expr.bracketed, operand.bracketed_bare]
  | .binary _ _ left right _ => by
    simp [Expr.bare, Expr.bracketed, left.bracketed_bare, right.bracketed_bare]
  | .logical _ _ left right => by
    simp [Expr.bare, Expr.bracketed, left.bracketed_bare, right.bracketed_bare]
  | .assign _ _ value => by simp [Expr.bare, Expr.bracketed, value.bracketed_bare]
  | .call _ callee arguments _ => by
    simp [Expr.bare, Expr.bracketed, callee.bracketed_bare, Expr.bracketedAll_bare arguments]
  | .new _ callee arguments _ => by
    simp [Expr.bare, Expr.bracketed, callee.bracketed_bare, Expr.bracketedAll_bare arguments]
  | .get _ object _ _ => by simp [Expr.bare, Expr.bracketed, object.bracketed_bare]
  | .set _ object _ _ value => by
    simp [Expr.bare, Expr.bracketed, object.bracketed_bare, value.bracketed_bare]

theorem Expr.bracketedAll_bare :
    ∀ es : List Expr, Expr.bracketedAll (Expr.bareAll es) = Expr.bracketedAll es
  | [] => rfl
  | e :: es => by
    rw [Expr.bareAll, Expr.bracketedAll, Expr.bracketedAll, e.bracketed_bare,
      Expr.bracketedAll_bare es]
end

mutual
theorem Stmt.bracketed_bare : ∀ s : Stmt, s.bare.bracketed = s.bracketed
  | .expression value _ | .print value _ | .var _ (some value) _ | .return (some value) _ => by
    simp [Stmt.bare, Stmt.bracketed, value.bracketed_bare]
  | .var _ none _ | .return none _ => rfl
  | .block body _ => by simp [Stmt.bare, Stmt.bracketed, Stmt.bracketedAll_bare body]
  | .ifElse condition thenBranch none _ => by
    simp [Stmt.bare, Stmt.bracketed, condition.bracketed_bare, thenBranch.bracketed_bare]
  | .ifElse condition thenBranch (some elseBranch) _ => by
    simp [Stmt.bare, Stmt.bracketed, condition.bracketed_bare, thenBranch.bracketed_bare,
      elseBranch.bracketed_bare]
  | .while condition body _ => by
    simp [Stmt.bare, Stmt.bracketed, condition.bracketed_bare, body.bracketed_bare]
  | .function decl _ => by rw [Stmt.bare, Stmt.bracketed, Stmt.bracketed, decl.bracketed_bare]
  | .class _ methods _ => by
    simp [Stmt.bare, Stmt.bracketed, FunctionDecl.bracketedAll_bare methods]

theorem Stmt.bracketedAll_bare :
    ∀ ss : List Stmt, Stmt.bracketedAll (Stmt.bareAll ss) = Stmt.bracketedAll ss
  | [] => rfl
  | s :: ss => by
    rw [Stmt.bareAll, Stmt.bracketedAll, Stmt.bracketedAll, s.bracketed_bare,
      Stmt.bracketedAll_bare ss]

theorem FunctionDecl.bracketed_bare : ∀ f : FunctionDecl, f.bare.bracketed = f.bracketed
  | .mk _ _ _ body _ => by
    rw [FunctionDecl.bare, FunctionDecl.bracketed, FunctionDecl.bracketed,
      Stmt.bracketedAll_bare body]

theorem FunctionDecl.bracketedAll_bare : ∀ fs : List FunctionDecl,
    FunctionDecl.bracketedAll (FunctionDecl.bareAll fs) = FunctionDecl.bracketedAll fs
  | [] => rfl
  | f :: fs => by
    rw [FunctionDecl.bareAll, FunctionDecl.bracketedAll, FunctionDecl.bracketedAll,
      f.bracketed_bare, FunctionDecl.bracketedAll_bare fs]
end

theorem Program.sexp_bare (p : Program) : p.bare.sexp = p.sexp := by
  apply String.toList_injective
  rw [Program.toList_sexp, Program.toList_sexp, Program.bare, Stmt.bracketedAll_bare]

end Lox
