import Lox.Proofs.Matching.Trees
import Lox.Proofs.Syntax.Numbering

/-!
# Matchings by numbers

A tree matches itself if its numbers and places correspond to themselves.
-/

namespace Lox

variable {μ : Matching}

mutual
theorem Expr.matches_self (hspan : ∀ span, μ.span span span) :
    ∀ e : Expr, (∀ i ∈ e.ids, μ.node i i) → Expr.Matches μ e e
  | .literal node _, h => .literal ⟨h _ (by simp [Expr.ids]), hspan _⟩
  | .grouping node inner, h => by
    simp only [Expr.ids, List.mem_append, List.mem_singleton] at h
    exact .grouping ⟨h _ (.inr rfl), hspan _⟩ (inner.matches_self hspan fun i hi => h i (.inl hi))
  | .unary node _ operand, h => by
    simp only [Expr.ids, List.mem_append, List.mem_singleton] at h
    exact .unary ⟨h _ (.inr rfl), hspan _⟩ (operand.matches_self hspan fun i hi => h i (.inl hi))
  | .binary node _ left right _, h => by
    simp only [Expr.ids, List.mem_append, List.mem_singleton] at h
    exact .binary ⟨h _ (.inr rfl), hspan _⟩
      (left.matches_self hspan fun i hi => h i (.inl (.inl hi)))
      (right.matches_self hspan fun i hi => h i (.inl (.inr hi))) (hspan _)
  | .logical node _ left right, h => by
    simp only [Expr.ids, List.mem_append, List.mem_singleton] at h
    exact .logical ⟨h _ (.inr rfl), hspan _⟩
      (left.matches_self hspan fun i hi => h i (.inl (.inl hi)))
      (right.matches_self hspan fun i hi => h i (.inl (.inr hi)))
  | .variable node _, h => .variable ⟨h _ (by simp [Expr.ids]), hspan _⟩
  | .assign node _ value, h => by
    simp only [Expr.ids, List.mem_append, List.mem_singleton] at h
    exact .assign ⟨h _ (.inr rfl), hspan _⟩ (value.matches_self hspan fun i hi => h i (.inl hi))
  | .call node callee arguments _, h => by
    simp only [Expr.ids, List.mem_append, List.mem_singleton] at h
    exact .call ⟨h _ (.inr rfl), hspan _⟩
      (callee.matches_self hspan fun i hi => h i (.inl (.inl hi)))
      (Expr.matchesAll_self hspan arguments fun i hi => h i (.inl (.inr hi))) (hspan _)
  | .new node callee arguments _, h => by
    simp only [Expr.ids, List.mem_append, List.mem_singleton] at h
    exact .new ⟨h _ (.inr rfl), hspan _⟩
      (callee.matches_self hspan fun i hi => h i (.inl (.inl hi)))
      (Expr.matchesAll_self hspan arguments fun i hi => h i (.inl (.inr hi))) (hspan _)
  | .get node object _ _, h => by
    simp only [Expr.ids, List.mem_append, List.mem_singleton] at h
    exact .get ⟨h _ (.inr rfl), hspan _⟩ (object.matches_self hspan fun i hi => h i (.inl hi))
      (hspan _)
  | .set node object _ _ value, h => by
    simp only [Expr.ids, List.mem_append, List.mem_singleton] at h
    exact .set ⟨h _ (.inr rfl), hspan _⟩
      (object.matches_self hspan fun i hi => h i (.inl (.inr hi))) (hspan _)
      (value.matches_self hspan fun i hi => h i (.inl (.inl hi)))
  | .this node, h => .this ⟨h _ (by simp [Expr.ids]), hspan _⟩

theorem Expr.matchesAll_self (hspan : ∀ span, μ.span span span) :
    ∀ es : List Expr, (∀ i ∈ Expr.idsAll es, μ.node i i) → Expr.MatchesAll μ es es
  | [], _ => .nil
  | e :: es, h => by
    simp only [Expr.idsAll, List.mem_append] at h
    exact .cons (e.matches_self hspan fun i hi => h i (.inl hi))
      (Expr.matchesAll_self hspan es fun i hi => h i (.inr hi))
end

theorem Expr.matchesOption_self (hspan : ∀ span, μ.span span span) (e : Option Expr)
    (h : ∀ i ∈ Expr.idsOption e, μ.node i i) : Expr.MatchesOption μ e e := by
  cases e with
  | none => exact .none
  | some e => exact .some (e.matches_self hspan h)

mutual
theorem Stmt.matches_self (hspan : ∀ span, μ.span span span) :
    ∀ s : Stmt, (∀ i ∈ s.ids, μ.node i i) →
    (∀ i ∈ s.functionIds, μ.function i i) → Stmt.Matches μ s s
  | .expression value _, h, _ => .expression (value.matches_self hspan h) (hspan _)
  | .print value _, h, _ => .print (value.matches_self hspan h) (hspan _)
  | .var _ initializer _, h, _ =>
    .var (Expr.matchesOption_self hspan initializer h) (hspan _)
  | .block body _, h, hf => .block (Stmt.matchesAll_self hspan body h hf) (hspan _)
  | .ifElse condition thenBranch none _, h, hf => by
    simp only [Stmt.ids, List.mem_append] at h
    exact .ifThen (condition.matches_self hspan fun i hi => h i (.inl hi))
      (thenBranch.matches_self hspan (fun i hi => h i (.inr hi)) hf) (hspan _)
  | .ifElse condition thenBranch (some elseBranch) _, h, hf => by
    simp only [Stmt.ids, Stmt.functionIds, List.mem_append] at h hf
    exact .ifElse (condition.matches_self hspan fun i hi => h i (.inl (.inl hi)))
      (thenBranch.matches_self hspan (fun i hi => h i (.inl (.inr hi))) fun i hi => hf i (.inl hi))
      (elseBranch.matches_self hspan (fun i hi => h i (.inr hi)) fun i hi => hf i (.inr hi))
      (hspan _)
  | .while condition body _, h, hf => by
    simp only [Stmt.ids, List.mem_append] at h
    exact .while (condition.matches_self hspan fun i hi => h i (.inl hi))
      (body.matches_self hspan (fun i hi => h i (.inr hi)) hf) (hspan _)
  | .function decl _, h, hf => .function (decl.matches_self hspan h hf) (hspan _)
  | .class _ methods _, h, hf => .class (FunctionDecl.matchesAll_self hspan methods h hf) (hspan _)
  | .return value _, h, _ => .return (Expr.matchesOption_self hspan value h) (hspan _)

theorem Stmt.matchesAll_self (hspan : ∀ span, μ.span span span) :
    ∀ ss : List Stmt, (∀ i ∈ Stmt.idsAll ss, μ.node i i) →
    (∀ i ∈ Stmt.functionIdsAll ss, μ.function i i) → Stmt.MatchesAll μ ss ss
  | [], _, _ => .nil
  | s :: ss, h, hf => by
    simp only [Stmt.idsAll, Stmt.functionIdsAll, List.mem_append] at h hf
    exact .cons (s.matches_self hspan (fun i hi => h i (.inl hi)) fun i hi => hf i (.inl hi))
      (Stmt.matchesAll_self hspan ss (fun i hi => h i (.inr hi)) fun i hi => hf i (.inr hi))

theorem FunctionDecl.matches_self (hspan : ∀ span, μ.span span span) :
    ∀ f : FunctionDecl, (∀ i ∈ f.ids, μ.node i i) →
    (∀ i ∈ f.functionIds, μ.function i i) → FunctionDecl.Matches μ f f
  | .mk _ _ _ body _, h, hf => by
    simp only [FunctionDecl.ids] at h
    simp only [FunctionDecl.functionIds, List.mem_append, List.mem_singleton] at hf
    exact .mk (hf _ (.inr rfl)) (Stmt.matchesAll_self hspan body h fun i hi => hf i (.inl hi))
      (hspan _)

theorem FunctionDecl.matchesAll_self (hspan : ∀ span, μ.span span span) :
    ∀ fs : List FunctionDecl,
    (∀ i ∈ FunctionDecl.idsAll fs, μ.node i i) →
    (∀ i ∈ FunctionDecl.functionIdsAll fs, μ.function i i) → FunctionDecl.MatchesAll μ fs fs
  | [], _, _ => .nil
  | f :: fs, h, hf => by
    simp only [FunctionDecl.idsAll, FunctionDecl.functionIdsAll, List.mem_append] at h hf
    exact .cons (f.matches_self hspan (fun i hi => h i (.inl hi)) fun i hi => hf i (.inl hi))
      (FunctionDecl.matchesAll_self hspan fs (fun i hi => h i (.inr hi)) fun i hi => hf i (.inr hi))
end

/-- Every program matches itself. -/
theorem Stmt.matchesAll_same (ss : List Stmt) : Stmt.MatchesAll .same ss ss :=
  Stmt.matchesAll_self (fun _ => rfl) ss (fun _ _ => rfl) fun _ _ => rfl

end Lox
