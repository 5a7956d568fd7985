import Lox.Proofs.Matching.Reading

/-!
# Shifted numbers

Reading does not look at the numbers that it gives out.  If the first number for expressions is
`d` higher, then the same program is read with all numbers of expressions `d` higher, and with
the same errors (`Parsed.ofTokens_shift`).
-/

namespace Lox

/-! ## Trees with shifted numbers -/

/-- The node with a number that is `d` higher. -/
def Node.shift (d : Nat) (node : Node) : Node := { node with id := node.id + d }

mutual
/-- The expression with numbers that are `d` higher. -/
def Expr.shift (d : Nat) : Expr → Expr
  | .literal node value => .literal (node.shift d) value
  | .grouping node inner => .grouping (node.shift d) (inner.shift d)
  | .unary node op operand => .unary (node.shift d) op (operand.shift d)
  | .binary node op left right opSpan =>
    .binary (node.shift d) op (left.shift d) (right.shift d) opSpan
  | .logical node op left right => .logical (node.shift d) op (left.shift d) (right.shift d)
  | .variable node name => .variable (node.shift d) name
  | .assign node name value => .assign (node.shift d) name (value.shift d)
  | .call node callee arguments paren =>
    .call (node.shift d) (callee.shift d) (Expr.shiftAll d arguments) paren
  | .new node callee arguments paren =>
    .new (node.shift d) (callee.shift d) (Expr.shiftAll d arguments) paren
  | .get node object name nameSpan => .get (node.shift d) (object.shift d) name nameSpan
  | .set node object name nameSpan value =>
    .set (node.shift d) (object.shift d) name nameSpan (value.shift d)
  | .this node => .this (node.shift d)

/-- The expressions with numbers that are `d` higher. -/
def Expr.shiftAll (d : Nat) : List Expr → List Expr
  | [] => []
  | e :: es => e.shift d :: Expr.shiftAll d es
end

mutual
/-- The statement with numbers of expressions that are `d` higher. -/
def Stmt.shift (d : Nat) : Stmt → Stmt
  | .expression value span => .expression (value.shift d) span
  | .print value span => .print (value.shift d) span
  | .var name initializer span => .var name (initializer.map (Expr.shift d)) span
  | .block body span => .block (Stmt.shiftAll d body) span
  | .ifElse condition thenBranch none span =>
    .ifElse (condition.shift d) (thenBranch.shift d) none span
  | .ifElse condition thenBranch (some elseBranch) span =>
    .ifElse (condition.shift d) (thenBranch.shift d) (some (elseBranch.shift d)) span
  | .while condition body span => .while (condition.shift d) (body.shift d) span
  | .function decl span => .function (decl.shift d) span
  | .class name methods span => .class name (FunctionDecl.shiftAll d methods) span
  | .return value span => .return (value.map (Expr.shift d)) span

/-- The statements with numbers of expressions that are `d` higher. -/
def Stmt.shiftAll (d : Nat) : List Stmt → List Stmt
  | [] => []
  | s :: ss => s.shift d :: Stmt.shiftAll d ss

/-- The function with numbers of expressions that are `d` higher. -/
def FunctionDecl.shift (d : Nat) : FunctionDecl → FunctionDecl
  | .mk number name params body span => .mk number name params (Stmt.shiftAll d body) span

/-- The functions with numbers of expressions that are `d` higher. -/
def FunctionDecl.shiftAll (d : Nat) : List FunctionDecl → List FunctionDecl
  | [] => []
  | f :: fs => f.shift d :: FunctionDecl.shiftAll d fs
end

/-- The supply with a first number for expressions that is `d` higher. -/
def Supply.shift (d : Nat) (supply : Supply) : Supply := { supply with node := supply.node + d }

/-- The program with numbers of expressions that are `d` higher. -/
def Program.shift (d : Nat) (p : Program) : Program := ⟨Stmt.shiftAll d p.statements⟩

/-- The same program and errors, with numbers of expressions that are `d` higher. -/
def Parsed.shift (d : Nat) (parsed : Parsed) : Parsed :=
  ⟨parsed.program.shift d, parsed.errors, parsed.supply.shift d⟩

/-! ## They are the trees that match -/

/-- Numbers of expressions correspond to those that are `d` higher. -/
def Matching.raised (d : Nat) : Matching := ⟨fun i i' => i' = i + d, Eq, Eq⟩

variable {d : Nat}

theorem Node.Matches.eq_shift {node node' : Node} (h : Node.Matches (.raised d) node node') :
    node' = node.shift d := by
  obtain ⟨hid, hspan⟩ := h
  cases node'
  exact congrArg₂ Node.mk hid hspan.symm

mutual
theorem Expr.Matches.eq_shift {e e' : Expr} : Expr.Matches (.raised d) e e' → e' = e.shift d
  | .literal hnode => by rw [Expr.shift, hnode.eq_shift]
  | .grouping hnode hinner => by rw [Expr.shift, hnode.eq_shift, hinner.eq_shift]
  | .unary hnode hoperand => by rw [Expr.shift, hnode.eq_shift, hoperand.eq_shift]
  | .binary hnode hleft hright hspan => by
    rw [Expr.shift, hnode.eq_shift, hleft.eq_shift, hright.eq_shift, hspan]
  | .logical hnode hleft hright => by
    rw [Expr.shift, hnode.eq_shift, hleft.eq_shift, hright.eq_shift]
  | .variable hnode => by rw [Expr.shift, hnode.eq_shift]
  | .assign hnode hvalue => by rw [Expr.shift, hnode.eq_shift, hvalue.eq_shift]
  | .call hnode hcallee harguments hparen => by
    rw [Expr.shift, hnode.eq_shift, hcallee.eq_shift, harguments.eq_shiftAll, hparen]
  | .new hnode hcallee harguments hparen => by
    rw [Expr.shift, hnode.eq_shift, hcallee.eq_shift, harguments.eq_shiftAll, hparen]
  | .get hnode hobject hname => by rw [Expr.shift, hnode.eq_shift, hobject.eq_shift, hname]
  | .set hnode hobject hname hvalue => by
    rw [Expr.shift, hnode.eq_shift, hobject.eq_shift, hname, hvalue.eq_shift]
  | .this hnode => by rw [Expr.shift, hnode.eq_shift]

theorem Expr.MatchesAll.eq_shiftAll {es es' : List Expr} :
    Expr.MatchesAll (.raised d) es es' → es' = Expr.shiftAll d es
  | .nil => rfl
  | .cons hfirst hothers => by rw [Expr.shiftAll, hfirst.eq_shift, hothers.eq_shiftAll]
end

theorem Expr.MatchesOption.eq_shift {e e' : Option Expr}
    (h : Expr.MatchesOption (.raised d) e e') : e' = e.map (Expr.shift d) := by
  cases h with
  | none => rfl
  | some h => rw [Option.map_some, h.eq_shift]

mutual
theorem Stmt.Matches.eq_shift {s s' : Stmt} : Stmt.Matches (.raised d) s s' → s' = s.shift d
  | .expression hvalue hspan => by rw [Stmt.shift, hvalue.eq_shift, hspan]
  | .print hvalue hspan => by rw [Stmt.shift, hvalue.eq_shift, hspan]
  | .var hinitializer hspan => by rw [Stmt.shift, hinitializer.eq_shift, hspan]
  | .block hbody hspan => by rw [Stmt.shift, hbody.eq_shiftAll, hspan]
  | .ifThen hcondition hthen hspan => by
    rw [Stmt.shift, hcondition.eq_shift, hthen.eq_shift, hspan]
  | .ifElse hcondition hthen helse hspan => by
    rw [Stmt.shift, hcondition.eq_shift, hthen.eq_shift, helse.eq_shift, hspan]
  | .while hcondition hbody hspan => by
    rw [Stmt.shift, hcondition.eq_shift, hbody.eq_shift, hspan]
  | .function hdecl hspan => by rw [Stmt.shift, hdecl.eq_shift, hspan]
  | .class hmethods hspan => by rw [Stmt.shift, hmethods.eq_shiftAll, hspan]
  | .return hvalue hspan => by rw [Stmt.shift, hvalue.eq_shift, hspan]

theorem Stmt.MatchesAll.eq_shiftAll {ss ss' : List Stmt} :
    Stmt.MatchesAll (.raised d) ss ss' → ss' = Stmt.shiftAll d ss
  | .nil => rfl
  | .cons hfirst hothers => by rw [Stmt.shiftAll, hfirst.eq_shift, hothers.eq_shiftAll]

theorem FunctionDecl.Matches.eq_shift {f f' : FunctionDecl} :
    FunctionDecl.Matches (.raised d) f f' → f' = f.shift d
  | .mk hnumber hbody hspan => by rw [FunctionDecl.shift, hnumber, hbody.eq_shiftAll, hspan]

theorem FunctionDecl.MatchesAll.eq_shiftAll {fs fs' : List FunctionDecl} :
    FunctionDecl.MatchesAll (.raised d) fs fs' → fs' = FunctionDecl.shiftAll d fs
  | .nil => rfl
  | .cons hfirst hothers => by
    rw [FunctionDecl.shiftAll, hfirst.eq_shift, hothers.eq_shiftAll]
end

/-! ## Reading with shifted numbers -/

theorem Supply.Matches.eq_shift {supply supply' : Supply} (h : supply.Matches (.raised d) supply') :
    supply' = supply.shift d := by
  have hnode : supply'.node = supply.node + d := h.node 0
  have hfunction : supply.function = supply'.function := h.function 0
  cases supply'
  exact congrArg₂ Supply.mk hnode hfunction.symm

theorem Parsed.Matches.eq_shift {parsed parsed' : Parsed} (h : parsed.Matches (.raised d) parsed') :
    parsed' = parsed.shift d := by
  have hprogram : parsed'.program = parsed.program.shift d :=
    congrArg Program.mk h.program.eq_shiftAll
  have herrors := CompileError.eq_of_matches (fun _ _ => Iff.rfl) h.errors
  rw [Parsed.shift, ← hprogram, ← herrors, ← h.supply.eq_shift]

/-- With a first number that is `d` higher, the same is read with numbers that are `d` higher. -/
theorem Parsed.ofTokens_shift (supply : Supply) (tokens : List Token) (d : Nat) :
    Parsed.ofTokens (supply.shift d) tokens = (Parsed.ofTokens supply tokens).shift d := by
  cases tokens with
  | nil => rfl
  | cons first later =>
    have hplaces : (Matching.raised d).KeepsPlaces := fun _ _ => Iff.rfl
    have hsupply : supply.Matches (.raised d) (supply.shift d) :=
      ⟨fun _ => Nat.add_right_comm _ _ _, fun _ => rfl⟩
    have htokens : List.Forall₂ (Token.Matches (.raised d)) (first :: later) (first :: later) :=
      List.forall₂_same.2 fun t _ => t.matches_self hplaces
    have hmatches := Parsed.ofTokens_matches hplaces.joinsPlaces hsupply htokens
      (List.cons_ne_nil _ _)
    exact hmatches.eq_shift

end Lox
