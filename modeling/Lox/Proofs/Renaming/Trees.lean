import Lox.Proofs.Scope.Session

/-!
# Renaming local variables

A program is renamed by giving another name to a variable of some block or function
scopes: in the declarations of these scopes, and at the occurrences of the name that
are resolved to them.  Numbers and spans are kept.  The new name occurs nowhere else,
and the old one stands in a renamed scope for variables and parameters only.

**Depth.** Going down into a tree, the depth says how many scopes out the renamed scope
is, or `none` outside of renamed scopes.  An occurrence is resolved to the renamed scope
if its distance is the depth.
-/

namespace Lox

/-- How many scopes out the renamed scope is, if there is one. -/
abbrev Depth := Option Nat

namespace Depth

/-- The depth inside a further scope. -/
def inward (k : Depth) : Depth := k.map (· + 1)

/-- The depth around the innermost scope. -/
def outward : Depth → Depth
  | some (d + 1) => some d
  | _ => none

@[simp] theorem outward_inward (k : Depth) : k.inward.outward = k := by
  cases k <;> rfl

@[simp] theorem inward_ne_zero (k : Depth) : k.inward ≠ some 0 := by
  cases k <;> simp [inward]

/-- Inside a scope that is opened, the depth is one more, or the scope is a renamed one. -/
def Opens (k inner : Depth) (isRenamed : Prop) : Prop :=
  inner = k.inward ∨ k = none ∧ inner = some 0 ∧ isRenamed

theorem Opens.outward_eq {k inner : Depth} {isRenamed : Prop} (h : k.Opens inner isRenamed) :
    inner.outward = k := by
  rcases h with rfl | ⟨rfl, rfl, -⟩
  · exact k.outward_inward
  · rfl

end Depth

/-- A renaming: the distances of a program, and a name to be replaced by another one. -/
structure Renaming where
  /-- The distances of the program. -/
  locals : Locals
  /-- The name to be replaced. -/
  old : String
  /-- The name that replaces it. -/
  new : String

namespace Renaming

/-- The name of a variable that a scope at this depth declares. -/
def declared (r : Renaming) (k : Depth) (name : String) : String :=
  if name = r.old ∧ k = some 0 then r.new else name

/-- The name at an occurrence with a given distance. -/
def spelled (r : Renaming) (k distance : Option Nat) (name : String) : String :=
  if name = r.old ∧ k ≠ none ∧ distance = k then r.new else name

/-- The name at an occurrence. -/
def used (r : Renaming) (k : Depth) (node : Node) (name : String) : String :=
  r.spelled k r.locals[node.id]? name

end Renaming

/-- Among the statements is the declaration of a variable. -/
def Stmt.DeclaresVar (name : String) (ss : List Stmt) : Prop :=
  ∃ initializer span, Stmt.var name initializer span ∈ ss

section

variable (r : Renaming)

mutual
/-- The expression is renamed at some depth. -/
inductive Expr.Renamed : Depth → Expr → Expr → Prop
  | literal {k node value} : Expr.Renamed k (.literal node value) (.literal node value)
  | grouping {k node inner inner'} :
      Expr.Renamed k inner inner' →
      Expr.Renamed k (.grouping node inner) (.grouping node inner')
  | unary {k node op operand operand'} :
      Expr.Renamed k operand operand' →
      Expr.Renamed k (.unary node op operand) (.unary node op operand')
  | binary {k node op left right opSpan left' right'} :
      Expr.Renamed k left left' → Expr.Renamed k right right' →
      Expr.Renamed k (.binary node op left right opSpan) (.binary node op left' right' opSpan)
  | logical {k node op left right left' right'} :
      Expr.Renamed k left left' → Expr.Renamed k right right' →
      Expr.Renamed k (.logical node op left right) (.logical node op left' right')
  | variable {k node name} :
      name ≠ r.new →
      Expr.Renamed k (.variable node name) (.variable node (r.used k node name))
  | assign {k node name value value'} :
      name ≠ r.new → Expr.Renamed k value value' →
      Expr.Renamed k (.assign node name value) (.assign node (r.used k node name) value')
  | call {k node callee arguments paren callee' arguments'} :
      Expr.Renamed k callee callee' → Expr.RenamedAll k arguments arguments' →
      Expr.Renamed k (.call node callee arguments paren) (.call node callee' arguments' paren)
  | new {k node callee arguments paren callee' arguments'} :
      Expr.Renamed k callee callee' → Expr.RenamedAll k arguments arguments' →
      Expr.Renamed k (.new node callee arguments paren) (.new node callee' arguments' paren)
  | get {k node object name nameSpan object'} :
      Expr.Renamed k object object' →
      Expr.Renamed k (.get node object name nameSpan) (.get node object' name nameSpan)
  | set {k node object name nameSpan value object' value'} :
      Expr.Renamed k object object' → Expr.Renamed k value value' →
      Expr.Renamed k (.set node object name nameSpan value)
        (.set node object' name nameSpan value')
  | this {k node} : Expr.Renamed k (.this node) (.this node)

/-- The expressions are renamed at some depth. -/
inductive Expr.RenamedAll : Depth → List Expr → List Expr → Prop
  | nil {k} : Expr.RenamedAll k [] []
  | cons {k e es e' es'} :
      Expr.Renamed k e e' → Expr.RenamedAll k es es' → Expr.RenamedAll k (e :: es) (e' :: es')
end

/-- The expression is renamed, if there is one. -/
inductive Expr.RenamedOption : Depth → Option Expr → Option Expr → Prop
  | none {k} : Expr.RenamedOption k none none
  | some {k e e'} : Expr.Renamed r k e e' → Expr.RenamedOption k (some e) (some e')

mutual
/-- The statement is renamed at some depth. -/
inductive Stmt.Renamed : Depth → Stmt → Stmt → Prop
  | expression {k value span value'} :
      Expr.Renamed r k value value' →
      Stmt.Renamed k (.expression value span) (.expression value' span)
  | print {k value span value'} :
      Expr.Renamed r k value value' → Stmt.Renamed k (.print value span) (.print value' span)
  | var {k name initializer span initializer'} :
      name ≠ r.new → Expr.RenamedOption r k initializer initializer' →
      Stmt.Renamed k (.var name initializer span) (.var (r.declared k name) initializer' span)
  | block {k inner body span body'} :
      k.Opens inner (Stmt.DeclaresVar r.old body) → Stmt.RenamedAll inner body body' →
      Stmt.Renamed k (.block body span) (.block body' span)
  | ifThen {k condition thenBranch span condition' thenBranch'} :
      Expr.Renamed r k condition condition' → Stmt.Renamed k thenBranch thenBranch' →
      Stmt.Renamed k (.ifElse condition thenBranch none span)
        (.ifElse condition' thenBranch' none span)
  | ifElse {k condition thenBranch elseBranch span condition' thenBranch' elseBranch'} :
      Expr.Renamed r k condition condition' → Stmt.Renamed k thenBranch thenBranch' →
      Stmt.Renamed k elseBranch elseBranch' →
      Stmt.Renamed k (.ifElse condition thenBranch (some elseBranch) span)
        (.ifElse condition' thenBranch' (some elseBranch') span)
  | while {k condition body span condition' body'} :
      Expr.Renamed r k condition condition' → Stmt.Renamed k body body' →
      Stmt.Renamed k (.while condition body span) (.while condition' body' span)
  | function {k decl span decl'} :
      decl.name ≠ r.new → (k = some 0 → decl.name ≠ r.old) →
      FunctionDecl.Renamed k decl decl' →
      Stmt.Renamed k (.function decl span) (.function decl' span)
  | class {k : Depth} {name methods span methods'} :
      name ≠ r.new → (k = some 0 → name ≠ r.old) →
      FunctionDecl.RenamedAll k.inward methods methods' →
      Stmt.Renamed k (.class name methods span) (.class name methods' span)
  | return {k value span value'} :
      Expr.RenamedOption r k value value' →
      Stmt.Renamed k (.return value span) (.return value' span)

/-- The statements are renamed at some depth. -/
inductive Stmt.RenamedAll : Depth → List Stmt → List Stmt → Prop
  | nil {k} : Stmt.RenamedAll k [] []
  | cons {k s ss s' ss'} :
      Stmt.Renamed k s s' → Stmt.RenamedAll k ss ss' → Stmt.RenamedAll k (s :: ss) (s' :: ss')

/-- The function, declared at some depth, is renamed. -/
inductive FunctionDecl.Renamed : Depth → FunctionDecl → FunctionDecl → Prop
  | mk {k inner number name params body span body'} :
      k.Opens inner (r.old ∈ params ∨ Stmt.DeclaresVar r.old body) →
      (∀ param ∈ params, param ≠ r.new) → Stmt.RenamedAll inner body body' →
      FunctionDecl.Renamed k (.mk number name params body span)
        (.mk number name (params.map (r.declared inner)) body' span)

/-- The functions, declared at some depth, are renamed. -/
inductive FunctionDecl.RenamedAll : Depth → List FunctionDecl → List FunctionDecl → Prop
  | nil {k} : FunctionDecl.RenamedAll k [] []
  | cons {k f fs f' fs'} :
      FunctionDecl.Renamed k f f' → FunctionDecl.RenamedAll k fs fs' →
      FunctionDecl.RenamedAll k (f :: fs) (f' :: fs')
end

/-- A variable of some block or function scopes of the program is renamed. -/
def Program.Renamed (p p' : Program) : Prop :=
  Stmt.RenamedAll r none p.statements p'.statements

end

variable {r : Renaming}

namespace Renaming

theorem declared_of_ne_old {k : Depth} {name : String} (h : name ≠ r.old) :
    r.declared k name = name := if_neg fun hr => h hr.1

theorem declared_of_ne_zero {k : Depth} {name : String} (h : k ≠ some 0) :
    r.declared k name = name := if_neg fun hr => h hr.2

/-- A name that is not the one of a renamed variable is kept. -/
theorem declared_of_imp {k : Depth} {name : String} (h : k = some 0 → name ≠ r.old) :
    r.declared k name = name := if_neg fun hr => h hr.2 hr.1

@[simp] theorem used_none (node : Node) (name : String) : r.used none node name = name :=
  if_neg fun hr => hr.2.1 rfl

@[simp] theorem spelled_none (k : Depth) (name : String) : r.spelled k none name = name :=
  if_neg fun hr => hr.2.1 hr.2.2.symm

/-- A name without a distance is kept. -/
theorem used_of_global {k : Depth} {node : Node} {name : String}
    (h : r.locals[node.id]? = none) : r.used k node name = name := by
  rw [used, h, spelled_none]

theorem used_of_ne_old {k : Depth} {node : Node} {name : String} (h : name ≠ r.old) :
    r.used k node name = name := if_neg fun hr => h hr.1

/-- Different names stay different. -/
theorem declared_inj {k : Depth} {a b : String} (ha : a ≠ r.new) (hb : b ≠ r.new)
    (h : r.declared k a = r.declared k b) : a = b := by
  unfold declared at h
  split at h
  · next hr =>
    split at h
    · next hr' => rw [hr.1, hr'.1]
    · exact absurd h.symm hb
  · split at h
    · exact absurd h ha
    · exact h

end Renaming

/-! ## What a renamed function keeps -/

namespace FunctionDecl.Renamed

variable {k : Depth} {f f' : FunctionDecl}

theorem number_eq (h : FunctionDecl.Renamed r k f f') : f'.number = f.number := by
  cases h
  rfl

theorem name_eq (h : FunctionDecl.Renamed r k f f') : f'.name = f.name := by
  cases h
  rfl

theorem arity_eq (h : FunctionDecl.Renamed r k f f') : f'.arity = f.arity := by
  cases h
  simp [FunctionDecl.arity, FunctionDecl.params]

/-- Parameters and body of the function are renamed at the depth of its scope. -/
theorem inside (h : FunctionDecl.Renamed r k f f') :
    ∃ inner, inner.outward = k ∧ f'.params = f.params.map (r.declared inner) ∧
      (∀ param ∈ f.params, param ≠ r.new) ∧ Stmt.RenamedAll r inner f.body f'.body := by
  cases h with
  | @mk _ inner _ _ _ _ _ _ hopens hparams hbody =>
    exact ⟨inner, hopens.outward_eq, rfl, hparams, hbody⟩

end FunctionDecl.Renamed

/-! ## Outside of renamed scopes -/

mutual
theorem Expr.Renamed.eq_of_none {e e' : Expr} : Expr.Renamed r none e e' → e' = e
  | .literal => rfl
  | .grouping hinner => by rw [hinner.eq_of_none]
  | .unary hoperand => by rw [hoperand.eq_of_none]
  | .binary hleft hright => by rw [hleft.eq_of_none, hright.eq_of_none]
  | .logical hleft hright => by rw [hleft.eq_of_none, hright.eq_of_none]
  | .variable _ => by rw [Renaming.used_none]
  | .assign _ hvalue => by rw [Renaming.used_none, hvalue.eq_of_none]
  | .call hcallee harguments => by rw [hcallee.eq_of_none, harguments.eq_of_none]
  | .new hcallee harguments => by rw [hcallee.eq_of_none, harguments.eq_of_none]
  | .get hobject => by rw [hobject.eq_of_none]
  | .set hobject hvalue => by rw [hobject.eq_of_none, hvalue.eq_of_none]
  | .this => rfl

theorem Expr.RenamedAll.eq_of_none {es es' : List Expr} :
    Expr.RenamedAll r none es es' → es' = es
  | .nil => rfl
  | .cons hfirst hothers => by rw [hfirst.eq_of_none, hothers.eq_of_none]
end

theorem Expr.RenamedOption.eq_of_none {e e' : Option Expr}
    (h : Expr.RenamedOption r Option.none e e') : e' = e := by
  cases h with
  | none => rfl
  | some h => rw [h.eq_of_none]

/-- A name that can be declared is replaced by another one. -/
structure Renaming.IsProper (r : Renaming) : Prop where
  /-- The old name can be declared. -/
  old : IsDeclarable r.old
  /-- The new name can be declared. -/
  new : IsDeclarable r.new
  /-- The names are different. -/
  ne : r.old ≠ r.new

theorem Stmt.RenamedAll.ne_new {k : Depth} {ss ss' : List Stmt}
    (h : Stmt.RenamedAll r k ss ss') {name : String} (hname : Stmt.DeclaresVar name ss) :
    name ≠ r.new := by
  obtain ⟨initializer, span, hmem⟩ := hname
  induction ss generalizing ss' with
  | nil => cases hmem
  | cons s ss ih =>
    cases h with
    | cons hs hss =>
      rcases List.mem_cons.1 hmem with rfl | hmem
      · cases hs with
        | var hne _ => exact hne
      · exact ih hss hmem

theorem Stmt.OrderlyAll.declarable {ss : List Stmt} (h : Stmt.OrderlyAll ss) {name : String}
    (hname : Stmt.DeclaresVar name ss) : IsDeclarable name := by
  obtain ⟨initializer, span, hmem⟩ := hname
  have hs := Stmt.Orderly.of_mem h hmem
  rwa [Stmt.Orderly] at hs

mutual
theorem Stmt.Renamed.eq_or_isProper (hnew : IsDeclarable r.new) {s s' : Stmt} :
    Stmt.Renamed r none s s' → s.Orderly → s' = s ∨ r.IsProper
  | .expression hvalue, _ => .inl (by rw [hvalue.eq_of_none])
  | .print hvalue, _ => .inl (by rw [hvalue.eq_of_none])
  | .var _ hinitializer, _ =>
    .inl (by rw [hinitializer.eq_of_none, Renaming.declared_of_ne_zero (by simp)])
  | .block hopens hbody, hs => by
    rw [Stmt.Orderly] at hs
    rcases hopens with rfl | ⟨-, rfl, hdeclares⟩
    · rcases hbody.eq_or_isProper hnew hs with rfl | h
      · exact .inl rfl
      · exact .inr h
    · exact .inr ⟨Stmt.OrderlyAll.declarable hs hdeclares, hnew, hbody.ne_new hdeclares⟩
  | .ifThen hcondition hthen, hs => by
    rw [Stmt.Orderly] at hs
    rcases hthen.eq_or_isProper hnew hs.1 with rfl | h
    · exact .inl (by rw [hcondition.eq_of_none])
    · exact .inr h
  | .ifElse hcondition hthen helse, hs => by
    rw [Stmt.Orderly] at hs
    rcases hthen.eq_or_isProper hnew hs.1.1 with rfl | h
    · rcases helse.eq_or_isProper hnew hs.2.1 with rfl | h
      · exact .inl (by rw [hcondition.eq_of_none])
      · exact .inr h
    · exact .inr h
  | .while hcondition hbody, hs => by
    rw [Stmt.Orderly] at hs
    rcases hbody.eq_or_isProper hnew hs.1 with rfl | h
    · exact .inl (by rw [hcondition.eq_of_none])
    · exact .inr h
  | .function _ _ hdecl, hs => by
    rw [Stmt.Orderly] at hs
    rcases hdecl.eq_or_isProper hnew hs.2 with rfl | h
    · exact .inl rfl
    · exact .inr h
  | .class _ _ hmethods, hs => by
    rw [Stmt.Orderly] at hs
    rcases hmethods.eq_or_isProper hnew hs.2 with rfl | h
    · exact .inl rfl
    · exact .inr h
  | .return hvalue, _ => .inl (by rw [hvalue.eq_of_none])

theorem Stmt.RenamedAll.eq_or_isProper (hnew : IsDeclarable r.new) {ss ss' : List Stmt} :
    Stmt.RenamedAll r none ss ss' → Stmt.OrderlyAll ss → ss' = ss ∨ r.IsProper
  | .nil, _ => .inl rfl
  | .cons hfirst hothers, hss => by
    rw [Stmt.OrderlyAll] at hss
    rcases hfirst.eq_or_isProper hnew hss.1 with rfl | h
    · rcases hothers.eq_or_isProper hnew hss.2 with rfl | h
      · exact .inl rfl
      · exact .inr h
    · exact .inr h

theorem FunctionDecl.Renamed.eq_or_isProper (hnew : IsDeclarable r.new)
    {f f' : FunctionDecl} :
    FunctionDecl.Renamed r none f f' → f.Orderly → f' = f ∨ r.IsProper
  | .mk hopens hparams hbody, hf => by
    rw [FunctionDecl.Orderly] at hf
    rcases hopens with rfl | ⟨-, rfl, hdeclares⟩
    · rcases hbody.eq_or_isProper hnew hf.2 with rfl | h
      · left
        have hdeclared : r.declared (Depth.inward none) = id := by
          funext name
          exact Renaming.declared_of_ne_zero (Depth.inward_ne_zero _)
        rw [hdeclared, List.map_id]
      · exact .inr h
    · right
      rcases hdeclares with hparam | hdeclares
      · exact ⟨hf.1 _ hparam, hnew, hparams _ hparam⟩
      · exact ⟨Stmt.OrderlyAll.declarable hf.2 hdeclares, hnew, hbody.ne_new hdeclares⟩

theorem FunctionDecl.RenamedAll.eq_or_isProper (hnew : IsDeclarable r.new)
    {fs fs' : List FunctionDecl} :
    FunctionDecl.RenamedAll r none fs fs' → FunctionDecl.OrderlyAll fs → fs' = fs ∨ r.IsProper
  | .nil, _ => .inl rfl
  | .cons hfirst hothers, hfs => by
    rw [FunctionDecl.OrderlyAll] at hfs
    rcases hfirst.eq_or_isProper hnew hfs.1 with rfl | h
    · rcases hothers.eq_or_isProper hnew hfs.2 with rfl | h
      · exact .inl rfl
      · exact .inr h
    · exact .inr h
end

/-- Either nothing is renamed, or the renamed variable is one that can be declared. -/
theorem Program.Renamed.eq_or_isProper {p p' : Program} (h : Program.Renamed r p p')
    (hnew : IsDeclarable r.new) (hp : p.Orderly) : p' = p ∨ r.IsProper := by
  rcases Stmt.RenamedAll.eq_or_isProper hnew h hp with heq | hproper
  · cases p
    cases p'
    exact .inl (congrArg Program.mk heq)
  · exact .inr hproper

end Lox
