import Lox.Proofs.Syntax.Orderly

/-!
# Names that are assigned to

An assignment in a program of a source text is to a name that can be declared, never to a
keyword (`declarable_of_compile`).  In particular nothing assigns to the receiver.
-/

namespace Lox

mutual
/-- The names that an expression and its parts assign to. -/
def Expr.targets : Expr → List String
  | .literal .. => []
  | .grouping _ inner => inner.targets
  | .unary _ _ operand => operand.targets
  | .binary _ _ left right _ => left.targets ++ right.targets
  | .logical _ _ left right => left.targets ++ right.targets
  | .variable .. => []
  | .assign _ name value => name :: value.targets
  | .call _ callee arguments _ => callee.targets ++ Expr.targetsAll arguments
  | .new _ callee arguments _ => callee.targets ++ Expr.targetsAll arguments
  | .get _ object _ _ => object.targets
  | .set _ object _ _ value => value.targets ++ object.targets
  | .this _ => []

/-- The names that expressions and their parts assign to. -/
def Expr.targetsAll : List Expr → List String
  | [] => []
  | e :: es => e.targets ++ Expr.targetsAll es
end

/-- The names that an expression assigns to, which may be missing. -/
def Expr.targetsOption : Option Expr → List String
  | none => []
  | some e => e.targets

mutual
/-- The names that the expressions in a statement assign to. -/
def Stmt.targets : Stmt → List String
  | .expression value _ => value.targets
  | .print value _ => value.targets
  | .var _ initializer _ => Expr.targetsOption initializer
  | .block body _ => Stmt.targetsAll body
  | .ifElse condition thenBranch none _ => condition.targets ++ thenBranch.targets
  | .ifElse condition thenBranch (some elseBranch) _ =>
    condition.targets ++ thenBranch.targets ++ elseBranch.targets
  | .while condition body _ => condition.targets ++ body.targets
  | .function decl _ => decl.targets
  | .class _ methods _ => FunctionDecl.targetsAll methods
  | .return value _ => Expr.targetsOption value

/-- The names that the expressions in statements assign to. -/
def Stmt.targetsAll : List Stmt → List String
  | [] => []
  | s :: ss => s.targets ++ Stmt.targetsAll ss

/-- The names that the expressions in a function assign to. -/
def FunctionDecl.targets : FunctionDecl → List String
  | .mk _ _ _ body _ => Stmt.targetsAll body

/-- The names that the expressions in functions assign to. -/
def FunctionDecl.targetsAll : List FunctionDecl → List String
  | [] => []
  | f :: fs => f.targets ++ FunctionDecl.targetsAll fs
end

/-! ## Bare trees -/

mutual
theorem Expr.targets_bare (e : Expr) : e.bare.targets = e.targets := by
  cases e <;> simp [Expr.bare, Expr.targets, Expr.targets_bare, Expr.targetsAll_bareAll]

theorem Expr.targetsAll_bareAll (es : List Expr) :
    Expr.targetsAll (Expr.bareAll es) = Expr.targetsAll es := by
  cases es with
  | nil => rfl
  | cons e es =>
    simp [Expr.bareAll, Expr.targetsAll, Expr.targets_bare e, Expr.targetsAll_bareAll es]
end

theorem Expr.targetsOption_bare (e : Option Expr) :
    Expr.targetsOption (e.map Expr.bare) = Expr.targetsOption e := by
  cases e with
  | none => rfl
  | some e => exact e.targets_bare

mutual
theorem Stmt.targets_bare : ∀ s : Stmt, s.bare.targets = s.targets
  | .expression value _ => by rw [Stmt.bare, Stmt.targets, Stmt.targets, value.targets_bare]
  | .print value _ => by rw [Stmt.bare, Stmt.targets, Stmt.targets, value.targets_bare]
  | .var _ initializer _ => by
    rw [Stmt.bare, Stmt.targets, Stmt.targets, Expr.targetsOption_bare]
  | .block body _ => by rw [Stmt.bare, Stmt.targets, Stmt.targets, Stmt.targetsAll_bareAll body]
  | .ifElse condition thenBranch none _ => by
    rw [Stmt.bare, Stmt.targets, Stmt.targets, condition.targets_bare,
      Stmt.targets_bare thenBranch]
  | .ifElse condition thenBranch (some elseBranch) _ => by
    rw [Stmt.bare, Stmt.targets, Stmt.targets, condition.targets_bare,
      Stmt.targets_bare thenBranch, Stmt.targets_bare elseBranch]
  | .while condition body _ => by
    rw [Stmt.bare, Stmt.targets, Stmt.targets, condition.targets_bare, Stmt.targets_bare body]
  | .function decl _ => by
    rw [Stmt.bare, Stmt.targets, Stmt.targets, FunctionDecl.targets_bare decl]
  | .class _ methods _ => by
    rw [Stmt.bare, Stmt.targets, Stmt.targets, FunctionDecl.targetsAll_bareAll methods]
  | .return value _ => by
    rw [Stmt.bare, Stmt.targets, Stmt.targets, Expr.targetsOption_bare]

theorem Stmt.targetsAll_bareAll :
    ∀ ss : List Stmt, Stmt.targetsAll (Stmt.bareAll ss) = Stmt.targetsAll ss
  | [] => by rw [Stmt.bareAll]
  | s :: ss => by
    rw [Stmt.bareAll, Stmt.targetsAll, Stmt.targetsAll, Stmt.targets_bare s,
      Stmt.targetsAll_bareAll ss]

theorem FunctionDecl.targets_bare : ∀ f : FunctionDecl, f.bare.targets = f.targets
  | .mk _ _ _ body _ => by
    rw [FunctionDecl.bare, FunctionDecl.targets, FunctionDecl.targets,
      Stmt.targetsAll_bareAll body]

theorem FunctionDecl.targetsAll_bareAll : ∀ fs : List FunctionDecl,
    FunctionDecl.targetsAll (FunctionDecl.bareAll fs) = FunctionDecl.targetsAll fs
  | [] => by rw [FunctionDecl.bareAll]
  | f :: fs => by
    rw [FunctionDecl.bareAll, FunctionDecl.targetsAll, FunctionDecl.targetsAll,
      FunctionDecl.targets_bare f, FunctionDecl.targetsAll_bareAll fs]
end

/-! ## Derived programs -/

open Grammar

/-- All the names can be declared. -/
def Declarable (names : List String) : Prop := ∀ name ∈ names, IsDeclarable name

namespace Declarable

variable {names names' : List String}

theorem nil : Declarable [] := by simp [Declarable]

theorem cons {name : String} (h : IsDeclarable name) (hs : Declarable names) :
    Declarable (name :: names) := List.forall_mem_cons.2 ⟨h, hs⟩

theorem append (h : Declarable names) (h' : Declarable names') : Declarable (names ++ names') :=
  List.forall_mem_append.2 ⟨h, h'⟩

theorem left (h : Declarable (names ++ names')) : Declarable names :=
  fun name hname => h name (List.mem_append_left _ hname)

theorem right (h : Declarable (names ++ names')) : Declarable names' :=
  fun name hname => h name (List.mem_append_right _ hname)

end Declarable

theorem Operator.declarable_targets_apply (op : Operator) {node : Node} {left right : Expr}
    {opSpan : Span} (hleft : Declarable left.targets) (hright : Declarable right.targets) :
    Declarable (op.apply node left right opSpan).targets := by
  cases op <;> exact hleft.append hright

mutual
theorem declarable_of_reads {c : Category} {ts : List Token} {e : Expr} :
    Reads c ts e → ProperNames ts → Declarable e.targets
  | .of _ hinner, hts => declarable_of_reads hinner hts
  | .assign hname _ hvalue, hts => by
    rw [Expr.targets]
    exact (declarable_of_reads hvalue hts.of_cons.of_cons).cons (hts.first hname)
  | .set hobject _ _ _ hvalue, hts => by
    rw [Expr.targets]
    exact (declarable_of_reads hvalue hts.of_append_right.of_cons.of_cons.of_cons).append
      (declarable_of_reads hobject hts.of_append_left)
  | .operator hleft _ _ hright, hts =>
    Operator.declarable_targets_apply _ (declarable_of_reads hleft hts.of_append_left)
      (declarable_of_reads hright hts.of_append_right.of_cons)
  | .unary _ hoperand, hts => by
    rw [Expr.targets]
    exact declarable_of_reads hoperand hts.of_cons
  | .bareNew _ hcallee, hts => by
    rw [Expr.targets]
    exact (declarable_of_readsClass hcallee hts.of_cons).append .nil
  | .new _ hcallee harguments, hts => by
    rw [Expr.targets]
    exact (declarable_of_readsClass hcallee hts.of_append_left.of_cons).append
      (declarable_of_arguments harguments hts.of_append_right)
  | .call hcallee harguments, hts => by
    rw [Expr.targets]
    exact (declarable_of_reads hcallee hts.of_append_left).append
      (declarable_of_arguments harguments hts.of_append_right)
  | .get hobject _ _, hts => by
    rw [Expr.targets]
    exact declarable_of_reads hobject hts.of_append_left
  | .literal _, _ => .nil
  | .this _, _ => .nil
  | .name _, _ => .nil
  | .grouping _ hinner _, hts => by
    rw [Expr.targets]
    exact declarable_of_reads hinner hts.of_append_left.of_cons

theorem declarable_of_readsClass {ts : List Token} {e : Expr} :
    ReadsClass ts e → ProperNames ts → Declarable e.targets
  | .primary h, hts => declarable_of_reads h hts
  | .get hobject _ _, hts => by
    rw [Expr.targets]
    exact declarable_of_readsClass hobject hts.of_append_left

theorem declarable_of_arguments {ts : List Token} {es : List Expr} :
    Arguments ts es → ProperNames ts → Declarable (Expr.targetsAll es)
  | .none _ _, _ => .nil
  | .some _ hvalues _ _, hts => declarable_of_values hvalues hts.of_append_left.of_cons

theorem declarable_of_values {ts : List Token} {es : List Expr} :
    Values ts es → ProperNames ts → Declarable (Expr.targetsAll es)
  | .one hvalue, hts => (declarable_of_reads hvalue hts).append .nil
  | .more hvalue _ hvalues, hts => by
    rw [Expr.targetsAll]
    exact (declarable_of_reads hvalue hts.of_append_left).append
      (declarable_of_values hvalues hts.of_append_right.of_cons)
end

theorem declarable_of_maybe {ts : List Token} {e : Option Expr} (h : Maybe ts e)
    (hts : ProperNames ts) : Declarable (Expr.targetsOption e) := by
  cases h with
  | none => exact .nil
  | some h => exact declarable_of_reads h hts

theorem declarable_of_expressionStatement {ts : List Token} {s : Stmt}
    (h : ExpressionStatement ts s) (hts : ProperNames ts) : Declarable s.targets := by
  cases h with
  | mk hvalue _ =>
    rw [Stmt.targets]
    exact declarable_of_reads hvalue hts.of_append_left

theorem declarable_of_varDeclaration {ts : List Token} {s : Stmt} (h : VarDeclaration ts s)
    (hts : ProperNames ts) : Declarable s.targets := by
  cases h with
  | bare _ _ _ => exact .nil
  | initialized _ _ _ hvalue _ =>
    rw [Stmt.targets]
    exact declarable_of_reads hvalue hts.of_append_left.of_cons.of_cons.of_cons

/-- A loop assigns to what its parts assign to. -/
theorem declarable_loopTree {ts us vs : List Token} {initializer : Option Stmt}
    {condition increment : Option Expr} {body : Stmt} (hinitializer : LoopStart ts initializer)
    (hts : ProperNames ts) (hcondition : Maybe us condition) (hus : ProperNames us)
    (hincrement : Maybe vs increment) (hvs : ProperNames vs) (hbody : Declarable body.targets) :
    Declarable (loopTree initializer (condition.getD always) increment body).targets := by
  have htest : Declarable (condition.getD always).targets := by
    cases hcondition with
    | none => exact .nil
    | some h => exact declarable_of_reads h hus
  -- the loop without its initializer
  have hloop : Declarable (loopTree none (condition.getD always) increment body).targets := by
    cases hincrement with
    | none =>
      rw [loopTree, Stmt.targets]
      exact htest.append hbody
    | some h =>
      simp only [loopTree, Stmt.targets, Stmt.targetsAll]
      exact htest.append (hbody.append ((declarable_of_reads h hvs).append .nil))
  have hblock {first : Stmt} (hfirst : Declarable first.targets) :
      Declarable (loopTree (some first) (condition.getD always) increment body).targets := by
    cases increment <;>
      simp only [loopTree, Stmt.targets, Stmt.targetsAll] at hloop ⊢ <;>
      exact hfirst.append (hloop.append .nil)
  cases hinitializer with
  | none _ => exact hloop
  | var h => exact hblock (declarable_of_varDeclaration h hts)
  | expression h => exact hblock (declarable_of_expressionStatement h hts)

mutual
theorem declarable_of_declares {ts : List Token} {s : Stmt} :
    Declares ts s → ProperNames ts → Declarable s.targets
  | .class _ _ _ hmethods _, hts => by
    rw [Stmt.targets]
    exact declarable_of_methods hmethods hts.of_append_left.of_cons.of_cons.of_cons
  | .function _ hdecl, hts => by
    rw [Stmt.targets]
    exact declarable_of_defines hdecl hts.of_cons
  | .var h, hts => declarable_of_varDeclaration h hts
  | .statement h, hts => declarable_of_states h hts

theorem declarable_of_states {isOpen : Bool} {ts : List Token} {s : Stmt} :
    States isOpen ts s → ProperNames ts → Declarable s.targets
  | .expression h, hts => declarable_of_expressionStatement h hts
  | .print _ hvalue _, hts => by
    rw [Stmt.targets]
    exact declarable_of_reads hvalue hts.of_append_left.of_cons
  | .return _ hvalue _, hts => by
    rw [Stmt.targets]
    exact declarable_of_maybe hvalue hts.of_append_left.of_cons
  | .block _ hbody _, hts => by
    rw [Stmt.targets]
    exact declarable_of_items hbody hts.of_append_left.of_cons
  | .ifThen _ _ hcondition _ hthen, hts => by
    rw [Stmt.targets]
    exact (declarable_of_reads hcondition hts.of_append_left.of_cons.of_cons).append
      (declarable_of_states hthen hts.of_append_right.of_cons)
  | .ifElse _ _ hcondition _ hthen _ helse, hts => by
    rw [Stmt.targets]
    exact ((declarable_of_reads hcondition
      hts.of_append_left.of_append_left.of_cons.of_cons).append
      (declarable_of_states hthen hts.of_append_left.of_append_right.of_cons)).append
      (declarable_of_states helse hts.of_append_right.of_cons)
  | .while _ _ hcondition _ hbody, hts => by
    rw [Stmt.targets]
    exact (declarable_of_reads hcondition hts.of_append_left.of_cons.of_cons).append
      (declarable_of_states hbody hts.of_append_right.of_cons)
  | .for _ _ hinitializer hcondition _ hincrement _ hbody, hts =>
    declarable_loopTree hinitializer
      hts.of_append_left.of_append_left.of_append_left.of_cons.of_cons hcondition
      hts.of_append_left.of_append_left.of_append_right hincrement
      hts.of_append_left.of_append_right.of_cons
      (declarable_of_states hbody hts.of_append_right.of_cons)

theorem declarable_of_defines {ts : List Token} {f : FunctionDecl} :
    Defines ts f → ProperNames ts → Declarable f.targets
  | .mk _ _ _ _ _ hbody _, hts => by
    rw [FunctionDecl.targets]
    exact declarable_of_items hbody hts.of_append_left.of_append_right.of_cons.of_cons

theorem declarable_of_items {ts : List Token} {ss : List Stmt} :
    Items ts ss → ProperNames ts → Declarable (Stmt.targetsAll ss)
  | .nil, _ => .nil
  | .cons hfirst hothers, hts => by
    rw [Stmt.targetsAll]
    exact (declarable_of_declares hfirst hts.of_append_left).append
      (declarable_of_items hothers hts.of_append_right)

theorem declarable_of_methods {ts : List Token} {fs : List FunctionDecl} :
    Methods ts fs → ProperNames ts → Declarable (FunctionDecl.targetsAll fs)
  | .nil, _ => .nil
  | .cons hfirst hothers, hts => by
    rw [FunctionDecl.targetsAll]
    exact (declarable_of_defines hfirst hts.of_append_left).append
      (declarable_of_methods hothers hts.of_append_right)
end

/-- Programs of source texts assign to names that can be declared only. -/
theorem declarable_of_compile {supply : Supply} {source : String} {c : Compiled}
    (h : (compile supply source).result = .ok c) :
    Declarable (Stmt.targetsAll c.program.statements) := by
  obtain ⟨ts, hitems, hnames⟩ := items_of_compile h
  rw [← Stmt.targetsAll_bareAll]
  exact declarable_of_items hitems hnames

end Lox
