import Lox.Scope

/-!
# What surroundings permit

The receiver may be referred to in classes only, and a return may stand in functions only.
`Stmt.Permitted` says this of a statement in given surroundings.  A program that resolves
without error is permitted at top level (`Program.permitted_of_resolve`), whatever functions
and classes it nests: the surroundings of a body hold in this body only.

**Actions.** `Demands x p` says that the action `x` notes no error only if `p` holds.  It is
shown of an action composed of others by composing what these demand.
-/

namespace Lox

mutual
/-- The expression refers to the receiver in classes only. -/
def Expr.Permitted (around : Enclosing) : Expr → Prop
  | .literal .. => True
  | .grouping _ inner => inner.Permitted around
  | .unary _ _ operand => operand.Permitted around
  | .binary _ _ left right _ => left.Permitted around ∧ right.Permitted around
  | .logical _ _ left right => left.Permitted around ∧ right.Permitted around
  | .variable .. => True
  | .assign _ _ value => value.Permitted around
  | .call _ callee arguments _ => callee.Permitted around ∧ Expr.PermittedAll around arguments
  | .new _ callee arguments _ => callee.Permitted around ∧ Expr.PermittedAll around arguments
  | .get _ object _ _ => object.Permitted around
  | .set _ object _ _ value => value.Permitted around ∧ object.Permitted around
  | .this _ => around.inClass = true

/-- The expressions refer to the receiver in classes only. -/
def Expr.PermittedAll (around : Enclosing) : List Expr → Prop
  | [] => True
  | e :: es => e.Permitted around ∧ Expr.PermittedAll around es
end

/-- The expression, if there is one, refers to the receiver in classes only. -/
def Expr.PermittedOption (around : Enclosing) : Option Expr → Prop
  | none => True
  | some e => e.Permitted around

mutual
/-- The statement returns in functions only, and refers to the receiver in classes only. -/
def Stmt.Permitted (around : Enclosing) : Stmt → Prop
  | .expression value _ => value.Permitted around
  | .print value _ => value.Permitted around
  | .var _ initializer _ => Expr.PermittedOption around initializer
  | .block body _ => Stmt.PermittedAll around body
  | .ifElse condition thenBranch none _ =>
    condition.Permitted around ∧ thenBranch.Permitted around
  | .ifElse condition thenBranch (some elseBranch) _ =>
    condition.Permitted around ∧ thenBranch.Permitted around ∧ elseBranch.Permitted around
  | .while condition body _ => condition.Permitted around ∧ body.Permitted around
  | .function decl _ => decl.Permitted around
  | .class _ methods _ => FunctionDecl.PermittedAll { around with inClass := true } methods
  | .return value _ => around.inFunction = true ∧ Expr.PermittedOption around value

/-- The statements return in functions only, and refer to the receiver in classes only. -/
def Stmt.PermittedAll (around : Enclosing) : List Stmt → Prop
  | [] => True
  | s :: ss => s.Permitted around ∧ Stmt.PermittedAll around ss

/-- The body of the function is permitted there. -/
def FunctionDecl.Permitted (around : Enclosing) : FunctionDecl → Prop
  | .mk _ _ _ body _ => Stmt.PermittedAll { around with inFunction := true } body

/-- The bodies of the functions are permitted there. -/
def FunctionDecl.PermittedAll (around : Enclosing) : List FunctionDecl → Prop
  | [] => True
  | f :: fs => f.Permitted around ∧ FunctionDecl.PermittedAll around fs
end

theorem Stmt.permittedAll_iff {around : Enclosing} {ss : List Stmt} :
    Stmt.PermittedAll around ss ↔ ∀ s ∈ ss, s.Permitted around := by
  induction ss with
  | nil => simp [Stmt.PermittedAll]
  | cons s ss ih => rw [Stmt.PermittedAll, ih, List.forall_mem_cons]

theorem FunctionDecl.permittedAll_iff {around : Enclosing} {fs : List FunctionDecl} :
    FunctionDecl.PermittedAll around fs ↔ ∀ f ∈ fs, f.Permitted around := by
  induction fs with
  | nil => simp [FunctionDecl.PermittedAll]
  | cons f fs ih => rw [FunctionDecl.PermittedAll, ih, List.forall_mem_cons]

/-! ## What resolving demands -/

/-- The action notes no error only under a condition. -/
def Demands (x : Resolve Unit) (p : Prop) : Prop :=
  ∀ s : Scoping, s.errors.size ≤ (x.run s).2.errors.size ∧
    ((x.run s).2.errors.size = s.errors.size → p)

namespace Demands

variable {x y : Resolve Unit} {p q : Prop}

theorem mono (h : Demands x p) (hpq : p → q) : Demands x q :=
  fun s => ⟨(h s).1, fun hsize => hpq ((h s).2 hsize)⟩

theorem seq (hx : Demands x p) (hy : Demands y q) : Demands (do x; y) (p ∧ q) := by
  intro s
  obtain ⟨hle, hp⟩ := hx s
  obtain ⟨hle', hq⟩ := hy (x.run s).2
  refine ⟨Nat.le_trans hle hle', fun hsize => ?_⟩
  have hmid : (x.run s).2.errors.size = s.errors.size :=
    Nat.le_antisymm (Nat.le_trans hle' (Nat.le_of_eq hsize)) hle
  exact ⟨hp hmid, hq (hsize.trans hmid.symm)⟩

/-- An action that notes nothing may come first. -/
theorem after (hx : Demands x True) (hy : Demands y q) : Demands (do x; y) q :=
  (hx.seq hy).mono And.right

/-- An action that notes nothing may come last. -/
theorem before (hx : Demands x p) (hy : Demands y True) : Demands (do x; y) p :=
  (hx.seq hy).mono And.left

theorem pure : Demands (Pure.pure ()) True := fun _ => ⟨Nat.le_refl _, fun _ => trivial⟩

/-- A change that notes no error. -/
theorem of_modify {f : Scoping → Scoping} (h : ∀ s : Scoping, (f s).errors = s.errors) :
    Demands (modify f) True :=
  fun s => ⟨Nat.le_of_eq (congrArg Array.size (h s).symm), fun _ => trivial⟩

theorem note (fault : ScopeFault) (span : Span) : Demands (Resolve.note fault span) False := by
  intro s
  have hsize : ((Resolve.note fault span).run s).2.errors.size = s.errors.size + 1 :=
    Array.size_push ..
  exact ⟨by omega, fun heq => by omega⟩

theorem bind (name : String) (left : Bool) : Demands (modify (·.bind name left)) True :=
  of_modify fun s => by
    unfold Scoping.bind
    split <;> rfl

theorem declare (name : String) : Demands (Resolve.declare name) True := bind name false

theorem define (name : String) : Demands (Resolve.define name) True := bind name true

theorem defineAll (names : List String) : Demands (Resolve.defineAll names) True := by
  induction names with
  | nil => exact pure
  | cons name names ih => exact (define name).after ih

theorem openScope : Demands Resolve.openScope True := of_modify fun _ => rfl

theorem closeScope : Demands Resolve.closeScope True := of_modify fun _ => rfl

theorem occurrence (id : Nat) (name : String) : Demands (Resolve.occurrence id name) True :=
  of_modify fun s => by split <;> rfl

theorem checkInitializer (name : String) (span : Span) :
    Demands (Resolve.checkInitializer name span) True := by
  intro s
  by_cases hinit : s.inInitializer name
  · have hrun : (Resolve.checkInitializer name span).run s =
        (Resolve.note (.ownInitializer name) span).run s := by
      simp [Resolve.checkInitializer, hinit]
    rw [hrun]
    exact ((note _ _).mono False.elim) s
  · have hrun : (Resolve.checkInitializer name span).run s =
        (Pure.pure () : Resolve Unit).run s := by
      simp [Resolve.checkInitializer, hinit]
    rw [hrun]
    exact pure s

end Demands

open Demands

mutual
theorem Expr.demands (around : Enclosing) :
    ∀ e : Expr, Demands (e.resolve around) (e.Permitted around)
  | .literal .. => by
    rw [Expr.resolve, Expr.Permitted]
    exact .pure
  | .grouping _ inner => by
    rw [Expr.resolve, Expr.Permitted]
    exact inner.demands around
  | .unary _ _ operand => by
    rw [Expr.resolve, Expr.Permitted]
    exact operand.demands around
  | .binary _ _ left right _ => by
    rw [Expr.resolve, Expr.Permitted]
    exact (left.demands around).seq (right.demands around)
  | .logical _ _ left right => by
    rw [Expr.resolve, Expr.Permitted]
    exact (left.demands around).seq (right.demands around)
  | .variable node name => by
    rw [Expr.resolve, Expr.Permitted]
    exact (checkInitializer name node.span).after (occurrence node.id name)
  | .assign node name value => by
    rw [Expr.resolve, Expr.Permitted]
    exact (value.demands around).before (occurrence node.id name)
  | .call _ callee arguments _ => by
    rw [Expr.resolve, Expr.Permitted]
    exact (callee.demands around).seq (Expr.demandsAll around arguments)
  | .new _ callee arguments _ => by
    rw [Expr.resolve, Expr.Permitted]
    exact (callee.demands around).seq (Expr.demandsAll around arguments)
  | .get _ object _ _ => by
    rw [Expr.resolve, Expr.Permitted]
    exact object.demands around
  | .set _ object _ _ value => by
    rw [Expr.resolve, Expr.Permitted]
    exact (value.demands around).seq (object.demands around)
  | .this node => by
    rw [Expr.resolve, Expr.Permitted]
    split
    · next hclass => exact (occurrence node.id "this").mono fun _ => hclass
    · exact (note _ _).mono False.elim

theorem Expr.demandsAll (around : Enclosing) :
    ∀ es : List Expr, Demands (Expr.resolveAll around es) (Expr.PermittedAll around es)
  | [] => by
    rw [Expr.resolveAll, Expr.PermittedAll]
    exact .pure
  | e :: es => by
    rw [Expr.resolveAll, Expr.PermittedAll]
    exact (e.demands around).seq (Expr.demandsAll around es)
end

theorem Expr.demandsOption (around : Enclosing) (e : Option Expr) :
    Demands (Expr.resolveOption around e) (Expr.PermittedOption around e) := by
  cases e with
  | none => exact .pure
  | some e => exact e.demands around

mutual
theorem Stmt.demands (around : Enclosing) :
    ∀ s : Stmt, Demands (s.resolve around) (s.Permitted around)
  | .expression value _ => by
    rw [Stmt.resolve, Stmt.Permitted]
    exact value.demands around
  | .print value _ => by
    rw [Stmt.resolve, Stmt.Permitted]
    exact value.demands around
  | .var name initializer _ => by
    rw [Stmt.resolve, Stmt.Permitted]
    exact (declare name).after ((Expr.demandsOption around initializer).before (define name))
  | .block body _ => by
    rw [Stmt.resolve, Stmt.Permitted]
    exact openScope.after ((Stmt.demandsAll around body).before closeScope)
  | .ifElse condition thenBranch none _ => by
    rw [Stmt.resolve, Stmt.Permitted]
    exact (condition.demands around).seq (thenBranch.demands around)
  | .ifElse condition thenBranch (some elseBranch) _ => by
    rw [Stmt.resolve, Stmt.Permitted]
    exact (condition.demands around).seq
      ((thenBranch.demands around).seq (elseBranch.demands around))
  | .while condition body _ => by
    rw [Stmt.resolve, Stmt.Permitted]
    exact (condition.demands around).seq (body.demands around)
  | .function decl _ => by
    rw [Stmt.resolve, Stmt.Permitted]
    exact (define decl.name).after (decl.demands around)
  | .class name methods _ => by
    rw [Stmt.resolve, Stmt.Permitted]
    exact (define name).after (openScope.after ((define "this").after
      ((FunctionDecl.demandsAll _ methods).before closeScope)))
  | .return value span => by
    rw [Stmt.resolve, Stmt.Permitted]
    cases hfunction : around.inFunction with
    | false => exact ((note _ span).seq (Expr.demandsOption around value)).mono fun h => h.1.elim
    | true => exact (Expr.demandsOption around value).mono fun h => ⟨rfl, h⟩

theorem Stmt.demandsAll (around : Enclosing) :
    ∀ ss : List Stmt, Demands (Stmt.resolveAll around ss) (Stmt.PermittedAll around ss)
  | [] => by
    rw [Stmt.resolveAll, Stmt.PermittedAll]
    exact .pure
  | s :: ss => by
    rw [Stmt.resolveAll, Stmt.PermittedAll]
    exact (s.demands around).seq (Stmt.demandsAll around ss)

theorem FunctionDecl.demands (around : Enclosing) :
    ∀ f : FunctionDecl, Demands (f.resolve around) (f.Permitted around)
  | .mk _ _ params body _ => by
    rw [FunctionDecl.resolve, FunctionDecl.Permitted]
    exact openScope.after ((defineAll params).after ((Stmt.demandsAll _ body).before closeScope))

theorem FunctionDecl.demandsAll (around : Enclosing) :
    ∀ fs : List FunctionDecl,
      Demands (FunctionDecl.resolveAll around fs) (FunctionDecl.PermittedAll around fs)
  | [] => by
    rw [FunctionDecl.resolveAll, FunctionDecl.PermittedAll]
    exact .pure
  | f :: fs => by
    rw [FunctionDecl.resolveAll, FunctionDecl.PermittedAll]
    exact (f.demands around).seq (FunctionDecl.demandsAll around fs)
end

/-- A program without errors of scope returns in functions only, and refers to the receiver
in classes only. -/
theorem Program.permitted_of_resolve {p : Program} {locals : Locals}
    (h : p.resolve = .ok locals) : Stmt.PermittedAll .program p.statements := by
  obtain ⟨-, hpermitted⟩ := Stmt.demandsAll .program p.statements .initial
  rw [Program.resolve] at h
  split at h
  · next hempty =>
    refine hpermitted ?_
    simpa [Scoping.initial] using hempty
  · cases h

end Lox
