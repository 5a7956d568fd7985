import Lox.Proofs.Syntax.Numbering
import Mathlib.Data.List.Nodup

/-!
# Functions and methods

A function of a program is declared by a function statement, or as a method of a class, and
never both, since functions have different numbers (`number_ne_of_compile`).

**Parts.** `Program.Has` holds of the statements of a program at any depth, those in the
bodies of functions and methods included.
-/

namespace Lox

/-- The statement is part of the program. -/
inductive Program.Has (p : Program) : Stmt → Prop
  | top {s} : s ∈ p.statements → Has p s
  | block {body span s} : Has p (.block body span) → s ∈ body → Has p s
  | thenBranch {condition branch other span} :
      Has p (.ifElse condition branch other span) → Has p branch
  | elseBranch {condition other branch span} :
      Has p (.ifElse condition other (some branch) span) → Has p branch
  | loop {condition body span} : Has p (.while condition body span) → Has p body
  | functionBody {f span s} : Has p (.function f span) → s ∈ f.body → Has p s
  | methodBody {name methods span f s} :
      Has p (.class name methods span) → f ∈ methods → s ∈ f.body → Has p s

/-- How a function is declared. -/
inductive Role where
  | function
  | method

mutual
/-- The functions declared in a statement, with their roles. -/
def Stmt.roles : Stmt → List (FunctionDecl × Role)
  | .block body _ => Stmt.rolesAll body
  | .ifElse _ thenBranch none _ => thenBranch.roles
  | .ifElse _ thenBranch (some elseBranch) _ => thenBranch.roles ++ elseBranch.roles
  | .while _ body _ => body.roles
  | .function decl _ => decl.roles .function
  | .class _ methods _ => FunctionDecl.rolesAll .method methods
  | _ => []

/-- The functions declared in statements, with their roles. -/
def Stmt.rolesAll : List Stmt → List (FunctionDecl × Role)
  | [] => []
  | s :: ss => s.roles ++ Stmt.rolesAll ss

/-- A function and the functions in its body, with their roles. -/
def FunctionDecl.roles (role : Role) : FunctionDecl → List (FunctionDecl × Role)
  | .mk number name params body span =>
    Stmt.rolesAll body ++ [(.mk number name params body span, role)]

/-- Functions and the functions in their bodies, with their roles. -/
def FunctionDecl.rolesAll (role : Role) : List FunctionDecl → List (FunctionDecl × Role)
  | [] => []
  | f :: fs => f.roles role ++ FunctionDecl.rolesAll role fs
end

/-- The functions declared in a program, with their roles. -/
def Program.roles (p : Program) : List (FunctionDecl × Role) := Stmt.rolesAll p.statements

/-! ## Numbers -/

/-- The numbers of functions. -/
def numbersOf (roles : List (FunctionDecl × Role)) : List Nat := roles.map fun r => r.1.number

mutual
theorem Stmt.numbersOf_roles : ∀ s : Stmt, numbersOf s.roles = s.functionIds
  | .block body _ => by
    rw [Stmt.roles, Stmt.functionIds, Stmt.numbersOf_rolesAll body]
  | .ifElse _ thenBranch none _ => by
    rw [Stmt.roles, Stmt.functionIds, Stmt.numbersOf_roles thenBranch]
  | .ifElse _ thenBranch (some elseBranch) _ => by
    rw [Stmt.roles, Stmt.functionIds, numbersOf, List.map_append, ← numbersOf, ← numbersOf,
      Stmt.numbersOf_roles thenBranch, Stmt.numbersOf_roles elseBranch]
  | .while _ body _ => by
    rw [Stmt.roles, Stmt.functionIds, Stmt.numbersOf_roles body]
  | .function decl _ => by
    rw [Stmt.roles, Stmt.functionIds, FunctionDecl.numbersOf_roles .function decl]
  | .class _ methods _ => by
    rw [Stmt.roles, Stmt.functionIds, FunctionDecl.numbersOf_rolesAll .method methods]
  | .expression .. | .print .. | .var .. | .return .. => rfl

theorem Stmt.numbersOf_rolesAll :
    ∀ ss : List Stmt, numbersOf (Stmt.rolesAll ss) = Stmt.functionIdsAll ss
  | [] => rfl
  | s :: ss => by
    rw [Stmt.rolesAll, Stmt.functionIdsAll, numbersOf, List.map_append, ← numbersOf,
      ← numbersOf, Stmt.numbersOf_roles s, Stmt.numbersOf_rolesAll ss]

theorem FunctionDecl.numbersOf_roles (role : Role) :
    ∀ f : FunctionDecl, numbersOf (f.roles role) = f.functionIds
  | .mk _ _ _ body _ => by
    rw [FunctionDecl.roles, FunctionDecl.functionIds, numbersOf, List.map_append, ← numbersOf,
      Stmt.numbersOf_rolesAll body]
    rfl

theorem FunctionDecl.numbersOf_rolesAll (role : Role) : ∀ fs : List FunctionDecl,
    numbersOf (FunctionDecl.rolesAll role fs) = FunctionDecl.functionIdsAll fs
  | [] => rfl
  | f :: fs => by
    rw [FunctionDecl.rolesAll, FunctionDecl.functionIdsAll, numbersOf, List.map_append,
      ← numbersOf, ← numbersOf, FunctionDecl.numbersOf_roles role f,
      FunctionDecl.numbersOf_rolesAll role fs]
end

/-! ## Parts of programs -/

theorem Stmt.roles_subset {s : Stmt} {ss : List Stmt} (hs : s ∈ ss) :
    s.roles ⊆ Stmt.rolesAll ss := by
  induction ss with
  | nil => cases hs
  | cons first ss ih =>
    rw [Stmt.rolesAll]
    rcases List.mem_cons.1 hs with rfl | hs
    · exact List.subset_append_left _ _
    · exact List.subset_append_of_subset_right _ (ih hs)

theorem FunctionDecl.roles_subset {role : Role} {f : FunctionDecl} {fs : List FunctionDecl}
    (hf : f ∈ fs) : f.roles role ⊆ FunctionDecl.rolesAll role fs := by
  induction fs with
  | nil => cases hf
  | cons first fs ih =>
    rw [FunctionDecl.rolesAll]
    rcases List.mem_cons.1 hf with rfl | hf
    · exact List.subset_append_left _ _
    · exact List.subset_append_of_subset_right _ (ih hf)

theorem FunctionDecl.mem_roles (role : Role) (f : FunctionDecl) : (f, role) ∈ f.roles role := by
  cases f
  rw [FunctionDecl.roles]
  exact List.mem_append_right _ (List.mem_singleton.2 rfl)

theorem FunctionDecl.rolesAll_body_subset (f : FunctionDecl) (role : Role) :
    Stmt.rolesAll f.body ⊆ f.roles role := by
  cases f
  rw [FunctionDecl.roles]
  exact List.subset_append_left _ _

namespace Program

variable {p : Program}

theorem Has.roles_subset {s : Stmt} (h : p.Has s) : s.roles ⊆ p.roles := by
  induction h with
  | top hs => exact Stmt.roles_subset hs
  | block _ hs ih =>
    rw [Stmt.roles] at ih
    exact List.Subset.trans (Stmt.roles_subset hs) ih
  | @thenBranch condition branch other span _ ih =>
    cases other with
    | none => rwa [Stmt.roles] at ih
    | some other =>
      rw [Stmt.roles] at ih
      exact List.Subset.trans (List.subset_append_left _ _) ih
  | elseBranch _ ih =>
    rw [Stmt.roles] at ih
    exact List.Subset.trans (List.subset_append_right _ _) ih
  | loop _ ih => rwa [Stmt.roles] at ih
  | @functionBody f span s _ hs ih =>
    rw [Stmt.roles] at ih
    have hbody : Stmt.rolesAll f.body ⊆ p.roles :=
      List.Subset.trans (f.rolesAll_body_subset _) ih
    exact List.Subset.trans (Stmt.roles_subset hs) hbody
  | @methodBody name methods span f s _ hf hs ih =>
    rw [Stmt.roles] at ih
    have hmethod : f.roles .method ⊆ p.roles := List.Subset.trans (FunctionDecl.roles_subset hf) ih
    have hbody : Stmt.rolesAll f.body ⊆ p.roles :=
      List.Subset.trans (f.rolesAll_body_subset _) hmethod
    exact List.Subset.trans (Stmt.roles_subset hs) hbody

/-- A function statement of the program declares the function. -/
def HasFunction (p : Program) (f : FunctionDecl) : Prop := ∃ span, p.Has (.function f span)

/-- The function is a method of a class of the program. -/
def HasMethod (p : Program) (f : FunctionDecl) : Prop :=
  ∃ name methods span, p.Has (.class name methods span) ∧ f ∈ methods

theorem HasFunction.mem_roles {f : FunctionDecl} (h : p.HasFunction f) :
    (f, .function) ∈ p.roles := by
  obtain ⟨span, hs⟩ := h
  have hsubset := hs.roles_subset
  rw [Stmt.roles] at hsubset
  exact hsubset (f.mem_roles _)

theorem HasMethod.mem_roles {f : FunctionDecl} (h : p.HasMethod f) :
    (f, .method) ∈ p.roles := by
  obtain ⟨name, methods, span, hs, hf⟩ := h
  have hsubset := hs.roles_subset
  rw [Stmt.roles] at hsubset
  exact hsubset (FunctionDecl.roles_subset hf (f.mem_roles _))

theorem mem_numbers_of_mem_roles {f : FunctionDecl} {role : Role} (h : (f, role) ∈ p.roles) :
    f.number ∈ p.numbers .function := by
  have hnumbers : numbersOf p.roles = p.numbers .function := Stmt.numbersOf_rolesAll p.statements
  rw [← hnumbers]
  exact List.mem_map.2 ⟨_, h, rfl⟩

end Program

/-- Functions and methods of a program of a source text have different numbers. -/
theorem number_ne_of_compile {supply : Supply} {source : String} {c : Compiled}
    (h : (compile supply source).result = .ok c) {f g : FunctionDecl}
    (hmethod : c.program.HasMethod f) (hfunction : c.program.HasFunction g) :
    f.number ≠ g.number := by
  intro heq
  have hnumbers : numbersOf c.program.roles = c.program.numbers .function :=
    Stmt.numbersOf_rolesAll c.program.statements
  have hnodup := nodup_numbers_of_compile .function h
  rw [← hnumbers] at hnodup
  have hsame := List.inj_on_of_nodup_map hnodup hmethod.mem_roles hfunction.mem_roles heq
  cases hsame

end Lox
