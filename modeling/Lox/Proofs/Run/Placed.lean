import Lox.Proofs.Run.Code
import Lox.Proofs.Syntax.Placed

/-!
# Where running programs fail

An error of a running program has its place from the program: from the expression that is
evaluated, or from the statement that prints.  So what holds of all places in a program holds of
the place of the error that ends it (`Compiled.placed_of_failed`).

**Functions.** A function may be called long after it was declared, but its body is part of the
program all the same.  This is where the functions in the store come in (`Code.placed`).
-/

namespace Lox

open Run

section

variable (P : Span → Prop)

/-- Statements and functions all of whose places have the property. -/
def Code.placed : Code where
  stmt s := s.Placed P
  closure f := f.decl.Placed P
  declared f := f.Placed P
  method f := f.Placed P
  block h _ hs := Stmt.Placed.of_mem h.1 hs
  thenBranch h := (Stmt.placed_ifElse.1 h).2.1
  elseBranch h := h.2.2.1
  loop h := h.2.1
  function h := h.1
  methods h _ hf := FunctionDecl.Placed.of_mem h.1 hf
  body h _ hs := Stmt.Placed.of_mem h.body hs

/-- All places in what the task has to carry out have the property. -/
def Task.Placed : Task → Prop
  | evaluate e => e.Placed P
  | evaluateAll es => Expr.PlacedAll P es
  | invoke _ _ paren => P paren
  | apply f _ => f.decl.Placed P
  | instantiate _ _ paren => P paren
  | make _ => True
  | property _ _ nameSpan => P nameSpan
  | execute s => s.Placed P
  | executeAll ss => Stmt.PlacedAll P ss
  | loop condition body => condition.Placed P ∧ body.Placed P

/-- The place that the basic action reports has the property. -/
def Act.Placed : Act → Prop
  | check span _ => P span
  | lookUp _ node => P node.span
  | assign _ node _ => P node.span
  | checkCall _ _ paren => P paren
  | refuse _ span => P span
  | print _ span => P span
  | spent t => t.Placed P
  | readProperty .. | setField .. | addInstance _ | define .. | defineFunction _ | defineClass ..
  | openBlock | openBody .. => True

end

variable {P : Span → Prop}

/-! ## Steps -/

/-- What a placed task begins is placed.  Only a call begins what is not part of the task, and
there the function is. -/
theorem Enters.placed {n : Nat} {t t' : Task} {m m' : Machine} (henter : Enters n t m t' m')
    (hfrom : t.From (Code.placed P)) (h : t.Placed P) : t'.Placed P := by
  cases henter with
  | inner | operand | assigned => exact h.2
  | left | decider | callee | newCallee | object | target => exact h.2.1
  | right | arguments | newArguments => exact h.2.2.1
  | undecided => exact h.2.2
  | invoke | instantiate | written => exact h.2.2.2
  | property => exact h.2.2
  | firstValue | firstStmt | test => exact h.1
  | otherValues | otherStmts | round => exact h.2
  | apply => exact hfrom.1 _ rfl
  | make => trivial
  | functionBody => exact FunctionDecl.Placed.body h
  | expression | printed | initializer | blockBody | returned => exact h.1
  | condition => exact (Stmt.placed_ifElse.1 h).1
  | thenBranch => exact (Stmt.placed_ifElse.1 h).2.1
  | elseBranch => exact (Stmt.placed_ifElse.1 h).2.2.1
  | loop => exact ⟨h.1, h.2.1⟩
  | again => exact h

/-- What a placed task does is placed. -/
theorem Performs.placed {n : Nat} {t : Task} {m m' : Machine} {a : Act}
    (hperforms : Performs n t m a m') (h : t.Placed P) : a.Placed P := by
  cases hperforms with
  | unary | assign => exact h.1
  | binary => exact h.2.2.2
  | «variable» | this => exact h
  | fieldsOfOther => exact h.2.2.1
  | checkCall | calledClass | notCallable | checkNew | notClass | undefinedProperty
  | propertiesOfOther => exact h
  | print => exact h.2
  | _ => trivial

/-- A task without budget fails where it was begun for. -/
theorem Task.placed_of_spent {t : Task} {m m' : Machine} {error : RuntimeError}
    (h : t.Placed P) (hstop : t.run 0 m = .error (.error error) m') : P error.span := by
  cases t with
  | instantiate callee arguments paren =>
    cases callee with
    | «class» c =>
      rw [run, instantiate_class_apply] at hstop
      split at hstop
      · cases hstop
        exact h
      · split at hstop <;> cases hstop
        exact h
    | _ =>
      cases hstop
      exact h
  | property object name nameSpan =>
    cases object with
    | «instance» i =>
      rw [run, property_instance_apply] at hstop
      dsimp only at hstop
      split at hstop <;> cases hstop
      exact h
    | _ =>
      cases hstop
      exact h
  | _ => cases hstop

/-- A basic action fails at its place. -/
theorem Act.placed_of_error {a : Act} {m m' : Machine} {error : RuntimeError} (h : a.Placed P)
    (hstop : a.run m = .error (.error error) m') : P error.span := by
  cases a with
  | spent t => exact Task.placed_of_spent h hstop
  | _ =>
    cases Act.stops_of_error hstop
    all_goals exact h

/-! ## Programs -/

namespace Compiled

variable {budget n : Nat} {c : Compiled} {m : Machine}

/-- Every task in the course of a placed program is placed. -/
theorem placed_of_begins (hc : Stmt.PlacedAll P c.program.statements)
    (hstore : m.store.From (Code.placed P)) {t : Task} {m' : Machine}
    (h : c.Begins budget m n t m') : t.Placed P := by
  have hadmitted : ∀ e ∈ c.course budget m, e.Admitted (Code.placed P) := by
    intro e _
    cases e with
    | begins => trivial
    | acts a m => exact ⟨fun _ _ hf => hf, fun _ _ _ _ _ hf => hf⟩
  have hcourse := (Compiled.endsFrom (fun s hs => Stmt.Placed.of_mem hc hs) hstore hadmitted).1
  have hfrom : ∀ {k t m'}, c.Begins budget m k t m' → t.From (Code.placed P) := fun hbegins =>
    (hcourse _ (begins_mem_course.2 hbegins)).1
  obtain ⟨before, s, rest, m₁, hstatements, hbefore, hreach⟩ := h
  induction hreach with
  | refl =>
    refine Stmt.Placed.of_mem hc ?_
    rw [hstatements]
    exact List.mem_append_right _ (List.mem_cons_self ..)
  | step hreach henter ih =>
    exact henter.placed (hfrom ⟨before, s, rest, m₁, hstatements, hbefore, hreach⟩) ih

/-- The error that ends a placed program is placed. -/
theorem placed_of_failed (hc : Stmt.PlacedAll P c.program.statements)
    (hstore : m.store.From (Code.placed P)) {error : RuntimeError}
    (h : (Session.runCompiled budget m c).1 = .failed error) : P error.span := by
  rw [Session.runCompiled] at h
  split at h
  · cases h
  · next hrun =>
    cases h
    obtain ⟨a, m₁, m₂, ha, hstop⟩ := Compiled.origin_of_error hrun
    rcases Compiled.acts_mem_course.1 ha with ⟨k, t, m₀, hbegins, hperforms⟩ | ⟨t, hbegins, rfl⟩
    · exact Act.placed_of_error (hperforms.placed (placed_of_begins hc hstore hbegins)) hstop
    · exact Task.placed_of_spent (placed_of_begins hc hstore hbegins) hstop
  · cases h

end Compiled

end Lox
