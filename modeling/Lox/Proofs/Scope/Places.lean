import Lox.Proofs.Scope.Occurrence
import Lox.Proofs.Syntax.Orderly

/-!
# Places of orderly programs

In an orderly program only the innermost scope of a place can be inside the initializer
of a variable, and the receiver never is (`usable_of_mem_occurrences`).  A statement
that is no declaration leaves the place as it is.
-/

namespace Lox

@[simp] theorem Place.scopes_bind (name : String) (left : Bool) (place : Place) :
    (place.bind name left).scopes = place.scopes := by
  cases place <;> rfl

/-- No scope of the place is inside the initializer of a variable. -/
def Place.Settled (place : Place) : Prop :=
  ∀ inner ∈ place, ∀ name, inner.names.get? name ≠ some false

/-- At most the innermost scope is inside the initializer of a variable, which is not
the receiver. -/
def Place.Usable : Place → Prop
  | [] => True
  | inner :: outer => inner.names.get? "this" ≠ some false ∧ Place.Settled outer

namespace Place.Settled

variable {place : Place}

theorem nil : Settled [] := by simp [Settled]

theorem tail {inner : OpenScope} (h : Settled (inner :: place)) : Settled place :=
  fun os hos => h os (List.mem_cons_of_mem _ hos)

theorem usable (h : place.Settled) : place.Usable := by
  cases place with
  | nil => trivial
  | cons inner outer => exact ⟨h inner (List.mem_cons_self ..) "this", h.tail⟩

/-- Declaring a variable does not touch the receiver. -/
theorem usable_bind (h : place.Settled) {name : String} (hname : IsDeclarable name) :
    (place.bind name false).Usable := by
  cases place with
  | nil => trivial
  | cons inner outer =>
    refine ⟨?_, h.tail⟩
    rw [Bindings.get?_set, if_neg hname.ne_this]
    exact h inner (List.mem_cons_self ..) "this"

/-- A variable that is left, and any other declaration, can be used. -/
theorem bind (h : place.Settled) (name : String) : (place.bind name true).Settled := by
  cases place with
  | nil => exact nil
  | cons inner outer =>
    intro os hos other
    rcases List.mem_cons.1 hos with rfl | hos
    · rw [Bindings.get?_set]
      split
      · simp
      · exact h inner (List.mem_cons_self ..) other
    · exact h.tail os hos other

theorem bind_bind (h : place.Settled) (name : String) :
    ((place.bind name false).bind name true).Settled := by
  cases place with
  | nil => exact nil
  | cons inner outer =>
    intro os hos other
    rcases List.mem_cons.1 hos with rfl | hos
    · rw [Bindings.get?_set]
      split
      · simp
      · next hne =>
        rw [Bindings.get?_set, if_neg hne]
        exact h inner (List.mem_cons_self ..) other
    · exact h.tail os hos other

theorem bindAll (h : place.Settled) (names : List String) :
    (place.bindAll names).Settled := by
  induction names generalizing place with
  | nil => exact h
  | cons name names ih => exact ih (h.bind name)

theorem enter (h : place.Settled) (scope : Scope) : (place.enter scope).Settled := by
  intro os hos name
  rcases List.mem_cons.1 hos with rfl | hos
  · simp
  · exact h os hos name

theorem inside (h : place.Settled) (decl : FunctionDecl) :
    (FunctionDecl.inside place decl).Settled :=
  (h.enter _).bindAll _

theorem insideClass (h : place.Settled) (methods : List FunctionDecl) :
    (place.insideClass methods).Settled :=
  (h.enter _).bind _

/-- Leaving a statement leaves no initializer open. -/
theorem leave : ∀ {place : Place} (s : Stmt), place.Settled → (s.leave place).Settled
  | _, .var name _ _, h => by
    rw [Stmt.leave]
    exact h.bind_bind name
  | _, .function decl _, h => by
    rw [Stmt.leave]
    exact h.bind decl.name
  | _, .class name _ _, h => by
    rw [Stmt.leave]
    exact h.bind name
  | _, .ifElse _ thenBranch none _, h => by
    rw [Stmt.leave]
    exact leave thenBranch h
  | _, .ifElse _ thenBranch (some elseBranch) _, h => by
    rw [Stmt.leave]
    exact leave elseBranch (leave thenBranch h)
  | _, .while _ body _, h => by
    rw [Stmt.leave]
    exact leave body h
  | _, .expression .., h | _, .print .., h | _, .block .., h | _, .return .., h => h

end Place.Settled

/-! ## Statements -/

theorem Stmt.leave_of_not_declaration {place : Place} :
    ∀ {s : Stmt}, s.Orderly → s.isDeclaration = false → s.leave place = place
  | .ifElse _ thenBranch none _, h, _ => by
    rw [Stmt.Orderly] at h
    rw [Stmt.leave, Stmt.leave_of_not_declaration h.1 h.2]
  | .ifElse _ thenBranch (some elseBranch) _, h, _ => by
    rw [Stmt.Orderly] at h
    rw [Stmt.leave, Stmt.leave_of_not_declaration h.1.1 h.1.2,
      Stmt.leave_of_not_declaration h.2.1 h.2.2]
  | .while _ body _, h, _ => by
    rw [Stmt.Orderly] at h
    rw [Stmt.leave, Stmt.leave_of_not_declaration h.1 h.2]
  | .expression .., _, _ | .print .., _, _ | .block .., _, _ | .return .., _, _ => rfl

mutual
/-- The parts of an expression have the place of the expression. -/
theorem place_of_mem_occurrences {place : Place} {o : Occurrence} :
    ∀ {e : Expr}, o ∈ e.occurrences place → o.place = place
  | .literal .., h | .variable .., h | .this .., h => by
    rw [Expr.occurrences, List.mem_singleton] at h
    rw [h]
  | .grouping _ inner, h => by
    rw [Expr.occurrences, List.mem_append, List.mem_singleton] at h
    rcases h with h | rfl
    · exact place_of_mem_occurrences h
    · rfl
  | .unary _ _ operand, h => by
    rw [Expr.occurrences, List.mem_append, List.mem_singleton] at h
    rcases h with h | rfl
    · exact place_of_mem_occurrences h
    · rfl
  | .binary _ _ left right _, h => by
    rw [Expr.occurrences, List.mem_append, List.mem_append, List.mem_singleton] at h
    rcases h with (h | h) | rfl
    · exact place_of_mem_occurrences h
    · exact place_of_mem_occurrences h
    · rfl
  | .logical _ _ left right, h => by
    rw [Expr.occurrences, List.mem_append, List.mem_append, List.mem_singleton] at h
    rcases h with (h | h) | rfl
    · exact place_of_mem_occurrences h
    · exact place_of_mem_occurrences h
    · rfl
  | .assign _ _ value, h => by
    rw [Expr.occurrences, List.mem_append, List.mem_singleton] at h
    rcases h with h | rfl
    · exact place_of_mem_occurrences h
    · rfl
  | .call _ callee arguments _, h => by
    rw [Expr.occurrences, List.mem_append, List.mem_append, List.mem_singleton] at h
    rcases h with (h | h) | rfl
    · exact place_of_mem_occurrences h
    · exact place_of_mem_occurrencesAll h
    · rfl
  | .new _ callee arguments _, h => by
    rw [Expr.occurrences, List.mem_append, List.mem_append, List.mem_singleton] at h
    rcases h with (h | h) | rfl
    · exact place_of_mem_occurrences h
    · exact place_of_mem_occurrencesAll h
    · rfl
  | .get _ object _ _, h => by
    rw [Expr.occurrences, List.mem_append, List.mem_singleton] at h
    rcases h with h | rfl
    · exact place_of_mem_occurrences h
    · rfl
  | .set _ object _ _ value, h => by
    rw [Expr.occurrences, List.mem_append, List.mem_append, List.mem_singleton] at h
    rcases h with (h | h) | rfl
    · exact place_of_mem_occurrences h
    · exact place_of_mem_occurrences h
    · rfl

theorem place_of_mem_occurrencesAll {place : Place} {o : Occurrence} :
    ∀ {es : List Expr}, o ∈ Expr.occurrencesAll place es → o.place = place
  | [], h => by
    rw [Expr.occurrencesAll] at h
    cases h
  | e :: es, h => by
    rw [Expr.occurrencesAll, List.mem_append] at h
    rcases h with h | h
    · exact place_of_mem_occurrences h
    · exact place_of_mem_occurrencesAll h
end

theorem place_of_mem_occurrencesOption {place : Place} {o : Occurrence} {e : Option Expr}
    (h : o ∈ Expr.occurrencesOption place e) : o.place = place := by
  cases e with
  | none => cases h
  | some e => exact place_of_mem_occurrences h

mutual
theorem Stmt.usable_of_mem_occurrences {o : Occurrence} : ∀ {place : Place} {s : Stmt},
    place.Settled → s.Orderly → o ∈ s.occurrences place → o.place.Usable
  | _, .expression .., hplace, _, h | _, .print .., hplace, _, h => by
    rw [Stmt.occurrences] at h
    rw [place_of_mem_occurrences h]
    exact hplace.usable
  | _, .var name initializer _, hplace, hs, h => by
    rw [Stmt.Orderly] at hs
    rw [Stmt.occurrences] at h
    rw [place_of_mem_occurrencesOption h]
    exact hplace.usable_bind hs
  | _, .block body _, hplace, hs, h => by
    rw [Stmt.Orderly] at hs
    rw [Stmt.occurrences] at h
    exact Stmt.usable_of_mem_occurrencesAll (hplace.enter _) hs h
  | _, .ifElse condition thenBranch none _, hplace, hs, h => by
    rw [Stmt.Orderly] at hs
    rw [Stmt.occurrences, List.mem_append] at h
    rcases h with h | h
    · rw [place_of_mem_occurrences h]
      exact hplace.usable
    · exact Stmt.usable_of_mem_occurrences hplace hs.1 h
  | _, .ifElse condition thenBranch (some elseBranch) _, hplace, hs, h => by
    rw [Stmt.Orderly] at hs
    rw [Stmt.occurrences, List.mem_append, List.mem_append] at h
    rcases h with (h | h) | h
    · rw [place_of_mem_occurrences h]
      exact hplace.usable
    · exact Stmt.usable_of_mem_occurrences hplace hs.1.1 h
    · exact Stmt.usable_of_mem_occurrences (.leave thenBranch hplace) hs.2.1 h
  | _, .while condition body _, hplace, hs, h => by
    rw [Stmt.Orderly] at hs
    rw [Stmt.occurrences, List.mem_append] at h
    rcases h with h | h
    · rw [place_of_mem_occurrences h]
      exact hplace.usable
    · exact Stmt.usable_of_mem_occurrences hplace hs.1 h
  | _, .function decl _, hplace, hs, h => by
    rw [Stmt.Orderly] at hs
    rw [Stmt.occurrences] at h
    exact FunctionDecl.usable_of_mem_occurrences (hplace.bind _) hs.2 h
  | _, .class name methods _, hplace, hs, h => by
    rw [Stmt.Orderly] at hs
    rw [Stmt.occurrences] at h
    exact FunctionDecl.usable_of_mem_occurrencesAll ((hplace.bind _).insideClass _) hs.2 h
  | _, .return .., hplace, _, h => by
    rw [Stmt.occurrences] at h
    rw [place_of_mem_occurrencesOption h]
    exact hplace.usable

theorem Stmt.usable_of_mem_occurrencesAll {o : Occurrence} :
    ∀ {place : Place} {ss : List Stmt}, place.Settled → Stmt.OrderlyAll ss →
      o ∈ Stmt.occurrencesAll place ss → o.place.Usable
  | _, [], _, _, h => by
    rw [Stmt.occurrencesAll] at h
    cases h
  | _, s :: ss, hplace, hs, h => by
    rw [Stmt.OrderlyAll] at hs
    rw [Stmt.occurrencesAll, List.mem_append] at h
    rcases h with h | h
    · exact Stmt.usable_of_mem_occurrences hplace hs.1 h
    · exact Stmt.usable_of_mem_occurrencesAll (.leave s hplace) hs.2 h

theorem FunctionDecl.usable_of_mem_occurrences {o : Occurrence} :
    ∀ {place : Place} {f : FunctionDecl}, place.Settled → f.Orderly →
      o ∈ f.occurrences place → o.place.Usable
  | _, .mk number name params body span, hplace, hf, h => by
    rw [FunctionDecl.Orderly] at hf
    rw [FunctionDecl.occurrences] at h
    exact Stmt.usable_of_mem_occurrencesAll (hplace.inside _) hf.2 h

theorem FunctionDecl.usable_of_mem_occurrencesAll {o : Occurrence} :
    ∀ {place : Place} {fs : List FunctionDecl}, place.Settled → FunctionDecl.OrderlyAll fs →
      o ∈ FunctionDecl.occurrencesAll place fs → o.place.Usable
  | _, [], _, _, h => by
    rw [FunctionDecl.occurrencesAll] at h
    cases h
  | _, f :: fs, hplace, hfs, h => by
    rw [FunctionDecl.OrderlyAll] at hfs
    rw [FunctionDecl.occurrencesAll, List.mem_append] at h
    rcases h with h | h
    · exact FunctionDecl.usable_of_mem_occurrences hplace hfs.1 h
    · exact FunctionDecl.usable_of_mem_occurrencesAll hplace hfs.2 h
end

theorem Program.usable_of_mem_occurrences {p : Program} (hp : p.Orderly) {o : Occurrence}
    (h : o ∈ p.occurrences) : o.place.Usable :=
  Stmt.usable_of_mem_occurrencesAll .nil hp h

end Lox
