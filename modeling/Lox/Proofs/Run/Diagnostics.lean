import Lox.Proofs.Run.Placed
import Lox.Proofs.Scope.Scoped
import Lox.Proofs.Syntax.LocatedStatement
import Lox.Proofs.Token.Text

/-!
# Places are exact, and errors point into the text

In a program that is read without error, the place of each expression reaches from the first of
its tokens to the last, and the places of all parts lie inside.  And for every text, readable or
not, the place of each error of the four stages is a place in the text (`places_exact`).
-/

namespace Lox

/-! ## Errors of resolving -/

/-- The place of what is visited. -/
def Site.span : Site → Span
  | .variable node _ => node.span
  | .assign node _ => node.span
  | .this node => node.span
  | .return span => span

/-- A fault is reported where the visit is. -/
theorem Visit.span_fault? {v : Visit} {e : CompileError} (h : v.fault? = some e) :
    e.span = v.site.span := by
  obtain ⟨site, context⟩ := v
  cases site with
  | assign => cases h
  | «variable» | this | «return» =>
    simp only [fault?] at h
    split at h <;> cases h
    rfl

section

variable {P : Span → Prop}

mutual
theorem Expr.Placed.visits (c : Context) : ∀ {e : Expr}, e.Placed P →
    ∀ v ∈ e.visits c, P v.site.span
  | .literal .., _ => by simp [Expr.visits]
  | .variable .., h | .this .., h => by
    simp only [Expr.visits, List.forall_mem_singleton]
    exact h
  | .grouping .., h | .unary .., h => by
    rw [Expr.visits]
    exact Expr.Placed.visits c h.2
  | .get .., h => by
    rw [Expr.visits]
    exact Expr.Placed.visits c h.2.1
  | .assign .., h => by
    simp only [Expr.visits, List.forall_mem_append, List.forall_mem_singleton]
    exact ⟨Expr.Placed.visits c h.2, h.1⟩
  | .binary .., h => by
    simp only [Expr.visits, List.forall_mem_append]
    exact ⟨Expr.Placed.visits c h.2.1, Expr.Placed.visits c h.2.2.1⟩
  | .logical .., h => by
    simp only [Expr.visits, List.forall_mem_append]
    exact ⟨Expr.Placed.visits c h.2.1, Expr.Placed.visits c h.2.2⟩
  | .call .., h | .new .., h => by
    simp only [Expr.visits, List.forall_mem_append]
    exact ⟨Expr.Placed.visits c h.2.1, Expr.Placed.visitsAll c h.2.2.1⟩
  | .set .., h => by
    simp only [Expr.visits, List.forall_mem_append]
    exact ⟨Expr.Placed.visits c h.2.2.2, Expr.Placed.visits c h.2.1⟩

theorem Expr.Placed.visitsAll (c : Context) : ∀ {es : List Expr}, Expr.PlacedAll P es →
    ∀ v ∈ Expr.visitsAll c es, P v.site.span
  | [], _ => by simp [Expr.visitsAll]
  | _ :: _, h => by
    simp only [Expr.visitsAll, List.forall_mem_append]
    exact ⟨Expr.Placed.visits c h.1, Expr.Placed.visitsAll c h.2⟩
end

theorem Expr.Placed.visitsOption (c : Context) {e : Option Expr} (h : Expr.PlacedOption P e) :
    ∀ v ∈ Expr.visitsOption c e, P v.site.span := by
  cases e with
  | none => simp [Expr.visitsOption]
  | some e => exact Expr.Placed.visits c h

mutual
theorem Stmt.Placed.visits (c : Context) : ∀ {s : Stmt}, s.Placed P →
    ∀ v ∈ s.visits c, P v.site.span
  | .expression .., h | .print .., h => Expr.Placed.visits c h.1
  | .var .., h => Expr.Placed.visitsOption _ h.1
  | .block .., h => Stmt.Placed.visitsAll _ h.1
  | .ifElse _ _ none _, h => by
    rw [Stmt.visits, List.forall_mem_append]
    exact ⟨Expr.Placed.visits c h.1, Stmt.Placed.visits c h.2.1⟩
  | .ifElse _ _ (some _) _, h => by
    simp only [Stmt.visits, List.forall_mem_append]
    exact ⟨Expr.Placed.visits c h.1, Stmt.Placed.visits c h.2.1, Stmt.Placed.visits _ h.2.2.1⟩
  | .while .., h => by
    rw [Stmt.visits, List.forall_mem_append]
    exact ⟨Expr.Placed.visits c h.1, Stmt.Placed.visits c h.2.1⟩
  | .function .., h => FunctionDecl.Placed.visits _ h.1
  | .class .., h => FunctionDecl.Placed.visitsAll _ h.1
  | .return .., h => by
    rw [Stmt.visits, List.forall_mem_cons]
    exact ⟨h.2, Expr.Placed.visitsOption c h.1⟩

theorem Stmt.Placed.visitsAll (c : Context) : ∀ {ss : List Stmt}, Stmt.PlacedAll P ss →
    ∀ v ∈ Stmt.visitsAll c ss, P v.site.span
  | [], _ => by simp [Stmt.visitsAll]
  | _ :: _, h => by
    rw [Stmt.visitsAll, List.forall_mem_append]
    exact ⟨Stmt.Placed.visits c h.1, Stmt.Placed.visitsAll _ h.2⟩

theorem FunctionDecl.Placed.visits (c : Context) : ∀ {f : FunctionDecl}, f.Placed P →
    ∀ v ∈ f.visits c, P v.site.span
  | .mk .., h => Stmt.Placed.visitsAll _ h.1

theorem FunctionDecl.Placed.visitsAll (c : Context) : ∀ {fs : List FunctionDecl},
    FunctionDecl.PlacedAll P fs → ∀ v ∈ FunctionDecl.visitsAll c fs, P v.site.span
  | [], _ => by simp [FunctionDecl.visitsAll]
  | _ :: _, h => by
    rw [FunctionDecl.visitsAll, List.forall_mem_append]
    exact ⟨FunctionDecl.Placed.visits c h.1, FunctionDecl.Placed.visitsAll c h.2⟩
end

/-- The faults of a placed program are placed. -/
theorem Program.placed_faults {p : Program} (h : Stmt.PlacedAll P p.statements) :
    ∀ e ∈ p.faults, P e.span := by
  intro e he
  obtain ⟨v, hv, hfault⟩ := List.mem_filterMap.1 he
  rw [Visit.span_fault? hfault]
  exact Stmt.Placed.visitsAll _ h v hv

end

/-! ## Compiling and running -/

section

variable {supply : Supply} {source : String}

/-- All places in what is read of a text are in the text. -/
theorem Parsed.inText {tokens : List Token} (h : scan source = .ok tokens) (supply : Supply) :
    (∀ e ∈ (Parsed.ofTokens supply tokens).errors, e.span.InText source) ∧
      Stmt.PlacedAll (Span.InText source) (Parsed.ofTokens supply tokens).program.statements := by
  have hne : tokens ≠ [] := by
    obtain ⟨ts, last, rfl, -⟩ := closed_of_scan h
    simp
  exact Parsed.placed (fun _ _ => Span.InText.through) hne (inText_of_scan h).2 supply

/-- Errors of the scan, of reading and of resolving are in the text. -/
theorem inText_of_compile_error {errors : List CompileError}
    (h : (compile supply source).result = .error errors) :
    ∀ e ∈ errors, e.span.InText source := by
  unfold compile at h
  split at h
  · next hscan =>
    cases h
    exact inText_of_scan_error hscan
  · next tokens hscan =>
    obtain ⟨hparse, hprogram⟩ := Parsed.inText hscan supply
    dsimp only at h
    unfold Parsed.compile at h
    split at h
    · split at h <;> cases h
      exact hparse
    · next hresolve =>
      cases h
      rw [List.forall_mem_append, (Program.resolve_eq_error.1 hresolve).2]
      exact ⟨hparse, Program.placed_faults hprogram⟩

/-- The error of a program that runs on a new machine is in the text. -/
theorem inText_of_failed {budget limit : Nat} {output : Output} {error : RuntimeError}
    (h : ((Session.initial limit output).step budget source).1 = .failed error) :
    error.span.InText source := by
  cases hcompile : (compile (Session.initial limit output).supply source).result with
  | error errors =>
    rw [Session.step_of_error hcompile] at h
    cases h
  | ok c =>
    rw [Session.step_of_ok hcompile] at h
    obtain ⟨tokens, hscan, hprogram, -⟩ := compile_eq_ok hcompile
    have hplaced := (Parsed.inText hscan (Session.initial limit output).supply).2
    rw [← hprogram] at hplaced
    exact Compiled.placed_of_failed hplaced (Store.From.empty.addFrame none) h

end

/-- In a text that is read without error, all tokens up to the end belong to the statements.  Each
expression was read from some of them: its place starts with the first one, on the line of that
one, and ends with the last one; only a condition that was left out is a `true` at the semicolon
after it.  The places of all parts of an expression, a statement or a function lie inside of its
own.  And whether a text is readable or not, each error that is found in it, or ends a run of it
on a new machine, stands in the text, on the line that its offset is on. -/
theorem places_exact (supply : Supply) (source : String) :
    (∀ tokens, scan source = .ok tokens → (Parsed.ofTokens supply tokens).errors = [] →
      let p := (Parsed.ofTokens supply tokens).program
      (∃ j, Extent.Statements tokens 0 j p.statements ∧ Extent.IsAt tokens j .eof) ∧
      (∀ o ∈ p.occurrences,
        ((∃ i j, Extent.Expression tokens i j o.expr ∧ o.expr.span.FromTo tokens i j) ∨
          Extent.Supplied tokens o.expr) ∧
        o.expr.span.Encloses o.expr.parts) ∧
      (∀ s, p.Has s → s.span.Encloses s.parts) ∧
      ∀ f, p.HasFunction f ∨ p.HasMethod f → f.span.Encloses f.parts) ∧
    (∀ errors, (compile supply source).result = .error errors →
      ∀ e ∈ errors, e.span.InText source) ∧
    ∀ budget limit output error,
      ((Session.initial limit output).step budget source).1 = .failed error →
        error.span.InText source := by
  refine ⟨fun tokens hscan herrors => ?_, fun errors => inText_of_compile_error,
    fun _ _ _ _ => inText_of_failed⟩
  intro p
  have hordered := (inText_of_scan hscan).1
  obtain ⟨j, hstatements, hend⟩ := Parsed.extent (closed_of_scan hscan) hordered herrors
  have hnested : Stmt.NestedAll p.statements := hstatements.nested hordered
  refine ⟨⟨j, hstatements, hend⟩, fun o ho => ?_, fun s hs => (hs.nested hnested).encloses, ?_⟩
  · rcases hstatements.occurrences _ o ho with ⟨i, j, h⟩ | h
    · exact ⟨.inl ⟨i, j, h, h.fromTo⟩, h.encloses hordered⟩
    · refine ⟨.inr h, ?_⟩
      obtain ⟨i, node, heq, -⟩ := h
      rw [heq]
      exact Extent.encloses_nil _
  · rintro f (⟨span, hs⟩ | ⟨name, methods, span, hs, hf⟩)
    · exact (hs.nested hnested).2.encloses
    · exact (FunctionDecl.nested_of_mem (hs.nested hnested).2 hf).encloses

end Lox
