import Lox.Proofs.Renaming.Trees

/-!
# Every scope can be renamed

A variable can be renamed in any scope that declares it, as long as the new name does not
occur in the scope, and no function or class of the scope has the old one.
-/

namespace Lox

variable {r : Renaming}

/-- The statement declares a function or a class of this name. -/
def Stmt.DeclaresOther (name : String) : Stmt → Prop
  | .function decl _ => decl.name = name
  | .class cls _ _ => cls = name
  | _ => False

theorem Stmt.not_declaresOther {name : String} {s : Stmt} (h : s.isDeclaration = false) :
    ¬ s.DeclaresOther name := by
  cases s with
  | function | «class» => cases h
  | _ => exact id

mutual
theorem Expr.Renamed.exists_at {k₀ : Depth} (k : Depth) {e e₀ : Expr} :
    Expr.Renamed r k₀ e e₀ → ∃ e', Expr.Renamed r k e e'
  | .literal => ⟨_, .literal⟩
  | .grouping hinner => by
    obtain ⟨inner', hinner'⟩ := hinner.exists_at k
    exact ⟨_, .grouping hinner'⟩
  | .unary hoperand => by
    obtain ⟨operand', hoperand'⟩ := hoperand.exists_at k
    exact ⟨_, .unary hoperand'⟩
  | .binary hleft hright => by
    obtain ⟨left', hleft'⟩ := hleft.exists_at k
    obtain ⟨right', hright'⟩ := hright.exists_at k
    exact ⟨_, .binary hleft' hright'⟩
  | .logical hleft hright => by
    obtain ⟨left', hleft'⟩ := hleft.exists_at k
    obtain ⟨right', hright'⟩ := hright.exists_at k
    exact ⟨_, .logical hleft' hright'⟩
  | .variable hname => ⟨_, .variable hname⟩
  | .assign hname hvalue => by
    obtain ⟨value', hvalue'⟩ := hvalue.exists_at k
    exact ⟨_, .assign hname hvalue'⟩
  | .call hcallee harguments => by
    obtain ⟨callee', hcallee'⟩ := hcallee.exists_at k
    obtain ⟨arguments', harguments'⟩ := harguments.exists_at k
    exact ⟨_, .call hcallee' harguments'⟩
  | .new hcallee harguments => by
    obtain ⟨callee', hcallee'⟩ := hcallee.exists_at k
    obtain ⟨arguments', harguments'⟩ := harguments.exists_at k
    exact ⟨_, .new hcallee' harguments'⟩
  | .get hobject => by
    obtain ⟨object', hobject'⟩ := hobject.exists_at k
    exact ⟨_, .get hobject'⟩
  | .set hobject hvalue => by
    obtain ⟨object', hobject'⟩ := hobject.exists_at k
    obtain ⟨value', hvalue'⟩ := hvalue.exists_at k
    exact ⟨_, .set hobject' hvalue'⟩
  | .this => ⟨_, .this⟩

theorem Expr.RenamedAll.exists_at {k₀ : Depth} (k : Depth) {es es₀ : List Expr} :
    Expr.RenamedAll r k₀ es es₀ → ∃ es', Expr.RenamedAll r k es es'
  | .nil => ⟨_, .nil⟩
  | .cons hfirst hothers => by
    obtain ⟨first', hfirst'⟩ := hfirst.exists_at k
    obtain ⟨others', hothers'⟩ := hothers.exists_at k
    exact ⟨_, .cons hfirst' hothers'⟩
end

theorem Expr.RenamedOption.exists_at {k₀ : Depth} (k : Depth) {e e₀ : Option Expr}
    (h : Expr.RenamedOption r k₀ e e₀) : ∃ e', Expr.RenamedOption r k e e' := by
  cases h with
  | none => exact ⟨_, .none⟩
  | some h =>
    obtain ⟨e', he'⟩ := h.exists_at k
    exact ⟨_, .some he'⟩

mutual
theorem Stmt.Renamed.exists_at {k₀ : Depth} {s s₀ : Stmt} :
    Stmt.Renamed r k₀ s s₀ → s.Orderly → ∀ k : Depth,
      (k = some 0 → ¬ s.DeclaresOther r.old) → ∃ s', Stmt.Renamed r k s s'
  | .expression hvalue, _, k, _ => by
    obtain ⟨value', hvalue'⟩ := hvalue.exists_at k
    exact ⟨_, .expression hvalue'⟩
  | .print hvalue, _, k, _ => by
    obtain ⟨value', hvalue'⟩ := hvalue.exists_at k
    exact ⟨_, .print hvalue'⟩
  | .var hname hinitializer, _, k, _ => by
    obtain ⟨initializer', hinitializer'⟩ := hinitializer.exists_at k
    exact ⟨_, .var hname hinitializer'⟩
  | .block _ hbody, hs, k, _ => by
    rw [Stmt.Orderly] at hs
    obtain ⟨body', hbody'⟩ := hbody.exists_at hs k.inward (by simp)
    exact ⟨_, .block (.inl rfl) hbody'⟩
  | .ifThen hcondition hthen, hs, k, _ => by
    rw [Stmt.Orderly] at hs
    obtain ⟨condition', hcondition'⟩ := hcondition.exists_at k
    obtain ⟨then', hthen'⟩ := hthen.exists_at hs.1 k fun _ => Stmt.not_declaresOther hs.2
    exact ⟨_, .ifThen hcondition' hthen'⟩
  | .ifElse hcondition hthen helse, hs, k, _ => by
    rw [Stmt.Orderly] at hs
    obtain ⟨condition', hcondition'⟩ := hcondition.exists_at k
    obtain ⟨then', hthen'⟩ := hthen.exists_at hs.1.1 k fun _ => Stmt.not_declaresOther hs.1.2
    obtain ⟨else', helse'⟩ := helse.exists_at hs.2.1 k fun _ => Stmt.not_declaresOther hs.2.2
    exact ⟨_, .ifElse hcondition' hthen' helse'⟩
  | .while hcondition hbody, hs, k, _ => by
    rw [Stmt.Orderly] at hs
    obtain ⟨condition', hcondition'⟩ := hcondition.exists_at k
    obtain ⟨body', hbody'⟩ := hbody.exists_at hs.1 k fun _ => Stmt.not_declaresOther hs.2
    exact ⟨_, .while hcondition' hbody'⟩
  | .function hname _ hdecl, hs, k, hother => by
    rw [Stmt.Orderly] at hs
    obtain ⟨decl', hdecl'⟩ := hdecl.exists_at hs.2 k
    exact ⟨_, .function hname hother hdecl'⟩
  | .class hname _ hmethods, hs, k, hother => by
    rw [Stmt.Orderly] at hs
    obtain ⟨methods', hmethods'⟩ := hmethods.exists_at hs.2 k.inward
    exact ⟨_, .class hname hother hmethods'⟩
  | .return hvalue, _, k, _ => by
    obtain ⟨value', hvalue'⟩ := hvalue.exists_at k
    exact ⟨_, .return hvalue'⟩

/-- The statements of a scope can be renamed if the new name does not occur in them, and
the old one is declared for variables only. -/
theorem Stmt.RenamedAll.exists_at {k₀ : Depth} {ss ss₀ : List Stmt} :
    Stmt.RenamedAll r k₀ ss ss₀ → Stmt.OrderlyAll ss → ∀ k : Depth,
      (k = some 0 → ∀ s ∈ ss, ¬ s.DeclaresOther r.old) → ∃ ss', Stmt.RenamedAll r k ss ss'
  | .nil, _, _, _ => ⟨_, .nil⟩
  | .cons hfirst hothers, hss, k, hother => by
    rw [Stmt.OrderlyAll] at hss
    obtain ⟨first', hfirst'⟩ :=
      hfirst.exists_at hss.1 k fun hk => hother hk _ (List.mem_cons_self ..)
    obtain ⟨others', hothers'⟩ :=
      hothers.exists_at hss.2 k fun hk s hs => hother hk s (List.mem_cons_of_mem _ hs)
    exact ⟨_, .cons hfirst' hothers'⟩

theorem FunctionDecl.Renamed.exists_at {k₀ : Depth} {f f₀ : FunctionDecl} :
    FunctionDecl.Renamed r k₀ f f₀ → f.Orderly → ∀ k : Depth, ∃ f', FunctionDecl.Renamed r k f f'
  | .mk _ hparams hbody, hf, k => by
    rw [FunctionDecl.Orderly] at hf
    obtain ⟨body', hbody'⟩ := hbody.exists_at hf.2 k.inward (by simp)
    exact ⟨_, .mk (.inl rfl) hparams hbody'⟩

theorem FunctionDecl.RenamedAll.exists_at {k₀ : Depth} {fs fs₀ : List FunctionDecl} :
    FunctionDecl.RenamedAll r k₀ fs fs₀ → FunctionDecl.OrderlyAll fs → ∀ k : Depth,
      ∃ fs', FunctionDecl.RenamedAll r k fs fs'
  | .nil, _, _ => ⟨_, .nil⟩
  | .cons hfirst hothers, hfs, k => by
    rw [FunctionDecl.OrderlyAll] at hfs
    obtain ⟨first', hfirst'⟩ := hfirst.exists_at hfs.1 k
    obtain ⟨others', hothers'⟩ := hothers.exists_at hfs.2 k
    exact ⟨_, .cons hfirst' hothers'⟩
end

/-- A block can be renamed whose variable is declared as such only. -/
theorem Stmt.exists_renamed_block {body body₀ : List Stmt} (span : Span)
    (hnew : Stmt.RenamedAll r none body body₀) (hbody : Stmt.OrderlyAll body)
    (hdeclares : Stmt.DeclaresVar r.old body) (hother : ∀ s ∈ body, ¬ s.DeclaresOther r.old) :
    ∃ body', Stmt.RenamedAll r (some 0) body body' ∧
      Stmt.Renamed r none (.block body span) (.block body' span) := by
  obtain ⟨body', hbody'⟩ := hnew.exists_at hbody (some 0) fun _ => hother
  exact ⟨body', hbody', .block (.inr ⟨rfl, rfl, hdeclares⟩) hbody'⟩

/-- So can the scope of a function. -/
theorem FunctionDecl.exists_renamed {number : Nat} {name : String} {params : List String}
    {body body₀ : List Stmt} (span : Span) (hparams : ∀ param ∈ params, param ≠ r.new)
    (hnew : Stmt.RenamedAll r none body body₀) (hbody : Stmt.OrderlyAll body)
    (hdeclares : r.old ∈ params ∨ Stmt.DeclaresVar r.old body)
    (hother : ∀ s ∈ body, ¬ s.DeclaresOther r.old) :
    ∃ body', Stmt.RenamedAll r (some 0) body body' ∧
      FunctionDecl.Renamed r none (.mk number name params body span)
        (.mk number name (params.map (r.declared (some 0))) body' span) := by
  obtain ⟨body', hbody'⟩ := hnew.exists_at hbody (some 0) fun _ => hother
  exact ⟨body', hbody', .mk (.inr ⟨rfl, rfl, hdeclares⟩) hparams hbody'⟩

end Lox
