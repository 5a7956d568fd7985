import Lox.Proofs.Matching.Numbers
import Lox.Proofs.Scope.Resolving

/-!
# Matching programs are resolved alike

Resolving matching programs goes in step: the same scopes are open, corresponding
expressions get the same distance, and the same errors are noted at corresponding places.

**Distances.** A distance is noted under the number of an expression.  It is found again
under the corresponding number, and under no other one, if the numbers correspond one to
one (`Matching.IsOneToOne`).
-/

namespace Lox

/-- Numbers of expressions correspond one to one. -/
def Matching.IsOneToOne (μ : Matching) : Prop :=
  ∀ i i' j j', μ.node i i' → μ.node j j' → (i' = j' ↔ i = j)

/-- Corresponding states of resolving. -/
structure Scoping.Matches (μ : Matching) (s s' : Scoping) : Prop where
  /-- The same scopes are open. -/
  scopes : s'.scopes = s.scopes
  /-- Corresponding expressions have the same distance. -/
  locals : ∀ i i', μ.node i i' → s'.locals[i']? = s.locals[i]?
  /-- The same errors are noted. -/
  errors : List.Forall₂ (CompileError.Matches μ) s.errors.toList s'.errors.toList

/-- From corresponding states, both actions lead to corresponding states. -/
def Resolve.Alike (μ : Matching) (x x' : Resolve Unit) : Prop :=
  ∀ s s' : Scoping, s.Matches μ s' → (x.run s).2.Matches μ (x'.run s').2

variable {μ : Matching}

namespace Resolve.Alike

variable {x x' y y' : Resolve Unit}

theorem pure : Alike μ (Pure.pure ()) (Pure.pure ()) := fun _ _ h => h

theorem seq (hx : Alike μ x x') (hy : Alike μ y y') : Alike μ (do x; y) (do x'; y') :=
  fun s s' h => hy _ _ (hx s s' h)

theorem bind (name : String) (left : Bool) :
    Alike μ (modify (·.bind name left)) (modify (·.bind name left)) := by
  intro s s' h
  show (s.bind name left).Matches μ (s'.bind name left)
  unfold Scoping.bind
  rw [h.scopes]
  cases s.scopes with
  | nil => exact h
  | cons scope scopes => exact { h with scopes := rfl }

theorem defineAll (names : List String) :
    Alike μ (Resolve.defineAll names) (Resolve.defineAll names) := by
  induction names with
  | nil => exact pure
  | cons name names ih => exact (bind name true).seq ih

theorem openScope : Alike μ Resolve.openScope Resolve.openScope :=
  fun _ _ h => { h with scopes := congrArg (Bindings.empty :: ·) h.scopes }

theorem closeScope : Alike μ Resolve.closeScope Resolve.closeScope :=
  fun _ _ h => { h with scopes := congrArg List.tail h.scopes }

theorem within (hx : Alike μ x x') :
    Alike μ (do Resolve.openScope; x; Resolve.closeScope)
      (do Resolve.openScope; x'; Resolve.closeScope) :=
  openScope.seq (hx.seq closeScope)

theorem note (fault : ScopeFault) {span span' : Span} (hspan : μ.span span span') :
    Alike μ (Resolve.note fault span) (Resolve.note fault span') := by
  intro s s' h
  refine { h with errors := ?_ }
  show List.Forall₂ _ (s.errors.push _).toList (s'.errors.push _).toList
  rw [Array.toList_push, Array.toList_push]
  exact List.rel_append h.errors (.cons (.resolve hspan) .nil)

/-- A distance is noted for corresponding expressions. -/
theorem occurrence (hμ : μ.IsOneToOne) {id id' : Nat} (hid : μ.node id id') (name : String) :
    Alike μ (Resolve.occurrence id name) (Resolve.occurrence id' name) := by
  intro s s' h
  cases hd : scopeDistance? name s.scopes with
  | none =>
    rw [run_occurrence_of_none hd, run_occurrence_of_none (h.scopes ▸ hd)]
    exact h
  | some distance =>
    rw [run_occurrence_of_some hd, run_occurrence_of_some (h.scopes ▸ hd)]
    refine { h with locals := fun i i' hi => ?_ }
    show (s'.locals.insert id' distance)[i']? = (s.locals.insert id distance)[i]?
    rw [Std.TreeMap.getElem?_insert, Std.TreeMap.getElem?_insert, h.locals i i' hi]
    simp only [Nat.compare_eq_eq, hμ _ _ _ _ hid hi]

/-- The reading of a variable. -/
theorem reading (hμ : μ.IsOneToOne) {node node' : Node} (hnode : Node.Matches μ node node')
    (name : String) :
    Alike μ (do Resolve.checkInitializer name node.span; Resolve.occurrence node.id name)
      (do Resolve.checkInitializer name node'.span; Resolve.occurrence node'.id name) := by
  refine seq ?_ (occurrence hμ hnode.id name)
  intro s s' h
  have hrun (span : Span) (s : Scoping) : (Resolve.checkInitializer name span).run s =
      (if s.inInitializer name then Resolve.note (.ownInitializer name) span
        else Pure.pure ()).run s := rfl
  have hinit : s'.inInitializer name = s.inInitializer name := by
    rw [Scoping.inInitializer, Scoping.inInitializer, h.scopes]
  rw [hrun, hrun, hinit]
  split
  · exact note _ hnode.span s s' h
  · exact h

end Resolve.Alike

open Resolve

/-! ## Expressions and statements -/

mutual
theorem Expr.Matches.resolve (hμ : μ.IsOneToOne) (around : Enclosing)
    {e e' : Expr} :
    Expr.Matches μ e e' → Alike μ (e.resolve around) (e'.resolve around)
  | .literal _ => by
    rw [Expr.resolve, Expr.resolve]
    exact .pure
  | .grouping _ hinner => by
    rw [Expr.resolve, Expr.resolve]
    exact hinner.resolve hμ around
  | .unary _ hoperand => by
    rw [Expr.resolve, Expr.resolve]
    exact hoperand.resolve hμ around
  | .binary _ hleft hright _ => by
    rw [Expr.resolve, Expr.resolve]
    exact (hleft.resolve hμ around).seq (hright.resolve hμ around)
  | .logical _ hleft hright => by
    rw [Expr.resolve, Expr.resolve]
    exact (hleft.resolve hμ around).seq (hright.resolve hμ around)
  | .variable hnode => by
    rw [Expr.resolve, Expr.resolve]
    exact .reading hμ hnode _
  | .assign hnode hvalue => by
    rw [Expr.resolve, Expr.resolve]
    exact (hvalue.resolve hμ around).seq (.occurrence hμ hnode.id _)
  | .call _ hcallee harguments _ => by
    rw [Expr.resolve, Expr.resolve]
    exact (hcallee.resolve hμ around).seq (harguments.resolve hμ around)
  | .new _ hcallee harguments _ => by
    rw [Expr.resolve, Expr.resolve]
    exact (hcallee.resolve hμ around).seq (harguments.resolve hμ around)
  | .get _ hobject _ => by
    rw [Expr.resolve, Expr.resolve]
    exact hobject.resolve hμ around
  | .set _ hobject _ hvalue => by
    rw [Expr.resolve, Expr.resolve]
    exact (hvalue.resolve hμ around).seq (hobject.resolve hμ around)
  | .this hnode => by
    rw [Expr.resolve, Expr.resolve]
    split
    · exact .occurrence hμ hnode.id _
    · exact .note _ hnode.span

theorem Expr.MatchesAll.resolve (hμ : μ.IsOneToOne) (around : Enclosing)
    {es es' : List Expr} :
    Expr.MatchesAll μ es es' → Alike μ (Expr.resolveAll around es) (Expr.resolveAll around es')
  | .nil => by
    rw [Expr.resolveAll]
    exact .pure
  | .cons hfirst hothers => by
    rw [Expr.resolveAll, Expr.resolveAll]
    exact (hfirst.resolve hμ around).seq (hothers.resolve hμ around)
end

theorem Expr.MatchesOption.resolve (hμ : μ.IsOneToOne) (around : Enclosing) {e e' : Option Expr}
    (h : Expr.MatchesOption μ e e') :
    Alike μ (Expr.resolveOption around e) (Expr.resolveOption around e') := by
  cases h with
  | none => exact .pure
  | some h => exact h.resolve hμ around

mutual
theorem Stmt.Matches.resolve (hμ : μ.IsOneToOne) (around : Enclosing)
    {s s' : Stmt} :
    Stmt.Matches μ s s' → Alike μ (s.resolve around) (s'.resolve around)
  | .expression hvalue _ => by
    rw [Stmt.resolve, Stmt.resolve]
    exact hvalue.resolve hμ around
  | .print hvalue _ => by
    rw [Stmt.resolve, Stmt.resolve]
    exact hvalue.resolve hμ around
  | .var hinitializer _ => by
    rw [Stmt.resolve, Stmt.resolve]
    exact (Alike.bind _ false).seq ((hinitializer.resolve hμ around).seq (.bind _ true))
  | .block hbody _ => by
    rw [Stmt.resolve, Stmt.resolve]
    exact (hbody.resolve hμ around).within
  | .ifThen hcondition hthen _ => by
    rw [Stmt.resolve, Stmt.resolve]
    exact (hcondition.resolve hμ around).seq (hthen.resolve hμ around)
  | .ifElse hcondition hthen helse _ => by
    rw [Stmt.resolve, Stmt.resolve]
    exact (hcondition.resolve hμ around).seq
      ((hthen.resolve hμ around).seq (helse.resolve hμ around))
  | .while hcondition hbody _ => by
    rw [Stmt.resolve, Stmt.resolve]
    exact (hcondition.resolve hμ around).seq (hbody.resolve hμ around)
  | .function hdecl _ => by
    rw [Stmt.resolve, Stmt.resolve, hdecl.name_eq]
    exact (Alike.bind _ true).seq (hdecl.resolve hμ around)
  | .class hmethods _ => by
    rw [Stmt.resolve, Stmt.resolve]
    exact (Alike.bind _ true).seq ((Alike.bind "this" true).seq (hmethods.resolve hμ _)).within
  | .return hvalue hspan => by
    rw [Stmt.resolve, Stmt.resolve]
    cases around.inFunction with
    | false => exact (Alike.note _ hspan).seq (hvalue.resolve hμ around)
    | true => exact hvalue.resolve hμ around

theorem Stmt.MatchesAll.resolve (hμ : μ.IsOneToOne) (around : Enclosing)
    {ss ss' : List Stmt} :
    Stmt.MatchesAll μ ss ss' → Alike μ (Stmt.resolveAll around ss) (Stmt.resolveAll around ss')
  | .nil => by
    rw [Stmt.resolveAll]
    exact .pure
  | .cons hfirst hothers => by
    rw [Stmt.resolveAll, Stmt.resolveAll]
    exact (hfirst.resolve hμ around).seq (hothers.resolve hμ around)

theorem FunctionDecl.Matches.resolve (hμ : μ.IsOneToOne) (around : Enclosing)
    {f f' : FunctionDecl} :
    FunctionDecl.Matches μ f f' → Alike μ (f.resolve around) (f'.resolve around)
  | .mk _ hbody _ => by
    rw [FunctionDecl.resolve, FunctionDecl.resolve]
    exact ((Alike.defineAll _).seq (hbody.resolve hμ _)).within

theorem FunctionDecl.MatchesAll.resolve (hμ : μ.IsOneToOne) (around : Enclosing)
    {fs fs' : List FunctionDecl} :
    FunctionDecl.MatchesAll μ fs fs' →
      Alike μ (FunctionDecl.resolveAll around fs) (FunctionDecl.resolveAll around fs')
  | .nil => by
    rw [FunctionDecl.resolveAll]
    exact .pure
  | .cons hfirst hothers => by
    rw [FunctionDecl.resolveAll, FunctionDecl.resolveAll]
    exact (hfirst.resolve hμ around).seq (hothers.resolve hμ around)
end

/-! ## Programs -/

/-- Resolving matching programs gives distances that agree, or the same errors. -/
inductive Resolved (μ : Matching) :
    Except (List CompileError) Locals → Except (List CompileError) Locals → Prop
  | ok {locals locals'} : (∀ i i', μ.node i i' → locals'[i']? = locals[i]?) →
      Resolved μ (.ok locals) (.ok locals')
  | error {errors errors'} : List.Forall₂ (CompileError.Matches μ) errors errors' →
      Resolved μ (.error errors) (.error errors')

theorem Program.resolved (hμ : μ.IsOneToOne) {p p' : Program}
    (h : Stmt.MatchesAll μ p.statements p'.statements) : Resolved μ p.resolve p'.resolve := by
  have hinitial : Scoping.initial.Matches μ Scoping.initial := by
    refine ⟨rfl, fun i i' _ => ?_, .nil⟩
    show (∅ : Locals)[i']? = (∅ : Locals)[i]?
    rw [Std.TreeMap.getElem?_emptyc, Std.TreeMap.getElem?_emptyc]
  have hend := h.resolve hμ .program _ _ hinitial
  unfold Program.resolve
  generalize ((Stmt.resolveAll .program p.statements).run .initial).2 = s at hend ⊢
  generalize ((Stmt.resolveAll .program p'.statements).run .initial).2 = s' at hend ⊢
  have hempty : s'.errors.isEmpty = s.errors.isEmpty := by
    have hlength := hend.errors.length_eq
    rw [Array.length_toList, Array.length_toList] at hlength
    rw [Array.isEmpty, Array.isEmpty, hlength]
  dsimp only
  rw [hempty]
  split
  · exact .ok hend.locals
  · exact .error hend.errors

/-! ## Programs behind one another -/

theorem Program.run_of_resolve {ss : List Stmt} {locals : Locals}
    (h : (⟨ss⟩ : Program).resolve = .ok locals) :
    let s := ((Stmt.resolveAll .program ss).run .initial).2
    s.scopes = [] ∧ s.errors.toList = [] ∧ s.locals = locals := by
  have hscopes := (Stmt.resolvesAll .program [] ss .initial rfl).1
  rw [Stmt.leaveAll_nil] at hscopes
  rw [Program.resolve] at h
  split at h
  · next hempty =>
    cases h
    exact ⟨hscopes, by simpa using hempty, rfl⟩
  · cases h

theorem Stmt.run_resolveAll_append (around : Enclosing) (ss ss' : List Stmt) (s : Scoping) :
    ((Stmt.resolveAll around (ss ++ ss')).run s).2 =
      ((Stmt.resolveAll around ss').run ((Stmt.resolveAll around ss).run s).2).2 := by
  induction ss generalizing s with
  | nil => rfl
  | cons first ss ih => exact ih _

/-- Numbers without distance correspond to themselves, and other ones to none. -/
def Matching.outside (locals : Locals) : Matching :=
  ⟨fun i i' => i = i' ∧ locals[i]? = none, Eq, Eq⟩

theorem Matching.isOneToOne_outside (locals : Locals) : (Matching.outside locals).IsOneToOne := by
  rintro i i' j j' ⟨rfl, -⟩ ⟨rfl, -⟩
  exact Iff.rfl

/-- Statements match themselves if their expressions have no distance. -/
theorem Stmt.matchesAll_outside {ss : List Stmt} {locals : Locals}
    (h : ∀ i ∈ Stmt.idsAll ss, locals[i]? = none) : Stmt.MatchesAll (.outside locals) ss ss :=
  Stmt.matchesAll_self (fun _ => rfl) ss (fun i hi => ⟨rfl, h i hi⟩) fun _ _ => rfl

/-- Behind another program, a program is resolved as if it stood alone: the distances of both
are put together. -/
theorem Program.resolve_append {ss ss' : List Stmt} {locals locals' : Locals}
    (h : (⟨ss⟩ : Program).resolve = .ok locals) (h' : (⟨ss'⟩ : Program).resolve = .ok locals')
    (hnew : ∀ i ∈ Stmt.idsAll ss', locals[i]? = none) :
    ∃ both : Locals, (⟨ss ++ ss'⟩ : Program).resolve = .ok both ∧
      ∀ i : Nat, both[i]? = locals'[i]?.or locals[i]? := by
  obtain ⟨hscopes, herrors, rfl⟩ := Program.run_of_resolve h
  obtain ⟨-, herrors', rfl⟩ := Program.run_of_resolve h'
  have hrun := Stmt.run_resolveAll_append .program ss ss' .initial
  generalize ((Stmt.resolveAll .program ss).run .initial).2 = s at *
  -- the second program is resolved in step with itself, alone and behind the first one
  have hstart : Scoping.initial.Matches (.outside s.locals) s := by
    refine ⟨hscopes, ?_, ?_⟩
    · rintro i i' ⟨rfl, hnone⟩
      rw [hnone]
      exact Std.TreeMap.getElem?_emptyc.symm
    · rw [herrors]
      exact .nil
  have hend := (Stmt.matchesAll_outside hnew).resolve (Matching.isOneToOne_outside _) .program
    _ _ hstart
  obtain ⟨-, -, halone⟩ := Stmt.resolvesAll .program [] ss' .initial rfl
  obtain ⟨-, -, hbehind⟩ := Stmt.resolvesAll .program [] ss' s hscopes
  generalize ((Stmt.resolveAll .program ss').run .initial).2 = alone at *
  generalize ((Stmt.resolveAll .program ss').run s).2 = behind at *
  have hnone : behind.errors.toList = [] := by
    have hlength := hend.errors.length_eq
    rw [herrors'] at hlength
    exact List.eq_nil_of_length_eq_zero hlength.symm
  have size_eq_zero {s : Scoping} (hs : s.errors.toList = []) : s.errors.size = 0 := by
    rw [← Array.length_toList, hs, List.length_nil]
  refine ⟨behind.locals, ?_, fun i => ?_⟩
  · rw [Program.resolve, hrun, if_pos (by simpa using hnone)]
  · have hother (hi : i ∉ Stmt.idsAll ss') :
        behind.locals[i]? = s.locals[i]? ∧ alone.locals[i]? = none := by
      rw [← Stmt.map_id_occurrencesAll [] ss'] at hi
      have hlocals := (hbehind (by rw [size_eq_zero hnone, size_eq_zero herrors])).1
      have hlocals' := (halone (by rw [size_eq_zero herrors']; rfl)).1
      rw [hlocals, hlocals', getElem?_foldl_addTo_of_not_mem hi,
        getElem?_foldl_addTo_of_not_mem hi]
      exact ⟨rfl, Std.TreeMap.getElem?_emptyc⟩
    by_cases hi : i ∈ Stmt.idsAll ss'
    · rw [hend.locals i i ⟨rfl, hnew i hi⟩, hnew i hi, Option.or_none]
    · rw [(hother hi).1, (hother hi).2, Option.none_or]

end Lox
