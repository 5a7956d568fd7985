import Lox.Proofs.Matching.Trees
import Lox.Proofs.Syntax.Grammar
import Lox.Proofs.Syntax.Numbering

/-!
# Matching and bare trees

Matching trees are the same without numbers and places.  The other way round, trees that are
the same without numbers and places match if their numbers, taken in order, correspond one
by one and if all places do (`Stmt.matchesAll_of_bare`).
-/

namespace Lox

variable {μ : Matching}

/-! ## Matching trees have the same bare tree -/

mutual
/-- Matching trees are the same without numbers and places. -/
theorem Expr.Matches.bare_eq {e e' : Expr} : Expr.Matches μ e e' → e'.bare = e.bare
  | .literal _ => rfl
  | .grouping _ hinner => by rw [Expr.bare, Expr.bare, hinner.bare_eq]
  | .unary _ hoperand => by rw [Expr.bare, Expr.bare, hoperand.bare_eq]
  | .binary _ hleft hright _ => by rw [Expr.bare, Expr.bare, hleft.bare_eq, hright.bare_eq]
  | .logical _ hleft hright => by rw [Expr.bare, Expr.bare, hleft.bare_eq, hright.bare_eq]
  | .variable _ => rfl
  | .assign _ hvalue => by rw [Expr.bare, Expr.bare, hvalue.bare_eq]
  | .call _ hcallee harguments _ => by
    rw [Expr.bare, Expr.bare, hcallee.bare_eq, harguments.bareAll_eq]
  | .new _ hcallee harguments _ => by
    rw [Expr.bare, Expr.bare, hcallee.bare_eq, harguments.bareAll_eq]
  | .get _ hobject _ => by rw [Expr.bare, Expr.bare, hobject.bare_eq]
  | .set _ hobject _ hvalue => by rw [Expr.bare, Expr.bare, hobject.bare_eq, hvalue.bare_eq]
  | .this _ => rfl

theorem Expr.MatchesAll.bareAll_eq {es es' : List Expr} :
    Expr.MatchesAll μ es es' → Expr.bareAll es' = Expr.bareAll es
  | .nil => rfl
  | .cons hfirst hothers => by
    rw [Expr.bareAll, Expr.bareAll, hfirst.bare_eq, hothers.bareAll_eq]
end

theorem Expr.MatchesOption.bare_eq {e e' : Option Expr} (h : Expr.MatchesOption μ e e') :
    e'.map Expr.bare = e.map Expr.bare := by
  cases h with
  | none => rfl
  | some h => rw [Option.map_some, Option.map_some, h.bare_eq]

mutual
/-- Matching statements are the same without numbers and places. -/
theorem Stmt.Matches.bare_eq {s s' : Stmt} : Stmt.Matches μ s s' → s'.bare = s.bare
  | .expression hvalue _ => by rw [Stmt.bare, Stmt.bare, hvalue.bare_eq]
  | .print hvalue _ => by rw [Stmt.bare, Stmt.bare, hvalue.bare_eq]
  | .var hinitializer _ => by rw [Stmt.bare, Stmt.bare, hinitializer.bare_eq]
  | .block hbody _ => by rw [Stmt.bare, Stmt.bare, hbody.bareAll_eq]
  | .ifThen hcondition hthen _ => by
    rw [Stmt.bare, Stmt.bare, hcondition.bare_eq, hthen.bare_eq]
  | .ifElse hcondition hthen helse _ => by
    rw [Stmt.bare, Stmt.bare, hcondition.bare_eq, hthen.bare_eq, helse.bare_eq]
  | .while hcondition hbody _ => by
    rw [Stmt.bare, Stmt.bare, hcondition.bare_eq, hbody.bare_eq]
  | .function hdecl _ => by rw [Stmt.bare, Stmt.bare, hdecl.bare_eq]
  | .class hmethods _ => by rw [Stmt.bare, Stmt.bare, hmethods.bareAll_eq]
  | .return hvalue _ => by rw [Stmt.bare, Stmt.bare, hvalue.bare_eq]

theorem Stmt.MatchesAll.bareAll_eq {ss ss' : List Stmt} :
    Stmt.MatchesAll μ ss ss' → Stmt.bareAll ss' = Stmt.bareAll ss
  | .nil => rfl
  | .cons hfirst hothers => by
    rw [Stmt.bareAll, Stmt.bareAll, hfirst.bare_eq, hothers.bareAll_eq]

theorem FunctionDecl.Matches.bare_eq {f f' : FunctionDecl} :
    FunctionDecl.Matches μ f f' → f'.bare = f.bare
  | .mk _ hbody _ => by rw [FunctionDecl.bare, FunctionDecl.bare, hbody.bareAll_eq]

theorem FunctionDecl.MatchesAll.bareAll_eq {fs fs' : List FunctionDecl} :
    FunctionDecl.MatchesAll μ fs fs' → FunctionDecl.bareAll fs' = FunctionDecl.bareAll fs
  | .nil => rfl
  | .cons hfirst hothers => by
    rw [FunctionDecl.bareAll, FunctionDecl.bareAll, hfirst.bare_eq, hothers.bareAll_eq]
end

/-! ## Trees with the same bare tree match -/

mutual
/-- The bare tree has as many numbers. -/
theorem Expr.length_ids_bare : ∀ e : Expr, e.bare.ids.length = e.ids.length
  | .literal .. => rfl
  | .grouping _ inner => by simp [Expr.bare, Expr.ids, inner.length_ids_bare]
  | .unary _ _ operand => by simp [Expr.bare, Expr.ids, operand.length_ids_bare]
  | .binary _ _ left right _ => by
    simp [Expr.bare, Expr.ids, left.length_ids_bare, right.length_ids_bare]
  | .logical _ _ left right => by
    simp [Expr.bare, Expr.ids, left.length_ids_bare, right.length_ids_bare]
  | .variable .. => rfl
  | .assign _ _ value => by simp [Expr.bare, Expr.ids, value.length_ids_bare]
  | .call _ callee arguments _ => by
    simp [Expr.bare, Expr.ids, callee.length_ids_bare, Expr.length_idsAll_bare arguments]
  | .new _ callee arguments _ => by
    simp [Expr.bare, Expr.ids, callee.length_ids_bare, Expr.length_idsAll_bare arguments]
  | .get _ object _ _ => by simp [Expr.bare, Expr.ids, object.length_ids_bare]
  | .set _ object _ _ value => by
    simp [Expr.bare, Expr.ids, object.length_ids_bare, value.length_ids_bare]
  | .this _ => rfl

theorem Expr.length_idsAll_bare :
    ∀ es : List Expr, (Expr.idsAll (Expr.bareAll es)).length = (Expr.idsAll es).length
  | [] => rfl
  | e :: es => by
    simp [Expr.bareAll, Expr.idsAll, e.length_ids_bare, Expr.length_idsAll_bare es]
end

theorem Expr.length_idsOption_bare (e : Option Expr) :
    (Expr.idsOption (e.map Expr.bare)).length = (Expr.idsOption e).length := by
  cases e with
  | none => rfl
  | some e => exact e.length_ids_bare

mutual
/-- The bare statement has as many numbers. -/
theorem Stmt.length_numbers_bare :
    ∀ s : Stmt, s.bare.ids.length = s.ids.length ∧
      s.bare.functionIds.length = s.functionIds.length
  | .expression value _ => ⟨value.length_ids_bare, rfl⟩
  | .print value _ => ⟨value.length_ids_bare, rfl⟩
  | .var _ initializer _ => ⟨Expr.length_idsOption_bare initializer, rfl⟩
  | .block body _ => Stmt.length_numbersAll_bare body
  | .ifElse condition thenBranch none _ => by
    simp [Stmt.bare, Stmt.ids, Stmt.functionIds, condition.length_ids_bare,
      thenBranch.length_numbers_bare]
  | .ifElse condition thenBranch (some elseBranch) _ => by
    simp [Stmt.bare, Stmt.ids, Stmt.functionIds, condition.length_ids_bare,
      thenBranch.length_numbers_bare, elseBranch.length_numbers_bare]
  | .while condition body _ => by
    simp [Stmt.bare, Stmt.ids, Stmt.functionIds, condition.length_ids_bare,
      body.length_numbers_bare]
  | .function decl _ => decl.length_numbers_bare
  | .class _ methods _ => FunctionDecl.length_numbersAll_bare methods
  | .return value _ => ⟨Expr.length_idsOption_bare value, rfl⟩

theorem Stmt.length_numbersAll_bare :
    ∀ ss : List Stmt, (Stmt.idsAll (Stmt.bareAll ss)).length = (Stmt.idsAll ss).length ∧
      (Stmt.functionIdsAll (Stmt.bareAll ss)).length = (Stmt.functionIdsAll ss).length
  | [] => ⟨rfl, rfl⟩
  | s :: ss => by
    simp [Stmt.bareAll, Stmt.idsAll, Stmt.functionIdsAll, s.length_numbers_bare,
      Stmt.length_numbersAll_bare ss]

theorem FunctionDecl.length_numbers_bare :
    ∀ f : FunctionDecl, f.bare.ids.length = f.ids.length ∧
      f.bare.functionIds.length = f.functionIds.length
  | .mk _ _ _ body _ => by
    simp [FunctionDecl.bare, FunctionDecl.ids, FunctionDecl.functionIds,
      Stmt.length_numbersAll_bare body]

theorem FunctionDecl.length_numbersAll_bare :
    ∀ fs : List FunctionDecl,
      (FunctionDecl.idsAll (FunctionDecl.bareAll fs)).length = (FunctionDecl.idsAll fs).length ∧
      (FunctionDecl.functionIdsAll (FunctionDecl.bareAll fs)).length =
        (FunctionDecl.functionIdsAll fs).length
  | [] => ⟨rfl, rfl⟩
  | f :: fs => by
    simp [FunctionDecl.bareAll, FunctionDecl.idsAll, FunctionDecl.functionIdsAll,
      f.length_numbers_bare, FunctionDecl.length_numbersAll_bare fs]
end

/-- Lists of numbers correspond part by part. -/
theorem forall₂_append {R : Nat → Nat → Prop} {is is' js js' : List Nat}
    (hlength : is.length = is'.length) (h : List.Forall₂ R (is ++ js) (is' ++ js')) :
    List.Forall₂ R is is' ∧ List.Forall₂ R js js' := by
  have hfirst := List.forall₂_take is.length h
  have hothers := List.forall₂_drop is.length h
  rw [List.take_left, hlength, List.take_left] at hfirst
  rw [List.drop_left, hlength, List.drop_left] at hothers
  exact ⟨hfirst, hothers⟩

theorem forall₂_append₃ {R : Nat → Nat → Prop} {is is' js js' ks ks' : List Nat}
    (hlength : is.length = is'.length) (hlength' : js.length = js'.length)
    (h : List.Forall₂ R (is ++ js ++ ks) (is' ++ js' ++ ks')) :
    List.Forall₂ R is is' ∧ List.Forall₂ R js js' ∧ List.Forall₂ R ks ks' := by
  rw [List.append_assoc, List.append_assoc] at h
  obtain ⟨hfirst, hothers⟩ := forall₂_append hlength h
  exact ⟨hfirst, forall₂_append hlength' hothers⟩

/-- A node is known by its number, where all places correspond. -/
theorem Node.matches_of_id (hspan : ∀ span span', μ.span span span') {node node' : Node}
    {ids ids' : List Nat} (h : List.Forall₂ μ.node (node.id :: ids) (node'.id :: ids')) :
    Node.Matches μ node node' :=
  ⟨(List.forall₂_cons.1 h).1, hspan _ _⟩

theorem Expr.length_ids_eq {e e' : Expr} (h : e.bare = e'.bare) :
    e.ids.length = e'.ids.length := by
  rw [← e.length_ids_bare, h, e'.length_ids_bare]

theorem Expr.length_idsAll_eq {es es' : List Expr} (h : Expr.bareAll es = Expr.bareAll es') :
    (Expr.idsAll es).length = (Expr.idsAll es').length := by
  rw [← Expr.length_idsAll_bare es, h, Expr.length_idsAll_bare es']

mutual
/-- Expressions with the same bare tree match if their numbers, in order, correspond. -/
theorem Expr.matches_of_bare (hspan : ∀ span span', μ.span span span') :
    ∀ e e' : Expr, e.bare = e'.bare → List.Forall₂ μ.node e.ids e'.ids → Expr.Matches μ e e'
  | .literal node _, e', h, hids => by
    cases e' with
    | literal node' _ =>
      simp only [Expr.bare, Expr.literal.injEq, true_and] at h
      subst h
      exact .literal (Node.matches_of_id hspan hids)
    | _ => cases h
  | .grouping node inner, e', h, hids => by
    cases e' with
    | grouping node' inner' =>
      simp only [Expr.bare, Expr.grouping.injEq, true_and] at h
      obtain ⟨hids, hnode⟩ := forall₂_append (Expr.length_ids_eq h) hids
      exact .grouping (Node.matches_of_id hspan hnode)
        (inner.matches_of_bare hspan inner' h hids)
    | _ => cases h
  | .unary node _ operand, e', h, hids => by
    cases e' with
    | unary node' _ operand' =>
      simp only [Expr.bare, Expr.unary.injEq, true_and] at h
      obtain ⟨rfl, h⟩ := h
      obtain ⟨hids, hnode⟩ := forall₂_append (Expr.length_ids_eq h) hids
      exact .unary (Node.matches_of_id hspan hnode)
        (operand.matches_of_bare hspan operand' h hids)
    | _ => cases h
  | .binary node _ left right _, e', h, hids => by
    cases e' with
    | binary node' _ left' right' _ =>
      simp only [Expr.bare, Expr.binary.injEq, true_and, and_true] at h
      obtain ⟨rfl, hleft, hright⟩ := h
      obtain ⟨hids, hids', hnode⟩ :=
        forall₂_append₃ (Expr.length_ids_eq hleft) (Expr.length_ids_eq hright) hids
      exact .binary (Node.matches_of_id hspan hnode)
        (left.matches_of_bare hspan left' hleft hids)
        (right.matches_of_bare hspan right' hright hids') (hspan _ _)
    | _ => cases h
  | .logical node _ left right, e', h, hids => by
    cases e' with
    | logical node' _ left' right' =>
      simp only [Expr.bare, Expr.logical.injEq, true_and] at h
      obtain ⟨rfl, hleft, hright⟩ := h
      obtain ⟨hids, hids', hnode⟩ :=
        forall₂_append₃ (Expr.length_ids_eq hleft) (Expr.length_ids_eq hright) hids
      exact .logical (Node.matches_of_id hspan hnode)
        (left.matches_of_bare hspan left' hleft hids)
        (right.matches_of_bare hspan right' hright hids')
    | _ => cases h
  | .variable node _, e', h, hids => by
    cases e' with
    | «variable» node' _ =>
      simp only [Expr.bare, Expr.variable.injEq, true_and] at h
      subst h
      exact .variable (Node.matches_of_id hspan hids)
    | _ => cases h
  | .assign node _ value, e', h, hids => by
    cases e' with
    | assign node' _ value' =>
      simp only [Expr.bare, Expr.assign.injEq, true_and] at h
      obtain ⟨rfl, h⟩ := h
      obtain ⟨hids, hnode⟩ := forall₂_append (Expr.length_ids_eq h) hids
      exact .assign (Node.matches_of_id hspan hnode)
        (value.matches_of_bare hspan value' h hids)
    | _ => cases h
  | .call node callee arguments _, e', h, hids => by
    cases e' with
    | call node' callee' arguments' _ =>
      simp only [Expr.bare, Expr.call.injEq, true_and, and_true] at h
      obtain ⟨hcallee, harguments⟩ := h
      obtain ⟨hids, hids', hnode⟩ :=
        forall₂_append₃ (Expr.length_ids_eq hcallee) (Expr.length_idsAll_eq harguments) hids
      exact .call (Node.matches_of_id hspan hnode)
        (callee.matches_of_bare hspan callee' hcallee hids)
        (Expr.matchesAll_of_bare hspan arguments arguments' harguments hids') (hspan _ _)
    | _ => cases h
  | .new node callee arguments _, e', h, hids => by
    cases e' with
    | new node' callee' arguments' _ =>
      simp only [Expr.bare, Expr.new.injEq, true_and, and_true] at h
      obtain ⟨hcallee, harguments⟩ := h
      obtain ⟨hids, hids', hnode⟩ :=
        forall₂_append₃ (Expr.length_ids_eq hcallee) (Expr.length_idsAll_eq harguments) hids
      exact .new (Node.matches_of_id hspan hnode)
        (callee.matches_of_bare hspan callee' hcallee hids)
        (Expr.matchesAll_of_bare hspan arguments arguments' harguments hids') (hspan _ _)
    | _ => cases h
  | .get node object _ _, e', h, hids => by
    cases e' with
    | get node' object' _ _ =>
      simp only [Expr.bare, Expr.get.injEq, true_and, and_true] at h
      obtain ⟨h, rfl⟩ := h
      obtain ⟨hids, hnode⟩ := forall₂_append (Expr.length_ids_eq h) hids
      exact .get (Node.matches_of_id hspan hnode)
        (object.matches_of_bare hspan object' h hids) (hspan _ _)
    | _ => cases h
  | .set node object _ _ value, e', h, hids => by
    cases e' with
    | set node' object' _ _ value' =>
      simp only [Expr.bare, Expr.set.injEq, true_and] at h
      obtain ⟨hobject, rfl, hvalue⟩ := h
      obtain ⟨hids, hids', hnode⟩ :=
        forall₂_append₃ (Expr.length_ids_eq hvalue) (Expr.length_ids_eq hobject) hids
      exact .set (Node.matches_of_id hspan hnode)
        (object.matches_of_bare hspan object' hobject hids') (hspan _ _)
        (value.matches_of_bare hspan value' hvalue hids)
    | _ => cases h
  | .this node, e', h, hids => by
    cases e' with
    | this node' => exact .this (Node.matches_of_id hspan hids)
    | _ => cases h

theorem Expr.matchesAll_of_bare (hspan : ∀ span span', μ.span span span') :
    ∀ es es' : List Expr, Expr.bareAll es = Expr.bareAll es' →
      List.Forall₂ μ.node (Expr.idsAll es) (Expr.idsAll es') → Expr.MatchesAll μ es es'
  | [], es', h, _ => by
    cases es' with
    | nil => exact .nil
    | cons e' es' => cases h
  | e :: es, es', h, hids => by
    cases es' with
    | nil => cases h
    | cons e' es' =>
      obtain ⟨hfirst, hothers⟩ := List.cons.inj h
      obtain ⟨hids, hids'⟩ := forall₂_append (Expr.length_ids_eq hfirst) hids
      exact .cons (e.matches_of_bare hspan e' hfirst hids)
        (Expr.matchesAll_of_bare hspan es es' hothers hids')
end

theorem Expr.matchesOption_of_bare (hspan : ∀ span span', μ.span span span')
    {e e' : Option Expr} (h : e.map Expr.bare = e'.map Expr.bare)
    (hids : List.Forall₂ μ.node (Expr.idsOption e) (Expr.idsOption e')) :
    Expr.MatchesOption μ e e' := by
  cases e with
  | none =>
    cases e' with
    | none => exact .none
    | some e' => cases h
  | some e =>
    cases e' with
    | none => cases h
    | some e' => exact .some (e.matches_of_bare hspan e' (Option.some.inj h) hids)

theorem Stmt.length_numbers_eq {s s' : Stmt} (h : s.bare = s'.bare) :
    s.ids.length = s'.ids.length ∧ s.functionIds.length = s'.functionIds.length := by
  rw [← s.length_numbers_bare.1, ← s.length_numbers_bare.2, h]
  exact s'.length_numbers_bare

theorem FunctionDecl.length_numbers_eq {f f' : FunctionDecl} (h : f.bare = f'.bare) :
    f.ids.length = f'.ids.length ∧ f.functionIds.length = f'.functionIds.length := by
  rw [← f.length_numbers_bare.1, ← f.length_numbers_bare.2, h]
  exact f'.length_numbers_bare

mutual
/-- Statements with the same bare tree match if their numbers, in order, correspond. -/
theorem Stmt.matches_of_bare (hspan : ∀ span span', μ.span span span') :
    ∀ s s' : Stmt, s.bare = s'.bare → List.Forall₂ μ.node s.ids s'.ids →
      List.Forall₂ μ.function s.functionIds s'.functionIds → Stmt.Matches μ s s'
  | .expression value _, s', h, hids, _ => by
    cases s' with
    | expression value' _ =>
      simp only [Stmt.bare, Stmt.expression.injEq, and_true] at h
      exact .expression (value.matches_of_bare hspan value' h hids) (hspan _ _)
    | ifElse _ _ other => cases other <;> cases h
    | _ => cases h
  | .print value _, s', h, hids, _ => by
    cases s' with
    | print value' _ =>
      simp only [Stmt.bare, Stmt.print.injEq, and_true] at h
      exact .print (value.matches_of_bare hspan value' h hids) (hspan _ _)
    | ifElse _ _ other => cases other <;> cases h
    | _ => cases h
  | .var _ initializer _, s', h, hids, _ => by
    cases s' with
    | var _ initializer' _ =>
      simp only [Stmt.bare, Stmt.var.injEq, and_true] at h
      obtain ⟨rfl, h⟩ := h
      exact .var (Expr.matchesOption_of_bare hspan h hids) (hspan _ _)
    | ifElse _ _ other => cases other <;> cases h
    | _ => cases h
  | .block body _, s', h, hids, hfunctions => by
    cases s' with
    | block body' _ =>
      simp only [Stmt.bare, Stmt.block.injEq, and_true] at h
      exact .block (Stmt.matchesAll_of_bare hspan body body' h hids hfunctions) (hspan _ _)
    | ifElse _ _ other => cases other <;> cases h
    | _ => cases h
  | .ifElse condition thenBranch none _, s', h, hids, hfunctions => by
    cases s' with
    | ifElse condition' thenBranch' other _ =>
      cases other with
      | some other => simp [Stmt.bare] at h
      | none =>
        simp only [Stmt.bare, Stmt.ifElse.injEq, and_true] at h
        obtain ⟨hcondition, hthen⟩ := h
        obtain ⟨hids, hids'⟩ := forall₂_append (Expr.length_ids_eq hcondition) hids
        exact .ifThen (condition.matches_of_bare hspan condition' hcondition hids)
          (thenBranch.matches_of_bare hspan thenBranch' hthen hids' hfunctions) (hspan _ _)
    | _ => cases h
  | .ifElse condition thenBranch (some elseBranch) _, s', h, hids, hfunctions => by
    cases s' with
    | ifElse condition' thenBranch' other _ =>
      cases other with
      | none => simp [Stmt.bare] at h
      | some elseBranch' =>
        simp only [Stmt.bare, Stmt.ifElse.injEq, Option.some.injEq, and_true] at h
        obtain ⟨hcondition, hthen, helse⟩ := h
        obtain ⟨hids, hids', hids''⟩ :=
          forall₂_append₃ (Expr.length_ids_eq hcondition) (Stmt.length_numbers_eq hthen).1 hids
        obtain ⟨hfunctions, hfunctions'⟩ :=
          forall₂_append (Stmt.length_numbers_eq hthen).2 hfunctions
        exact .ifElse (condition.matches_of_bare hspan condition' hcondition hids)
          (thenBranch.matches_of_bare hspan thenBranch' hthen hids' hfunctions)
          (elseBranch.matches_of_bare hspan elseBranch' helse hids'' hfunctions') (hspan _ _)
    | _ => cases h
  | .while condition body _, s', h, hids, hfunctions => by
    cases s' with
    | «while» condition' body' _ =>
      simp only [Stmt.bare, Stmt.while.injEq, and_true] at h
      obtain ⟨hcondition, hbody⟩ := h
      obtain ⟨hids, hids'⟩ := forall₂_append (Expr.length_ids_eq hcondition) hids
      exact .while (condition.matches_of_bare hspan condition' hcondition hids)
        (body.matches_of_bare hspan body' hbody hids' hfunctions) (hspan _ _)
    | ifElse _ _ other => cases other <;> cases h
    | _ => cases h
  | .function decl _, s', h, hids, hfunctions => by
    cases s' with
    | function decl' _ =>
      simp only [Stmt.bare, Stmt.function.injEq, and_true] at h
      exact .function (decl.matches_of_bare hspan decl' h hids hfunctions) (hspan _ _)
    | ifElse _ _ other => cases other <;> cases h
    | _ => cases h
  | .class _ methods _, s', h, hids, hfunctions => by
    cases s' with
    | «class» _ methods' _ =>
      simp only [Stmt.bare, Stmt.class.injEq, and_true] at h
      obtain ⟨rfl, h⟩ := h
      exact .class (FunctionDecl.matchesAll_of_bare hspan methods methods' h hids hfunctions)
        (hspan _ _)
    | ifElse _ _ other => cases other <;> cases h
    | _ => cases h
  | .return value _, s', h, hids, _ => by
    cases s' with
    | «return» value' _ =>
      simp only [Stmt.bare, Stmt.return.injEq, and_true] at h
      exact .return (Expr.matchesOption_of_bare hspan h hids) (hspan _ _)
    | ifElse _ _ other => cases other <;> cases h
    | _ => cases h

theorem Stmt.matchesAll_of_bare (hspan : ∀ span span', μ.span span span') :
    ∀ ss ss' : List Stmt, Stmt.bareAll ss = Stmt.bareAll ss' →
      List.Forall₂ μ.node (Stmt.idsAll ss) (Stmt.idsAll ss') →
      List.Forall₂ μ.function (Stmt.functionIdsAll ss) (Stmt.functionIdsAll ss') →
      Stmt.MatchesAll μ ss ss'
  | [], ss', h, _, _ => by
    cases ss' with
    | nil => exact .nil
    | cons s' ss' => cases h
  | s :: ss, ss', h, hids, hfunctions => by
    cases ss' with
    | nil => cases h
    | cons s' ss' =>
      obtain ⟨hfirst, hothers⟩ := List.cons.inj h
      obtain ⟨hlength, hlength'⟩ := Stmt.length_numbers_eq hfirst
      obtain ⟨hids, hids'⟩ := forall₂_append hlength hids
      obtain ⟨hfunctions, hfunctions'⟩ := forall₂_append hlength' hfunctions
      exact .cons (s.matches_of_bare hspan s' hfirst hids hfunctions)
        (Stmt.matchesAll_of_bare hspan ss ss' hothers hids' hfunctions')

theorem FunctionDecl.matches_of_bare (hspan : ∀ span span', μ.span span span') :
    ∀ f f' : FunctionDecl, f.bare = f'.bare → List.Forall₂ μ.node f.ids f'.ids →
      List.Forall₂ μ.function f.functionIds f'.functionIds → FunctionDecl.Matches μ f f'
  | .mk _ _ _ body _, .mk _ _ _ body' _, h, hids, hfunctions => by
    simp only [FunctionDecl.bare, FunctionDecl.mk.injEq, true_and, and_true] at h
    obtain ⟨rfl, rfl, h⟩ := h
    have hlength : (Stmt.functionIdsAll body).length = (Stmt.functionIdsAll body').length := by
      rw [← (Stmt.length_numbersAll_bare body).2, h, (Stmt.length_numbersAll_bare body').2]
    obtain ⟨hfunctions, hnumber⟩ := forall₂_append hlength hfunctions
    exact .mk (List.forall₂_cons.1 hnumber).1
      (Stmt.matchesAll_of_bare hspan body body' h hids hfunctions) (hspan _ _)

theorem FunctionDecl.matchesAll_of_bare (hspan : ∀ span span', μ.span span span') :
    ∀ fs fs' : List FunctionDecl, FunctionDecl.bareAll fs = FunctionDecl.bareAll fs' →
      List.Forall₂ μ.node (FunctionDecl.idsAll fs) (FunctionDecl.idsAll fs') →
      List.Forall₂ μ.function (FunctionDecl.functionIdsAll fs) (FunctionDecl.functionIdsAll fs') →
      FunctionDecl.MatchesAll μ fs fs'
  | [], fs', h, _, _ => by
    cases fs' with
    | nil => exact .nil
    | cons f' fs' => cases h
  | f :: fs, fs', h, hids, hfunctions => by
    cases fs' with
    | nil => cases h
    | cons f' fs' =>
      obtain ⟨hfirst, hothers⟩ := List.cons.inj h
      obtain ⟨hlength, hlength'⟩ := FunctionDecl.length_numbers_eq hfirst
      obtain ⟨hids, hids'⟩ := forall₂_append hlength hids
      obtain ⟨hfunctions, hfunctions'⟩ := forall₂_append hlength' hfunctions
      exact .cons (f.matches_of_bare hspan f' hfirst hids hfunctions)
        (FunctionDecl.matchesAll_of_bare hspan fs fs' hothers hids' hfunctions')
end

end Lox
