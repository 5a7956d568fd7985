import Lox.Proofs.Matching.Machines

/-!
# Matching code runs in step

On machines in step, running matching code leaves machines in step: both runs answer alike
or stop alike, or the first one is cut short.  The proof is by induction on the budget, with
one lemma for each kind of code.
-/

namespace Lox

open Run

variable {c : Coupling} {m m' : Machine}

/-- With this budget for the first machine, matching code runs in step. -/
structure Coupling.Carries (c : Coupling) (n : Nat) : Prop where
  /-- Expressions have matching values. -/
  evaluate : ∀ {m m' e e'}, m.Coupled c m' → Expr.Matches c.matching e e' →
    Couples c (Value.Matches c.matching) (Run.evaluate n e m) (Run.evaluate (c.slack + n) e' m')
  /-- So do several expressions. -/
  evaluateAll : ∀ {m m' es es'}, m.Coupled c m' → Expr.MatchesAll c.matching es es' →
    Couples c (List.Forall₂ (Value.Matches c.matching)) (Run.evaluateAll n es m)
      (Run.evaluateAll (c.slack + n) es' m')
  /-- Calls of matching values answer matching values. -/
  invoke : ∀ {m m' f f' arguments arguments' paren paren'}, m.Coupled c m' →
    Value.Matches c.matching f f' →
    List.Forall₂ (Value.Matches c.matching) arguments arguments' →
    c.matching.span paren paren' →
    Couples c (Value.Matches c.matching) (Run.invoke n f arguments paren m)
      (Run.invoke (c.slack + n) f' arguments' paren' m')
  /-- So do the bodies of functions. -/
  apply : ∀ {m m' f f' arguments arguments'}, m.Coupled c m' → Closure.Matches c.matching f f' →
    List.Forall₂ (Value.Matches c.matching) arguments arguments' →
    Couples c (Value.Matches c.matching) (Run.apply n f arguments m)
      (Run.apply (c.slack + n) f' arguments' m')
  /-- Statements end alike. -/
  execute : ∀ {m m' s s'}, m.Coupled c m' → Stmt.Matches c.matching s s' →
    Couples c (Flow.Matches c.matching) (Run.execute n s m) (Run.execute (c.slack + n) s' m')
  /-- So do several statements. -/
  executeAll : ∀ {m m' ss ss'}, m.Coupled c m' → Stmt.MatchesAll c.matching ss ss' →
    Couples c (Flow.Matches c.matching) (Run.executeAll n ss m)
      (Run.executeAll (c.slack + n) ss' m')
  /-- So do loops. -/
  loop : ∀ {m m' condition condition' body body'}, m.Coupled c m' →
    Expr.Matches c.matching condition condition' → Stmt.Matches c.matching body body' →
    Couples c (Flow.Matches c.matching) (Run.loop n condition body m)
      (Run.loop (c.slack + n) condition' body' m')

namespace Coupling.Carries

variable {n : Nat}

theorem evaluate_succ (hc : c.IsLawful) (h : c.Carries n) {e e' : Expr} (hm : m.Coupled c m')
    (he : Expr.Matches c.matching e e') :
    Couples c (Value.Matches c.matching) (Run.evaluate (n + 1) e m)
      (Run.evaluate (c.slack + (n + 1)) e' m') := by
  have hsame (f f' g g' : Closure) (hf : f.Matches c.matching f')
      (hg : g.Matches c.matching g') : f'.same g' = f.same g := hf.same_eq hc.injective hg
  cases he with
  | literal => exact .pure hm (.ofConstant _)
  | grouping _ hinner => exact h.evaluate hm hinner
  | @unary _ _ op _ _ hnode hoperand =>
    refine .bind hc (h.evaluate hm hoperand) fun a a' m₁ m₁' hm₁ ha => ?_
    rw [ha.unary_eq]
    exact couples_check hm₁ hnode.span fun _ hvalue => op.apply_ne_function hvalue
  | @binary _ _ op _ _ _ _ _ _ _ hleft hright hspan =>
    refine .bind hc (h.evaluate hm hleft) fun a a' m₁ m₁' hm₁ ha => ?_
    refine .bind hc (h.evaluate hm₁ hright) fun b b' m₂ m₂' hm₂ hb => ?_
    rw [ha.binary_eq hsame hb]
    exact couples_check hm₂ hspan fun _ hvalue => op.apply_ne_function hvalue
  | logical _ hleft hright =>
    refine .bind hc (h.evaluate hm hleft) fun a a' m₁ m₁' hm₁ ha => ?_
    rw [ha.isDecidedBy_eq]
    split
    · exact .pure hm₁ ha
    · exact h.evaluate hm₁ hright
  | «variable» hnode => exact couples_lookUp hm hnode _
  | assign hnode hvalue =>
    refine .bind hc (h.evaluate hm hvalue) fun v v' m₁ m₁' hm₁ hv => ?_
    refine .bind hc (couples_assign hm₁ hnode _ hv) fun _ _ m₂ m₂' hm₂ _ => ?_
    exact .pure hm₂ hv
  | call _ hcallee harguments hspan =>
    refine .bind hc (h.evaluate hm hcallee) fun f f' m₁ m₁' hm₁ hf => ?_
    refine .bind hc (h.evaluateAll hm₁ harguments) fun values values' m₂ m₂' hm₂ hvalues => ?_
    exact h.invoke hm₂ hf hvalues hspan
  | new _ hcallee harguments hspan =>
    refine .bind hc (h.evaluate hm hcallee) fun f f' m₁ m₁' hm₁ hf => ?_
    refine .bind hc (h.evaluateAll hm₁ harguments) fun values values' m₂ m₂' hm₂ hvalues => ?_
    exact couples_instantiate hm₂ hc hf hvalues.length_eq.symm hspan
  | get _ hobject hspan =>
    refine .bind hc (h.evaluate hm hobject) fun o o' m₁ m₁' hm₁ ho => ?_
    exact couples_property hm₁ ho _ hspan
  | @set _ _ _ _ name _ _ _ _ _ hobject hspan hvalue =>
    refine .bindOnward hc ?_ (h.evaluate hm hobject) fun o o' m₁ m₁' hm₁ ho => ?_
    · intro o
      cases o <;> infer_instance
    cases ho with
    | function hf => exact .fail hm₁ _ hspan
    | same ho =>
      cases o with
      | «instance» i =>
        refine .bind hc (h.evaluate hm₁ hvalue) fun v v' m₂ m₂' hm₂ hv => ?_
        exact .ok (hm₂.withStore (hm₂.store.setField i name hv)) hv
      | _ => exact .fail hm₁ _ hspan
  | this hnode => exact couples_lookUp hm hnode "this"

theorem evaluateAll_succ (hc : c.IsLawful) (h : c.Carries n) {es es' : List Expr}
    (hm : m.Coupled c m') (hes : Expr.MatchesAll c.matching es es') :
    Couples c (List.Forall₂ (Value.Matches c.matching)) (Run.evaluateAll (n + 1) es m)
      (Run.evaluateAll (c.slack + (n + 1)) es' m') := by
  cases hes with
  | nil => exact .pure hm .nil
  | cons hfirst hothers =>
    refine .bind hc (h.evaluate hm hfirst) fun v v' m₁ m₁' hm₁ hv => ?_
    refine .bind hc (h.evaluateAll hm₁ hothers) fun vs vs' m₂ m₂' hm₂ hvs => ?_
    exact .pure hm₂ (.cons hv hvs)

theorem invoke_succ (hc : c.IsLawful) (h : c.Carries n) {f f' : Value}
    {arguments arguments' : List Value} {paren paren' : Span} (hm : m.Coupled c m')
    (hf : Value.Matches c.matching f f')
    (harguments : List.Forall₂ (Value.Matches c.matching) arguments arguments')
    (hspan : c.matching.span paren paren') :
    Couples c (Value.Matches c.matching) (Run.invoke (n + 1) f arguments paren m)
      (Run.invoke (c.slack + (n + 1)) f' arguments' paren' m') := by
  have hdisplay := hm.store.display_eq hf
  cases hf with
  | @function f f' hf =>
    have hchecked := couples_checkCall hm hc f.decl.arity arguments.length hspan
    rw [← Nat.add_assoc, Run.invoke, Run.invoke, hf.decl.arity_eq, ← harguments.length_eq]
    refine .bind hc hchecked fun _ _ m₁ m₁' hm₁ _ => .inCall ?_
    exact h.apply hm₁.beginCall hf harguments
  | same hf =>
    cases f with
    | function f => exact absurd rfl (hf f)
    | «class» cls =>
      apply Couples.get_bind
      rw [hm.store.className_eq]
      exact .fail hm _ hspan
    | _ =>
      apply Couples.get_bind
      rw [hdisplay]
      exact .fail hm _ hspan

theorem apply_succ (hc : c.IsLawful) (h : c.Carries n) {f f' : Closure}
    {arguments arguments' : List Value} (hm : m.Coupled c m') (hf : Closure.Matches c.matching f f')
    (harguments : List.Forall₂ (Value.Matches c.matching) arguments arguments') :
    Couples c (Value.Matches c.matching) (Run.apply (n + 1) f arguments m)
      (Run.apply (c.slack + (n + 1)) f' arguments' m') := by
  have hends := h.executeAll (hm.openBody hf harguments) hf.decl.body
  rw [← Nat.add_assoc, Run.apply, Run.apply, newFrame, newFrame, bind_of_ok (withStore_apply _ m),
    bind_of_ok (withStore_apply _ m'), bind_of_ok (modifyStore_apply _ _),
    bind_of_ok (modifyStore_apply _ _)]
  refine .bindOnward hc ?_ (.inFrame hm.current hends) fun flow flow' m₁ m₁' hm₁ hflow => ?_
  · intro flow
    cases flow <;> infer_instance
  cases hflow with
  | normal => exact .pure hm₁ .nil
  | «return» hvalue => exact .pure hm₁ hvalue

theorem execute_succ (hc : c.IsLawful) (h : c.Carries n) {s s' : Stmt} (hm : m.Coupled c m')
    (hs : Stmt.Matches c.matching s s') :
    Couples c (Flow.Matches c.matching) (Run.execute (n + 1) s m)
      (Run.execute (c.slack + (n + 1)) s' m') := by
  cases hs with
  | expression hvalue =>
    refine .bind hc (h.evaluate hm hvalue) fun _ _ m₁ m₁' hm₁ _ => ?_
    exact .pure hm₁ .normal
  | print hvalue hspan =>
    refine .bind hc (h.evaluate hm hvalue) fun v v' m₁ m₁' hm₁ hv => .get_bind ?_
    rw [hm₁.store.display_eq hv]
    refine .bind hc (couples_print hm₁ hc _ hspan) fun _ _ m₂ m₂' hm₂ _ => ?_
    exact .pure hm₂ .normal
  | var hinitializer =>
    cases hinitializer with
    | none =>
      refine .bind hc (couples_define hm _ .nil) fun _ _ m₁ m₁' hm₁ _ => ?_
      exact .pure hm₁ .normal
    | some hinitializer =>
      refine .bind hc (h.evaluate hm hinitializer) fun v v' m₁ m₁' hm₁ hv => ?_
      refine .bind hc (couples_define hm₁ _ hv) fun _ _ m₂ m₂' hm₂ _ => ?_
      exact .pure hm₂ .normal
  | block hbody =>
    have hends := h.executeAll hm.openBlock hbody
    rw [← Nat.add_assoc, Run.execute, Run.execute, bind_of_ok (get_apply m),
      bind_of_ok (get_apply m'), newFrame, newFrame, bind_of_ok (withStore_apply _ m),
      bind_of_ok (withStore_apply _ m')]
    exact .inFrame hm.current hends
  | ifThen hcondition hthen =>
    refine .bind hc (h.evaluate hm hcondition) fun v v' m₁ m₁' hm₁ hv => ?_
    rw [hv.isTruthy_eq]
    split
    · exact h.execute hm₁ hthen
    · exact .pure hm₁ .normal
  | ifElse hcondition hthen helse =>
    refine .bind hc (h.evaluate hm hcondition) fun v v' m₁ m₁' hm₁ hv => ?_
    rw [hv.isTruthy_eq]
    split
    · exact h.execute hm₁ hthen
    · exact h.execute hm₁ helse
  | «while» hcondition hbody => exact h.loop hm hcondition hbody
  | @function decl decl' _ _ hdecl =>
    have hclosure : Closure.Matches c.matching ⟨decl, m.current⟩ ⟨decl', m.current⟩ :=
      ⟨rfl, hdecl⟩
    apply Couples.get_bind
    rw [hm.current, hdecl.name_eq]
    refine .bind hc (couples_define hm _ (.function hclosure)) fun _ _ m₁ m₁' hm₁ _ => ?_
    exact .pure hm₁ .normal
  | «class» hmethods =>
    refine .bind hc (couples_defineClass hm _ hmethods) fun _ _ m₁ m₁' hm₁ _ => ?_
    exact .pure hm₁ .normal
  | «return» hvalue =>
    cases hvalue with
    | none => exact .pure hm (.return .nil)
    | some hvalue =>
      refine .bind hc (h.evaluate hm hvalue) fun v v' m₁ m₁' hm₁ hv => ?_
      exact .pure hm₁ (.return hv)

theorem executeAll_succ (hc : c.IsLawful) (h : c.Carries n) {ss ss' : List Stmt}
    (hm : m.Coupled c m') (hss : Stmt.MatchesAll c.matching ss ss') :
    Couples c (Flow.Matches c.matching) (Run.executeAll (n + 1) ss m)
      (Run.executeAll (c.slack + (n + 1)) ss' m') := by
  cases hss with
  | nil => exact .pure hm .normal
  | cons hfirst hothers =>
    refine .bindOnward hc ?_ (h.execute hm hfirst) fun flow flow' m₁ m₁' hm₁ hflow => ?_
    · intro flow
      cases flow <;> infer_instance
    cases hflow with
    | normal => exact h.executeAll hm₁ hothers
    | «return» hvalue => exact .pure hm₁ (.return hvalue)

theorem loop_succ (hc : c.IsLawful) (h : c.Carries n) {condition condition' : Expr}
    {body body' : Stmt} (hm : m.Coupled c m')
    (hcondition : Expr.Matches c.matching condition condition')
    (hbody : Stmt.Matches c.matching body body') :
    Couples c (Flow.Matches c.matching) (Run.loop (n + 1) condition body m)
      (Run.loop (c.slack + (n + 1)) condition' body' m') := by
  refine .bindOnward hc ?_ (h.evaluate hm hcondition) fun v v' m₁ m₁' hm₁ hv => ?_
  · intro v
    split
    · refine .bind inferInstance fun flow => ?_
      cases flow <;> infer_instance
    · infer_instance
  rw [hv.isTruthy_eq]
  split
  · refine .bindOnward hc ?_ (h.execute hm₁ hbody) fun flow flow' m₂ m₂' hm₂ hflow => ?_
    · intro flow
      cases flow <;> infer_instance
    cases hflow with
    | normal => exact h.loop hm₂ hcondition hbody
    | «return» hvalue => exact .pure hm₂ (.return hvalue)
  · exact .pure hm₁ .normal

end Coupling.Carries

/-- Matching code runs in step with every budget. -/
theorem Coupling.IsLawful.carries (hc : c.IsLawful) (n : Nat) : c.Carries n := by
  induction n with
  | zero =>
    constructor
    case evaluate =>
      intro m m' e e' hm _
      exact .exhausted hc hm (fun k => Run.evaluate k e') rfl inferInstance
    case evaluateAll =>
      intro m m' es es' hm _
      exact .exhausted hc hm (fun k => Run.evaluateAll k es') rfl inferInstance
    case invoke =>
      intro m m' f f' arguments arguments' paren paren' hm _ _ _
      exact .exhausted hc hm (fun k => Run.invoke k f' arguments' paren') rfl inferInstance
    case apply =>
      intro m m' f f' arguments arguments' hm _ _
      exact .exhausted hc hm (fun k => Run.apply k f' arguments') rfl inferInstance
    case execute =>
      intro m m' s s' hm _
      exact .exhausted hc hm (fun k => Run.execute k s') rfl inferInstance
    case executeAll =>
      intro m m' ss ss' hm _
      exact .exhausted hc hm (fun k => Run.executeAll k ss') rfl inferInstance
    case loop =>
      intro m m' condition condition' body body' hm _ _
      exact .exhausted hc hm (fun k => Run.loop k condition' body') rfl inferInstance
  | succ n ih =>
    exact ⟨ih.evaluate_succ hc, ih.evaluateAll_succ hc, ih.invoke_succ hc, ih.apply_succ hc,
      ih.execute_succ hc, ih.executeAll_succ hc, ih.loop_succ hc⟩

/-- The statements of matching programs run in step. -/
theorem couples_statements (hc : c.IsLawful) (budget : Nat) {ss ss' : List Stmt}
    (hm : m.Coupled c m') (hss : Stmt.MatchesAll c.matching ss ss') :
    Couples c (fun _ _ => True) (statements budget ss m)
      (statements (c.slack + budget) ss' m') := by
  induction ss generalizing ss' m m' with
  | nil =>
    cases hss
    exact .pure hm trivial
  | cons s ss ih =>
    cases hss with
    | cons hs hss =>
      exact .bind hc ((hc.carries budget).execute hm hs) fun _ _ m₁ m₁' hm₁ _ => ih hm₁ hss

end Lox
