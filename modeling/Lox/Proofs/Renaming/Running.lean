import Lox.Proofs.Renaming.Machines

/-!
# Renamed code runs alike

Running code and the renamed code on such machines goes in step: both answer renamed values
and leave machines of the same kind, or both stop in the same way with the same output.  The
proof is by induction on the budget, with one lemma for each kind of code.
-/

namespace Lox

open Run

variable {r : Renaming} {depths : List Depth} {k : Depth} {m m' : Machine}

/-- With this budget, renamed code runs alike on renamed machines. -/
structure Alike (r : Renaming) (n : Nat) : Prop where
  /-- Expressions have renamed values. -/
  evaluate : ∀ {depths k m m' e e'}, m.Renamed r depths k m' → Expr.Renamed r k e e' →
    Faultless n (.evaluate e) m →
    Agree r depths k (Value.Renamed r) (Run.evaluate n e m) (Run.evaluate n e' m')
  /-- So do several expressions. -/
  evaluateAll : ∀ {depths k m m' es es'}, m.Renamed r depths k m' → Expr.RenamedAll r k es es' →
    Faultless n (.evaluateAll es) m →
    Agree r depths k (fun depths => List.Forall₂ (Value.Renamed r depths))
      (Run.evaluateAll n es m) (Run.evaluateAll n es' m')
  /-- Calls of renamed values answer renamed values. -/
  invoke : ∀ {depths k m m' f f' arguments arguments'} (paren : Span),
    m.Renamed r depths k m' → Value.Renamed r depths f f' →
    List.Forall₂ (Value.Renamed r depths) arguments arguments' →
    Faultless n (.invoke f arguments paren) m →
    Agree r depths k (Value.Renamed r) (Run.invoke n f arguments paren m)
      (Run.invoke n f' arguments' paren m')
  /-- So do the bodies of functions. -/
  apply : ∀ {depths k m m' f f' arguments arguments'}, m.Renamed r depths k m' →
    Closure.Renamed r depths f f' → List.Forall₂ (Value.Renamed r depths) arguments arguments' →
    Faultless n (.apply f arguments) m →
    Agree r depths k (Value.Renamed r) (Run.apply n f arguments m)
      (Run.apply n f' arguments' m')
  /-- Statements end alike. -/
  execute : ∀ {depths k m m' s s'}, m.Renamed r depths k m' → Stmt.Renamed r k s s' →
    Faultless n (.execute s) m →
    Agree r depths k (Flow.Renamed r) (Run.execute n s m) (Run.execute n s' m')
  /-- So do several statements. -/
  executeAll : ∀ {depths k m m' ss ss'}, m.Renamed r depths k m' → Stmt.RenamedAll r k ss ss' →
    Faultless n (.executeAll ss) m →
    Agree r depths k (Flow.Renamed r) (Run.executeAll n ss m) (Run.executeAll n ss' m')
  /-- So do loops. -/
  loop : ∀ {depths k m m' condition condition' body body'}, m.Renamed r depths k m' →
    Expr.Renamed r k condition condition' → Stmt.Renamed r k body body' →
    Faultless n (.loop condition body) m →
    Agree r depths k (Flow.Renamed r) (Run.loop n condition body m)
      (Run.loop n condition' body' m')

namespace Alike

variable {n : Nat}

theorem evaluate_succ (h : Alike r n) (hproper : r.IsProper) {e e' : Expr}
    (hm : m.Renamed r depths k m') (he : Expr.Renamed r k e e')
    (hfault : Faultless (n + 1) (.evaluate e) m) :
    Agree r depths k (Value.Renamed r) (Run.evaluate (n + 1) e m)
      (Run.evaluate (n + 1) e' m') := by
  cases he with
  | @literal _ constant => exact .pure hm (.ofConstant constant)
  | grouping hinner => exact h.evaluate hm hinner (hfault.begun .inner)
  | @unary _ op _ _ hoperand =>
    refine .bind (h.evaluate hm hoperand (hfault.begun .operand)) fun a a' m₁ m₁' _ _ _ hm₁ ha => ?_
    rw [ha.unary_eq]
    exact agree_check hm₁ _ fun _ hvalue => op.apply_ne_function hvalue
  | @binary _ op _ _ _ _ _ hleft hright =>
    refine .bind (h.evaluate hm hleft (hfault.begun .left)) fun a a' m₁ m₁' _ h₁ _ hm₁ ha => ?_
    refine .bind (h.evaluate hm₁ hright (hfault.begun (.right h₁)))
      fun b b' m₂ m₂' _ _ hmore hm₂ hb => ?_
    rw [(ha.mono hmore).binary_eq hb]
    exact agree_check hm₂ _ fun _ hvalue => op.apply_ne_function hvalue
  | logical hleft hright =>
    refine .bind (h.evaluate hm hleft (hfault.begun .decider)) fun a a' m₁ m₁' _ h₁ _ hm₁ ha => ?_
    rw [ha.isDecidedBy_eq]
    split
    · exact .pure hm₁ ha
    · next hdecided =>
      exact h.evaluate hm₁ hright (hfault.begun (.undecided h₁ (Bool.eq_false_iff.2 hdecided)))
  | «variable» hname => exact agree_lookUp hm _ hname hfault.isSome_found?
  | assign hname hvalue =>
    refine .bind (h.evaluate hm hvalue (hfault.begun .assigned))
      fun v v' m₁ m₁' _ h₁ _ hm₁ hv => ?_
    refine .bind (agree_assign hm₁ hname hv (hfault.assigned_fst h₁))
      fun _ _ m₂ m₂' _ _ hmore hm₂ _ => ?_
    exact .pure hm₂ (hv.mono hmore)
  | call hcallee harguments =>
    refine .bind (h.evaluate hm hcallee (hfault.begun .callee))
      fun f f' m₁ m₁' _ h₁ _ hm₁ hf => ?_
    refine .bind (h.evaluateAll hm₁ harguments (hfault.begun (.arguments h₁)))
      fun values values' m₂ m₂' _ h₂ hmore hm₂ hvalues => ?_
    exact h.invoke _ hm₂ (hf.mono hmore) hvalues (hfault.begun (.invoke h₁ h₂))
  | new hcallee harguments =>
    refine .bind (h.evaluate hm hcallee (hfault.begun .newCallee))
      fun c c' m₁ m₁' _ h₁ _ hm₁ hc => ?_
    refine .bind (h.evaluateAll hm₁ harguments (hfault.begun (.newArguments h₁)))
      fun values values' m₂ m₂' _ _ hmore hm₂ hvalues => ?_
    exact agree_instantiate hm₂ (hc.mono hmore) hvalues.length_eq.symm _
  | get hobject =>
    refine .bind (h.evaluate hm hobject (hfault.begun .object))
      fun o o' m₁ m₁' _ _ _ hm₁ ho => ?_
    exact agree_property hm₁ hproper ho _ _
  | @set _ _ name _ _ _ _ hobject hvalue =>
    refine .bind (h.evaluate hm hobject (hfault.begun .target))
      fun o o' m₁ m₁' _ h₁ _ hm₁ ho => ?_
    cases ho with
    | function hf => exact .fail hm₁ _ _
    | same ho =>
      cases o with
      | «instance» i =>
        refine .bind (h.evaluate hm₁ hvalue (hfault.begun (.written h₁)))
          fun v v' m₂ m₂' _ _ _ hm₂ hv => ?_
        have hset := hm₂.withStore List.prefix_rfl (.setField _ _ _ _)
          (hm₂.store.setField i name hv)
        exact .ok List.prefix_rfl hset hv
      | _ => exact .fail hm₁ _ _
  | @this node =>
    have hfound := agree_lookUp hm node hproper.new.ne_this.symm
      hfault.isSome_found?_this
    rwa [Renaming.used_of_ne_old hproper.old.ne_this.symm] at hfound

theorem evaluateAll_succ (h : Alike r n) {es es' : List Expr}
    (hm : m.Renamed r depths k m') (hes : Expr.RenamedAll r k es es')
    (hfault : Faultless (n + 1) (.evaluateAll es) m) :
    Agree r depths k (fun depths => List.Forall₂ (Value.Renamed r depths))
      (Run.evaluateAll (n + 1) es m) (Run.evaluateAll (n + 1) es' m') := by
  cases hes with
  | nil => exact .pure hm .nil
  | cons hfirst hothers =>
    refine .bind (h.evaluate hm hfirst (hfault.begun .firstValue))
      fun v v' m₁ m₁' _ h₁ _ hm₁ hv => ?_
    refine .bind (h.evaluateAll hm₁ hothers (hfault.begun (.otherValues h₁)))
      fun vs vs' m₂ m₂' _ _ hmore hm₂ hvs => ?_
    exact .pure hm₂ (.cons (hv.mono hmore) hvs)

theorem invoke_succ (h : Alike r n) {f f' : Value} {arguments arguments' : List Value}
    (paren : Span) (hm : m.Renamed r depths k m') (hf : Value.Renamed r depths f f')
    (harguments : List.Forall₂ (Value.Renamed r depths) arguments arguments')
    (hfault : Faultless (n + 1) (.invoke f arguments paren) m) :
    Agree r depths k (Value.Renamed r) (Run.invoke (n + 1) f arguments paren m)
      (Run.invoke (n + 1) f' arguments' paren m') := by
  have hdisplay := hm.store.display_eq hf
  cases hf with
  | @function f f' hf =>
    obtain ⟨kf, -, hdecl⟩ := hf.decl
    rw [Run.invoke, Run.invoke, hdecl.arity_eq, ← harguments.length_eq]
    refine .bind (agree_checkCall hm _ _ _) fun _ _ m₁ m₁' _ h₁ hmore hm₁ _ => .inCall ?_
    obtain ⟨hcount, hdepth, rfl⟩ := checkCall_eq_ok.1 h₁
    exact h.apply hm₁.beginCall (hf.mono hmore)
      (harguments.imp fun _ _ hvalue => hvalue.mono hmore) (hfault.begun (.apply hcount hdepth))
  | same hf =>
    cases f with
    | function f => exact absurd rfl (hf f)
    | «class» c =>
      refine .get_bind ?_
      rw [hm.store.className_eq]
      exact .fail hm _ _
    | _ =>
      refine .get_bind ?_
      rw [hdisplay]
      exact .fail hm _ _

theorem apply_succ (h : Alike r n) {f f' : Closure} {arguments arguments' : List Value}
    (hm : m.Renamed r depths k m') (hf : Closure.Renamed r depths f f')
    (harguments : List.Forall₂ (Value.Renamed r depths) arguments arguments')
    (hfault : Faultless (n + 1) (.apply f arguments) m) :
    Agree r depths k (Value.Renamed r) (Run.apply (n + 1) f arguments m)
      (Run.apply (n + 1) f' arguments' m') := by
  obtain ⟨inner, hopened, hbody⟩ := hm.openBody hf harguments
  have hends := h.executeAll hopened hbody (hfault.begun .functionBody)
  rw [Run.apply, Run.apply, newFrame, newFrame, bind_of_ok (withStore_apply _ m),
    bind_of_ok (withStore_apply _ m'), bind_of_ok (modifyStore_apply _ _),
    bind_of_ok (modifyStore_apply _ _)]
  refine .bind (.inFrame hm.current hm.depth (List.prefix_append ..) hends)
    fun flow flow' m₁ m₁' _ _ _ hm₁ hflow => ?_
  cases hflow with
  | normal => exact .pure hm₁ .nil
  | «return» hvalue => exact .pure hm₁ hvalue

theorem execute_succ (h : Alike r n) {s s' : Stmt} (hm : m.Renamed r depths k m')
    (hs : Stmt.Renamed r k s s') (hfault : Faultless (n + 1) (.execute s) m) :
    Agree r depths k (Flow.Renamed r) (Run.execute (n + 1) s m)
      (Run.execute (n + 1) s' m') := by
  cases hs with
  | expression hvalue =>
    refine .bind (h.evaluate hm hvalue (hfault.begun .expression))
      fun _ _ m₁ m₁' _ _ _ hm₁ _ => ?_
    exact .pure hm₁ .normal
  | print hvalue =>
    refine .bind (h.evaluate hm hvalue (hfault.begun .printed))
      fun v v' m₁ m₁' _ _ _ hm₁ hv => .get_bind ?_
    rw [hm₁.store.display_eq hv]
    refine .bind (agree_print hm₁ _ _) fun _ _ m₂ m₂' _ _ _ hm₂ _ => ?_
    exact .pure hm₂ .normal
  | var hname hinitializer =>
    cases hinitializer with
    | none =>
      refine .bind (agree_define hm hname .nil) fun _ _ m₁ m₁' _ _ _ hm₁ _ => ?_
      exact .pure hm₁ .normal
    | some hinitializer =>
      refine .bind (h.evaluate hm hinitializer (hfault.begun .initializer))
        fun v v' m₁ m₁' _ _ _ hm₁ hv => ?_
      refine .bind (agree_define hm₁ hname hv) fun _ _ m₂ m₂' _ _ _ hm₂ _ => ?_
      exact .pure hm₂ .normal
  | block hopens hbody =>
    have hends := h.executeAll (hm.openBlock hopens.outward_eq) hbody (hfault.begun .blockBody)
    rw [Run.execute, Run.execute, bind_of_ok (get_apply m), bind_of_ok (get_apply m'), newFrame,
      newFrame, bind_of_ok (withStore_apply _ m), bind_of_ok (withStore_apply _ m')]
    exact .inFrame hm.current hm.depth (List.prefix_append ..) hends
  | ifThen hcondition hthen =>
    refine .bind (h.evaluate hm hcondition (hfault.begun .condition))
      fun v v' m₁ m₁' _ h₁ _ hm₁ hv => ?_
    rw [hv.isTruthy_eq]
    split
    · next htruthy => exact h.execute hm₁ hthen (hfault.begun (.thenBranch h₁ htruthy))
    · exact .pure hm₁ .normal
  | ifElse hcondition hthen helse =>
    refine .bind (h.evaluate hm hcondition (hfault.begun .condition))
      fun v v' m₁ m₁' _ h₁ _ hm₁ hv => ?_
    rw [hv.isTruthy_eq]
    split
    · next htruthy => exact h.execute hm₁ hthen (hfault.begun (.thenBranch h₁ htruthy))
    · next hfalsy =>
      exact h.execute hm₁ helse (hfault.begun (.elseBranch h₁ (Bool.eq_false_iff.2 hfalsy)))
  | «while» hcondition hbody => exact h.loop hm hcondition hbody (hfault.begun .loop)
  | @function _ decl _ decl' hname hold hdecl =>
    have hclosure : Closure.Renamed r depths ⟨decl, m.current⟩ ⟨decl', m.current⟩ :=
      ⟨rfl, k, hm.depth, hdecl⟩
    have hdefined := agree_define hm hname (.function hclosure)
    refine .get_bind ?_
    rw [hm.current, hdecl.name_eq]
    rw [Renaming.declared_of_imp hold] at hdefined
    refine .bind hdefined fun _ _ m₁ m₁' _ _ _ hm₁ _ => ?_
    exact .pure hm₁ .normal
  | «class» hname hold hmethods =>
    refine .bind (agree_defineClass hm hname hold hmethods) fun _ _ m₁ m₁' _ _ _ hm₁ _ => ?_
    exact .pure hm₁ .normal
  | «return» hvalue =>
    cases hvalue with
    | none => exact .pure hm (.return .nil)
    | some hvalue =>
      refine .bind (h.evaluate hm hvalue (hfault.begun .returned))
        fun v v' m₁ m₁' _ _ _ hm₁ hv => ?_
      exact .pure hm₁ (.return hv)

theorem executeAll_succ (h : Alike r n) {ss ss' : List Stmt} (hm : m.Renamed r depths k m')
    (hss : Stmt.RenamedAll r k ss ss') (hfault : Faultless (n + 1) (.executeAll ss) m) :
    Agree r depths k (Flow.Renamed r) (Run.executeAll (n + 1) ss m)
      (Run.executeAll (n + 1) ss' m') := by
  cases hss with
  | nil => exact .pure hm .normal
  | cons hfirst hothers =>
    refine .bind (h.execute hm hfirst (hfault.begun .firstStmt))
      fun flow flow' m₁ m₁' _ h₁ _ hm₁ hflow => ?_
    cases hflow with
    | normal => exact h.executeAll hm₁ hothers (hfault.begun (.otherStmts h₁))
    | «return» hvalue => exact .pure hm₁ (.return hvalue)

theorem loop_succ (h : Alike r n) {condition condition' : Expr} {body body' : Stmt}
    (hm : m.Renamed r depths k m') (hcondition : Expr.Renamed r k condition condition')
    (hbody : Stmt.Renamed r k body body') (hfault : Faultless (n + 1) (.loop condition body) m) :
    Agree r depths k (Flow.Renamed r) (Run.loop (n + 1) condition body m)
      (Run.loop (n + 1) condition' body' m') := by
  refine .bind (h.evaluate hm hcondition (hfault.begun .test))
    fun v v' m₁ m₁' _ h₁ _ hm₁ hv => ?_
  rw [hv.isTruthy_eq]
  split
  · next htruthy =>
    refine .bind (h.execute hm₁ hbody (hfault.begun (.round h₁ htruthy)))
      fun flow flow' m₂ m₂' _ h₂ _ hm₂ hflow => ?_
    cases hflow with
    | normal => exact h.loop hm₂ hcondition hbody (hfault.begun (.again h₁ htruthy h₂))
    | «return» hvalue => exact .pure hm₂ (.return hvalue)
  · exact .pure hm₁ .normal

end Alike

/-- Renamed code runs alike with every budget. -/
theorem alike (hproper : r.IsProper) (n : Nat) : Alike r n := by
  induction n with
  | zero =>
    exact ⟨fun hm _ _ => .error hm.output, fun hm _ _ => .error hm.output,
      fun _ hm _ _ _ => .error hm.output, fun hm _ _ _ => .error hm.output,
      fun hm _ _ => .error hm.output, fun hm _ _ => .error hm.output,
      fun hm _ _ _ => .error hm.output⟩
  | succ n ih =>
    exact ⟨ih.evaluate_succ hproper, ih.evaluateAll_succ, ih.invoke_succ, ih.apply_succ,
      ih.execute_succ, ih.executeAll_succ, ih.loop_succ⟩

end Lox
