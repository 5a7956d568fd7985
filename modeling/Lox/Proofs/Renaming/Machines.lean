import Lox.Proofs.Renaming.Stores
import Lox.Proofs.Run.Fault

/-!
# Machines of renamed programs

Two machines that run a program and the renamed program have renamed stores and the same
output.  Basic actions on them answer renamed values and leave such machines, or they stop
in the same way (`Agree`).

**Faults.** Where a name is not found, the error carries the name, and would be another one
after renaming.  Names with a distance must therefore be found (`Faultless`).
-/

namespace Lox

open Run

/-- In the course of the task, no expression with a distance misses its name. -/
def Faultless (n : Nat) (t : Task) (m : Machine) : Prop :=
  ∀ k e m' error, Reaches n t m (k + 1) (.evaluate e) m' → Misses k e m' error →
    m'.locals[e.id]? = none

theorem Faultless.begun {n : Nat} {t t' : Task} {m m' : Machine}
    (h : Faultless (n + 1) t m) (henter : Enters n t m t' m') : Faultless n t' m' :=
  fun k e m'' error hreach hmisses => h k e m'' error (hreach.head henter) hmisses

theorem Faultless.isSome_found? {n : Nat} {node : Node} {name : String} {m : Machine}
    (h : Faultless (n + 1) (.evaluate (.variable node name)) m)
    (hlocal : m.locals[node.id]?.isSome) : (found? m name node).isSome := by
  cases hfound : found? m name node with
  | some value => rfl
  | none =>
    have hmisses : lookUp name node m = .error (.error ⟨.undefinedVariable name, node.span⟩) m := by
      simp [lookUp_apply, hfound]
    have hnone : m.locals[node.id]? = none := h _ _ _ _ .refl (.variable hmisses)
    simp [hnone] at hlocal

theorem Faultless.isSome_found?_this {n : Nat} {node : Node} {m : Machine}
    (h : Faultless (n + 1) (.evaluate (.this node)) m)
    (hlocal : m.locals[node.id]?.isSome) : (found? m "this" node).isSome := by
  cases hfound : found? m "this" node with
  | some value => rfl
  | none =>
    have hmisses : lookUp "this" node m =
        .error (.error ⟨.undefinedVariable "this", node.span⟩) m := by
      simp [lookUp_apply, hfound]
    have hnone : m.locals[node.id]? = none := h _ _ _ _ .refl (.this hmisses)
    simp [hnone] at hlocal

theorem Faultless.assigned_fst {n : Nat} {node : Node} {name : String} {value : Expr}
    {v : Value} {m m₁ : Machine} (h : Faultless (n + 1) (.evaluate (.assign node name value)) m)
    (hvalue : evaluate n value m = .ok v m₁) (hlocal : m₁.locals[node.id]?.isSome) :
    (assigned m₁ name node v).1 = true := by
  by_contra hfalse
  have hmisses := assign_apply name node v m₁
  dsimp only at hmisses
  rw [if_neg hfalse] at hmisses
  have hnone : m.locals[node.id]? = none := h _ _ _ _ .refl (.assign hvalue hmisses)
  rw [((Task.keeps n (.evaluate value)).of_ok hvalue).locals, hnone] at hlocal
  cases hlocal

/-- The machines run a program and the renamed program; the current frame has a depth. -/
structure Machine.Renamed (r : Renaming) (depths : List Depth) (k : Depth) (m m' : Machine) :
    Prop where
  /-- The stores are renamed. -/
  store : m.store.Renamed r depths m'.store
  /-- The global frame is the same. -/
  globals : m'.globals = m.globals
  /-- The current frame is the same. -/
  current : m'.current = m.current
  /-- The same distances are known. -/
  locals : m'.locals = m.locals
  /-- The number of calls under way is the same. -/
  callDepth : m'.callDepth = m.callDepth
  /-- The limit is the same. -/
  maxCallDepth : m'.maxCallDepth = m.maxCallDepth
  /-- The output is the same. -/
  output : m'.output = m.output
  /-- The current frame is so many links inside of the renamed scope. -/
  depth : depths[m.current]? = some k
  /-- The global frame does not belong to a renamed scope. -/
  outside : depths[m.globals]? = some none
  /-- The global frame is inside no other one. -/
  outermost : m.store.enclosing? m.globals = none
  /-- The distances are those of the program. -/
  distances : ∀ id : Nat, m.locals[id]? = r.locals[id]?

/-- Two runs answer alike on renamed machines, or they stop alike with the same output. -/
inductive Agree {α : Type} (r : Renaming) (depths : List Depth) (k : Depth)
    (answers : List Depth → α → α → Prop) :
    EStateM.Result Stop Machine α → EStateM.Result Stop Machine α → Prop
  | ok {a a' m m' depths'} :
      depths <+: depths' → m.Renamed r depths' k m' → answers depths' a a' →
      Agree r depths k answers (.ok a m) (.ok a' m')
  | error {stop m m'} :
      m'.output = m.output → Agree r depths k answers (.error stop m) (.error stop m')

/-- The statements end alike. -/
inductive Flow.Renamed (r : Renaming) (depths : List Depth) : Flow → Flow → Prop
  | normal : Flow.Renamed r depths .normal .normal
  | return {value value'} :
      Value.Renamed r depths value value' →
      Flow.Renamed r depths (.return value) (.return value')

variable {r : Renaming} {depths : List Depth} {k : Depth} {m m' : Machine} {α β : Type}

namespace Agree

variable {answers : List Depth → α → α → Prop}

theorem pure (hm : m.Renamed r depths k m') {a a' : α} (ha : answers depths a a') :
    Agree r depths k answers ((Pure.pure a : Run α) m) ((Pure.pure a' : Run α) m') :=
  .ok List.prefix_rfl hm ha

theorem fail (hm : m.Renamed r depths k m') (fault : RuntimeFault) (span : Span) :
    Agree r depths k answers ((Run.fail fault span : Run α) m)
      ((Run.fail fault span : Run α) m') :=
  .error hm.output

theorem more {o o' : EStateM.Result Stop Machine α} {depths' : List Depth}
    (h : Agree r depths' k answers o o') (hmore : depths <+: depths') :
    Agree r depths k answers o o' := by
  cases h with
  | ok hmore' hm ha => exact .ok (hmore.trans hmore') hm ha
  | error houtput => exact .error houtput

theorem bind {x x' : Run α} {f f' : α → Run β} {answers' : List Depth → β → β → Prop}
    (hx : Agree r depths k answers (x m) (x' m'))
    (hf : ∀ a a' m₁ m₁' depths', x m = .ok a m₁ → depths <+: depths' →
      m₁.Renamed r depths' k m₁' → answers depths' a a' →
      Agree r depths' k answers' (f a m₁) (f' a' m₁')) :
    Agree r depths k answers' ((x >>= f) m) ((x' >>= f') m') := by
  generalize h : x m = o at hx
  generalize h' : x' m' = o' at hx
  cases hx with
  | ok hmore hm₁ ha =>
    rw [bind_of_ok h, bind_of_ok h']
    exact (hf _ _ _ _ _ h hmore hm₁ ha).more hmore
  | error houtput =>
    rw [bind_of_error h, bind_of_error h']
    exact .error houtput

theorem get_bind {f f' : Machine → Run α} (h : Agree r depths k answers (f m m) (f' m' m')) :
    Agree r depths k answers ((get >>= f) m) ((get >>= f') m') := by
  rw [bind_of_ok (get_apply m), bind_of_ok (get_apply m')]
  exact h

/-- An action in another frame, which has a depth of its own. -/
theorem inFrame {x x' : Run α} {frame frame' : FrameId} {inner : Depth}
    {depths' : List Depth} (hcurrent : m'.current = m.current)
    (hdepth : depths[m.current]? = some k) (hmore : depths <+: depths')
    (hx : Agree r depths' inner answers (x { m with current := frame })
      (x' { m' with current := frame' })) :
    Agree r depths k answers (Run.inFrame frame x m) (Run.inFrame frame' x' m') := by
  generalize h : x { m with current := frame } = o at hx
  generalize h' : x' { m' with current := frame' } = o' at hx
  cases hx with
  | ok hmore' hm₁ ha =>
    have hall := hmore.trans hmore'
    rw [inFrame_of_ok h, inFrame_of_ok h']
    exact .ok hall { hm₁ with current := hcurrent, depth := depth_mono hall hdepth } ha
  | error houtput =>
    rw [inFrame_of_error h, inFrame_of_error h']
    exact .error houtput

theorem inCall {x x' : Run α} (hx : Agree r depths k answers (x m.beginCall) (x' m'.beginCall)) :
    Agree r depths k answers (Run.inCall x m) (Run.inCall x' m') := by
  generalize h : x m.beginCall = o at hx
  generalize h' : x' m'.beginCall = o' at hx
  cases hx with
  | ok hmore hm₁ ha =>
    rw [inCall_of_ok h, inCall_of_ok h']
    exact .ok hmore { hm₁ with callDepth := congrArg (· - 1) hm₁.callDepth } ha
  | error houtput =>
    rw [inCall_of_error h, inCall_of_error h']
    exact .error houtput

end Agree

/-! ## Machines -/

namespace Machine.Renamed

theorem withStore {depths' : List Depth} {s s' : Store} (hm : m.Renamed r depths k m')
    (hmore : depths <+: depths') (hgrows : m.store.Grows s) (hs : s.Renamed r depths' s') :
    Machine.Renamed r depths' k { m with store := s } { m' with store := s' } where
  store := hs
  globals := hm.globals
  current := hm.current
  locals := hm.locals
  callDepth := hm.callDepth
  maxCallDepth := hm.maxCallDepth
  output := hm.output
  depth := depth_mono hmore hm.depth
  outside := depth_mono hmore hm.outside
  outermost := (hgrows.enclosing?_eq _ (hm.store.lt_size hm.outside)).trans hm.outermost
  distances := hm.distances

/-- A block makes a frame that may belong to a renamed scope. -/
theorem openBlock (hm : m.Renamed r depths k m') {inner : Depth} (hinner : inner.outward = k) :
    m.openBlock.Renamed r (depths ++ [inner]) inner m'.openBlock := by
  have hframe := hm.store.addFrame (some m.current) (k := inner) (by simp [hm.depth, hinner])
  have hopened := hm.withStore (List.prefix_append _ _) (.addFrame _ _) hframe
  refine { hopened with store := ?_, current := hm.store.size_eq, depth := ?_ }
  · rw [Machine.openBlock, Machine.openBlock, hm.current]
    exact hframe
  · show (depths ++ [inner])[m.store.frames.size]? = some inner
    rw [hm.store.size, List.getElem?_concat_length]

/-- So does the call of a function. -/
theorem openBody (hm : m.Renamed r depths k m') {f f' : Closure}
    (hf : f.Renamed r depths f') {arguments arguments' : List Value}
    (harguments : List.Forall₂ (Value.Renamed r depths) arguments arguments') :
    ∃ inner, (m.openBody f arguments).Renamed r (depths ++ [inner]) inner
        (m'.openBody f' arguments') ∧
      Stmt.RenamedAll r inner f.decl.body f'.decl.body := by
  obtain ⟨hframe, kf, hkf, hdecl⟩ := hf
  obtain ⟨inner, hinner, hparams, hnew, hbody⟩ := hdecl.inside
  have hmore : depths <+: depths ++ [inner] := List.prefix_append ..
  have hadded := hm.store.addFrame (some f.frame) (k := inner) (by simp [hkf, hinner])
  have hlast : (depths ++ [inner])[m.store.frames.size]? = some inner := by
    rw [hm.store.size, List.getElem?_concat_length]
  have hbound := hadded.defineAll hlast hnew
    (harguments.imp fun _ _ hvalue => hvalue.mono hmore)
  have hopened := hm.withStore hmore ((Store.Grows.addFrame _ _).trans (.defineAll _ _ _ _)) hbound
  refine ⟨inner, { hopened with store := ?_, current := hm.store.size_eq, depth := hlast }, hbody⟩
  rw [Machine.openBody, Machine.openBody, hframe, hparams, hm.store.size_eq]
  exact hbound

theorem beginCall (hm : m.Renamed r depths k m') :
    m.beginCall.Renamed r depths k m'.beginCall :=
  { hm with callDepth := congrArg (· + 1) hm.callDepth }

/-- A name is found under what stands at the occurrence after renaming. -/
theorem found? (hm : m.Renamed r depths k m') (node : Node) {name : String}
    (hname : name ≠ r.new) :
    Option.Rel (Value.Renamed r depths) (Run.found? m name node)
      (Run.found? m' (r.used k node name) node) := by
  unfold Run.found?
  rw [hm.locals, hm.current, hm.globals, hm.distances, Renaming.used]
  cases r.locals[node.id]? with
  | some d => exact hm.store.getAt? hm.depth hname
  | none =>
    have hlt := hm.store.lt_size hm.outside
    dsimp only
    rw [Renaming.spelled_none, Store.get?_of_outermost hlt hm.outermost,
      Store.get?_of_outermost (hm.store.size_eq ▸ hlt)
        ((hm.store.enclosing _).trans hm.outermost)]
    have hbound := hm.store.bindings _ none name hm.outside hname
    rwa [Renaming.declared_of_ne_zero (by simp)] at hbound

end Machine.Renamed

/-! ## Basic actions -/

theorem agree_lookUp (hm : m.Renamed r depths k m') (node : Node) {name : String}
    (hname : name ≠ r.new)
    (hfound : m.locals[node.id]?.isSome → (found? m name node).isSome) :
    Agree r depths k (Value.Renamed r) (lookUp name node m)
      (lookUp (r.used k node name) node m') := by
  have hrel := hm.found? node hname
  rw [lookUp_apply, lookUp_apply]
  generalize found? m name node = value at hrel hfound ⊢
  generalize found? m' (r.used k node name) node = value' at hrel ⊢
  cases hrel with
  | some hvalue => exact .ok List.prefix_rfl hm hvalue
  | none =>
    -- the name has no distance, so that it is not renamed
    have hnone : r.locals[node.id]? = none := by
      rw [← hm.distances, ← Option.not_isSome_iff_eq_none]
      exact fun hlocal => absurd (hfound hlocal) (by simp)
    rw [Renaming.used_of_global hnone]
    exact .error hm.output

/-- An assignment finds its variable if the other one does. -/
theorem assigned_renamed (hm : m.Renamed r depths k m') (node : Node) {name : String}
    (hname : name ≠ r.new) {value value' : Value} (hvalue : value.Renamed r depths value') :
    (assigned m' (r.used k node name) node value').1 = (assigned m name node value).1 ∧
      (assigned m name node value).2.Renamed r depths
        (assigned m' (r.used k node name) node value').2 := by
  unfold assigned
  rw [hm.locals, hm.current, hm.globals, hm.distances, Renaming.used]
  cases r.locals[node.id]? with
  | some d => exact hm.store.assignAt hm.depth hname hvalue
  | none =>
    dsimp only
    rw [Renaming.spelled_none]
    exact hm.store.assign hm.outside hm.outermost hname hvalue

theorem agree_assign (hm : m.Renamed r depths k m') {node : Node} {name : String}
    (hname : name ≠ r.new) {value value' : Value} (hvalue : value.Renamed r depths value')
    (hfound : m.locals[node.id]?.isSome → (assigned m name node value).1 = true) :
    Agree r depths k (fun _ _ _ => True) (assign name node value m)
      (assign (r.used k node name) node value' m') := by
  obtain ⟨hfst, hstore⟩ := assigned_renamed hm node hname hvalue
  have hgrows := grows_assigned m name node value
  rw [assign_apply, assign_apply, hfst]
  dsimp only
  split
  · exact .ok List.prefix_rfl (hm.withStore List.prefix_rfl hgrows hstore) trivial
  · next hmissed =>
    have hnone : r.locals[node.id]? = none := by
      rw [← hm.distances, ← Option.not_isSome_iff_eq_none]
      exact fun hlocal => hmissed (hfound hlocal)
    rw [Renaming.used_of_global hnone]
    exact .error hm.output

theorem agree_checkCall (hm : m.Renamed r depths k m') (arity count : Nat) (paren : Span) :
    Agree r depths k (fun _ _ _ => True) (checkCall arity count paren m)
      (checkCall arity count paren m') := by
  rw [checkCall_apply, checkCall_apply, hm.maxCallDepth, hm.callDepth]
  split
  · exact .error hm.output
  · split
    · exact .error hm.output
    · exact .ok List.prefix_rfl hm trivial

theorem agree_print (hm : m.Renamed r depths k m') (line : String) (span : Span) :
    Agree r depths k (fun _ _ _ => True) (print line span m) (print line span m') := by
  rw [print_apply, print_apply, hm.output]
  dsimp only
  split
  · exact .ok List.prefix_rfl { hm with output := rfl } trivial
  · exact .error rfl

theorem agree_check (hm : m.Renamed r depths k m') (span : Span)
    {answer : Except RuntimeFault Value}
    (hanswer : ∀ value, answer = .ok value → ∀ f, value ≠ .function f) :
    Agree r depths k (Value.Renamed r) (check span answer m) (check span answer m') := by
  cases answer with
  | ok value => exact .pure hm (.same (hanswer value rfl))
  | error fault => exact .fail hm fault span

theorem agree_define (hm : m.Renamed r depths k m') {name : String} (hname : name ≠ r.new)
    {value value' : Value} (hvalue : value.Renamed r depths value') :
    Agree r depths k (fun _ _ _ => True) (define name value m)
      (define (r.declared k name) value' m') := by
  have hdefined : (m.store.define m.current name value).Renamed r depths
      (m'.store.define m'.current (r.declared k name) value') := by
    rw [hm.current]
    exact hm.store.define hm.depth hname hvalue
  exact .ok List.prefix_rfl (hm.withStore List.prefix_rfl (.define _ _ _ _) hdefined) trivial

theorem agree_defineClass (hm : m.Renamed r depths k m') {name : String}
    (hname : name ≠ r.new) (hold : k = some 0 → name ≠ r.old)
    {methods methods' : List FunctionDecl}
    (hmethods : FunctionDecl.RenamedAll r k.inward methods methods') :
    Agree r depths k (fun _ _ _ => True) (defineClass name methods m)
      (defineClass name methods' m') := by
  have hgrows : m.store.Grows (declaredClass m.store m.current name methods) :=
    (Store.Grows.define _ _ _ _).trans ((Store.Grows.addClass _ _).trans (.define _ _ _ _))
  have hdeclared : (declaredClass m.store m.current name methods).Renamed r depths
      (declaredClass m'.store m'.current name methods') := by
    rw [hm.current]
    exact hm.store.declaredClass hm.depth hname hold hmethods
  rw [defineClass_apply, defineClass_apply]
  exact .ok List.prefix_rfl (hm.withStore List.prefix_rfl hgrows hdeclared) trivial

theorem agree_property (hm : m.Renamed r depths k m') (hproper : r.IsProper)
    {object object' : Value} (hobject : object.Renamed r depths object') (name : String)
    (nameSpan : Span) :
    Agree r depths k (Value.Renamed r) (property object name nameSpan m)
      (property object' name nameSpan m') := by
  cases hobject with
  | function hf => exact .fail hm _ _
  | same hobject =>
    cases object with
    | «instance» i =>
      obtain ⟨depths', hmore, hstore, hvalue⟩ := hm.store.property hproper i name
      have hm₁ := hm.withStore hmore (.property m.store i name) hstore
      unfold property
      dsimp only
      rw [bind_of_ok (withStore_apply _ m), bind_of_ok (withStore_apply _ m')]
      generalize (m.store.property i name).1 = value at hvalue ⊢
      generalize (m'.store.property i name).1 = value' at hvalue ⊢
      cases hvalue with
      | some hvalue => exact .ok hmore hm₁ hvalue
      | none => exact .error hm.output
    | _ => exact .fail hm _ _

theorem agree_instantiate (hm : m.Renamed r depths k m') {callee callee' : Value}
    (hcallee : callee.Renamed r depths callee') {arguments arguments' : List Value}
    (hcount : arguments'.length = arguments.length) (paren : Span) :
    Agree r depths k (Value.Renamed r) (instantiate callee arguments paren m)
      (instantiate callee' arguments' paren m') := by
  have hdisplay := hm.store.display_eq hcallee
  cases hcallee with
  | function hf =>
    refine .get_bind ?_
    rw [hdisplay]
    exact .fail hm _ _
  | same hcallee =>
    cases callee with
    | «class» c =>
      unfold instantiate
      rw [hcount]
      refine .bind (agree_checkCall hm _ _ _) fun _ _ m₁ m₁' depths' _ _ hm₁ _ => .inCall ?_
      have hadded := hm₁.beginCall.store.addInstance c
      have hmade := hm₁.beginCall.withStore List.prefix_rfl (.addInstance _ _) hadded
      rw [bind_of_ok (withStore_apply _ _), bind_of_ok (withStore_apply _ _)]
      have hnumber : (m₁'.beginCall.store.addInstance c).1 = (m₁.beginCall.store.addInstance c).1 :=
        hm₁.store.instanceCount
      rw [hnumber]
      exact .ok List.prefix_rfl hmade (.instance _)
    | _ =>
      refine .get_bind ?_
      rw [hdisplay]
      exact .fail hm _ _

end Lox
