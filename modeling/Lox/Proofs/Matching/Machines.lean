import Lox.Proofs.Matching.Stores
import Lox.Proofs.Run.Printing

/-!
# Machines in step

Two machines run matching programs in step: their stores match, the same names have the same
distances, and limits and outputs are related in a given way (`Coupling`).

**Cuts.** The first machine may stop short where the second one goes on: its budget, its
limit or its output may not suffice.  A coupling says which stops are such cuts, and what
they promise of the outputs, however much the second machine prints after them.
-/

namespace Lox

open Run

/-- How two machines are related that run in step. -/
structure Coupling where
  /-- Which numbers and places correspond. -/
  matching : Matching
  /-- By how much the second budget is larger. -/
  slack : Nat
  /-- How the limits are related. -/
  limit : Nat → Nat → Prop
  /-- How the outputs are related. -/
  output : Output → Output → Prop
  /-- The stops at which the first machine is cut short, with its output and the one of the
  second machine at the end. -/
  cut : Stop → Output → Output → Prop

/-- What a coupling needs so that code keeps it up. -/
structure Coupling.IsLawful (c : Coupling) : Prop where
  /-- Functions are not confused. -/
  injective : c.matching.IsInjective
  /-- Both machines print the same line, or the first one is cut short by it. -/
  print : ∀ o o' line, c.output o o' →
    ((o.print line).1 = (o'.print line).1 ∧ c.output (o.print line).2 (o'.print line).2) ∨
    ((o.print line).1 = false ∧ ∀ span, c.cut (.error ⟨.outputFailed "sink full", span⟩)
      (o.print line).2 (o'.print line).2)
  /-- The budgets are the same, or a smaller one cuts the first machine short. -/
  exhausted : c.slack = 0 ∨ ∀ o o', c.output o o' → c.cut .exhausted o o'
  /-- The limits are the same, or a smaller one cuts the first machine short. -/
  overflow : ∀ l l', c.limit l l' → l = l' ∨
    l ≤ l' ∧ ∀ o o' span, c.output o o' → c.cut (.error ⟨.stackOverflow, span⟩) o o'
  /-- What the second machine prints later does not matter. -/
  grows : ∀ stop o o' o'', c.cut stop o o' → o'.Grows o'' → c.cut stop o o''

/-- The machines run in step. -/
structure Machine.Coupled (c : Coupling) (m m' : Machine) : Prop where
  /-- The stores match. -/
  store : m.store.Matches c.matching m'.store
  /-- The global frame is the same. -/
  globals : m'.globals = m.globals
  /-- The current frame is the same. -/
  current : m'.current = m.current
  /-- Corresponding expressions have the same distance. -/
  locals : ∀ i i', c.matching.node i i' → m'.locals[i']? = m.locals[i]?
  /-- The number of calls under way is the same. -/
  callDepth : m'.callDepth = m.callDepth
  /-- The limits are related. -/
  maxCallDepth : c.limit m.maxCallDepth m'.maxCallDepth
  /-- The outputs are related. -/
  output : c.output m.output m'.output

/-- The machines stop for the same reason. -/
inductive Stop.Matches (μ : Matching) : Stop → Stop → Prop
  | error {fault span span'} : μ.span span span' →
      Stop.Matches μ (.error ⟨fault, span⟩) (.error ⟨fault, span'⟩)
  | exhausted : Stop.Matches μ .exhausted .exhausted

/-- The machine in which a run ends. -/
def machineOf {α : Type} : EStateM.Result Stop Machine α → Machine
  | .ok _ m => m
  | .error _ m => m

theorem machineOf_apply {α : Type} (x : Run α) (m : Machine) : machineOf (x m) = endState x m := by
  unfold machineOf endState
  cases x m <;> rfl

/-- Two runs answer alike or stop alike, and the machines stay in step, or the first one is
cut short. -/
inductive Couples {α : Type} (c : Coupling) (answers : α → α → Prop) :
    EStateM.Result Stop Machine α → EStateM.Result Stop Machine α → Prop
  | ok {a a' m m'} : m.Coupled c m' → answers a a' → Couples c answers (.ok a m) (.ok a' m')
  | error {stop stop' m m'} : m.Coupled c m' → stop.Matches c.matching stop' →
      Couples c answers (.error stop m) (.error stop' m')
  | cut {stop m o'} : c.cut stop m.output (machineOf o').output →
      Couples c answers (.error stop m) o'

/-- The statements end alike. -/
inductive Flow.Matches (μ : Matching) : Flow → Flow → Prop
  | normal : Flow.Matches μ .normal .normal
  | return {value value'} :
      Value.Matches μ value value' → Flow.Matches μ (.return value) (.return value')

variable {c : Coupling} {m m' : Machine} {α β : Type}

namespace Couples

variable {answers : α → α → Prop} {answers' : β → β → Prop}

theorem pure (hm : m.Coupled c m') {a a' : α} (ha : answers a a') :
    Couples c answers ((Pure.pure a : Run α) m) ((Pure.pure a' : Run α) m') := .ok hm ha

theorem fail (hm : m.Coupled c m') (fault : RuntimeFault) {span span' : Span}
    (hspan : c.matching.span span span') :
    Couples c answers ((Run.fail fault span : Run α) m) ((Run.fail fault span' : Run α) m') :=
  .error hm (.error hspan)

/-- A smaller budget is used up first. -/
theorem exhausted (hc : c.IsLawful) (hm : m.Coupled c m') (x' : Nat → Run α)
    (hzero : x' 0 = throw .exhausted) (honward : Onward (x' c.slack)) :
    Couples c answers ((throw Stop.exhausted : Run α) m) (x' c.slack m') := by
  rcases hc.exhausted with hslack | hcut
  · rw [hslack, hzero]
    exact .error hm .exhausted
  · have hgrows := honward.grows m'
    rw [← machineOf_apply] at hgrows
    exact .cut (hc.grows _ _ _ _ (hcut _ _ hm.output) hgrows)

/-- If the first machine is cut short, whatever follows on the second one only prints. -/
theorem bindOnward (hc : c.IsLawful) {x x' : Run α} {f f' : α → Run β}
    (honward : ∀ a', Onward (f' a')) (hx : Couples c answers (x m) (x' m'))
    (hf : ∀ a a' m₁ m₁', m₁.Coupled c m₁' → answers a a' →
      Couples c answers' (f a m₁) (f' a' m₁')) :
    Couples c answers' ((x >>= f) m) ((x' >>= f') m') := by
  generalize h : x m = o at hx
  generalize h' : x' m' = o' at hx
  cases hx with
  | ok hm₁ ha =>
    rw [bind_of_ok h, bind_of_ok h']
    exact hf _ _ _ _ hm₁ ha
  | error hm₁ hstop =>
    rw [bind_of_error h, bind_of_error h']
    exact .error hm₁ hstop
  | cut hcut =>
    rw [bind_of_error h]
    cases o' with
    | ok a' m₁' =>
      have hgrows := (honward a').grows m₁'
      rw [← machineOf_apply] at hgrows
      rw [bind_of_ok h']
      exact .cut (hc.grows _ _ _ _ hcut hgrows)
    | error stop' m₁' =>
      rw [bind_of_error h']
      exact .cut hcut

theorem bind (hc : c.IsLawful) {x x' : Run α} {f f' : α → Run β} [∀ a', Onward (f' a')]
    (hx : Couples c answers (x m) (x' m'))
    (hf : ∀ a a' m₁ m₁', m₁.Coupled c m₁' → answers a a' →
      Couples c answers' (f a m₁) (f' a' m₁')) :
    Couples c answers' ((x >>= f) m) ((x' >>= f') m') :=
  bindOnward hc (fun _ => inferInstance) hx hf

theorem get_bind {f f' : Machine → Run α} (h : Couples c answers (f m m) (f' m' m')) :
    Couples c answers ((get >>= f) m) ((get >>= f') m') := by
  rw [bind_of_ok (get_apply m), bind_of_ok (get_apply m')]
  exact h

theorem inFrame {x x' : Run α} {frame frame' : FrameId} (hcurrent : m'.current = m.current)
    (hx : Couples c answers (x { m with current := frame })
      (x' { m' with current := frame' })) :
    Couples c answers (Run.inFrame frame x m) (Run.inFrame frame' x' m') := by
  generalize h : x { m with current := frame } = o at hx
  generalize h' : x' { m' with current := frame' } = o' at hx
  cases hx with
  | ok hm₁ ha =>
    rw [inFrame_of_ok h, inFrame_of_ok h']
    exact .ok { hm₁ with current := hcurrent } ha
  | error hm₁ hstop =>
    rw [inFrame_of_error h, inFrame_of_error h']
    exact .error { hm₁ with current := hcurrent } hstop
  | cut hcut =>
    rw [inFrame_of_error h]
    cases o' with
    | ok a' m₁' =>
      rw [inFrame_of_ok h']
      exact .cut hcut
    | error stop' m₁' =>
      rw [inFrame_of_error h']
      exact .cut hcut

theorem inCall {x x' : Run α} (hx : Couples c answers (x m.beginCall) (x' m'.beginCall)) :
    Couples c answers (Run.inCall x m) (Run.inCall x' m') := by
  generalize h : x m.beginCall = o at hx
  generalize h' : x' m'.beginCall = o' at hx
  cases hx with
  | ok hm₁ ha =>
    rw [inCall_of_ok h, inCall_of_ok h']
    exact .ok { hm₁ with callDepth := congrArg (· - 1) hm₁.callDepth } ha
  | error hm₁ hstop =>
    rw [inCall_of_error h, inCall_of_error h']
    exact .error { hm₁ with callDepth := congrArg (· - 1) hm₁.callDepth } hstop
  | cut hcut =>
    rw [inCall_of_error h]
    cases o' with
    | ok a' m₁' =>
      rw [inCall_of_ok h']
      exact .cut hcut
    | error stop' m₁' =>
      rw [inCall_of_error h']
      exact .cut hcut

end Couples

/-! ## Machines -/

namespace Machine.Coupled

theorem withStore {s s' : Store} (hm : m.Coupled c m') (hs : s.Matches c.matching s') :
    Machine.Coupled c { m with store := s } { m' with store := s' } :=
  { hm with store := hs }

theorem beginCall (hm : m.Coupled c m') : m.beginCall.Coupled c m'.beginCall :=
  { hm with callDepth := congrArg (· + 1) hm.callDepth }

/-- Both machines open a block at the same place. -/
theorem openBlock (hm : m.Coupled c m') : m.openBlock.Coupled c m'.openBlock := by
  have hframe := hm.store.addFrame (some m.current)
  refine { hm with store := ?_, current := hm.store.frameCount }
  rw [Machine.openBlock, Machine.openBlock, hm.current]
  exact hframe

/-- Both machines open the body of a function at the same place. -/
theorem openBody (hm : m.Coupled c m') {f f' : Closure} (hf : f.Matches c.matching f')
    {arguments arguments' : List Value}
    (harguments : List.Forall₂ (Value.Matches c.matching) arguments arguments') :
    (m.openBody f arguments).Coupled c (m'.openBody f' arguments') := by
  have hbound := (hm.store.addFrame (some f.frame)).defineAll m.store.frames.size f.decl.params
    harguments
  refine { hm with store := ?_, current := hm.store.frameCount }
  rw [Machine.openBody, Machine.openBody, hf.frame, hf.decl.params_eq, hm.store.frameCount]
  exact hbound

theorem found? (hm : m.Coupled c m') {node node' : Node} (hnode : node.Matches c.matching node')
    (name : String) :
    Option.Rel (Value.Matches c.matching) (Run.found? m name node) (Run.found? m' name node') := by
  unfold Run.found?
  rw [hm.locals _ _ hnode.id, hm.current, hm.globals]
  cases m.locals[node.id]? with
  | some d => exact hm.store.getAt? _ _ _
  | none => exact hm.store.get? _ _

theorem assigned (hm : m.Coupled c m') {node node' : Node}
    (hnode : node.Matches c.matching node') (name : String) {value value' : Value}
    (hvalue : value.Matches c.matching value') :
    (Run.assigned m' name node' value').1 = (Run.assigned m name node value).1 ∧
      (Run.assigned m name node value).2.Matches c.matching
        (Run.assigned m' name node' value').2 := by
  unfold Run.assigned
  rw [hm.locals _ _ hnode.id, hm.current, hm.globals]
  cases m.locals[node.id]? with
  | some d => exact hm.store.assignAt _ _ _ hvalue
  | none => exact hm.store.assign _ _ hvalue

end Machine.Coupled

/-! ## Basic actions -/

section

variable (hm : m.Coupled c m')
include hm

theorem couples_check {span span' : Span} (hspan : c.matching.span span span')
    {answer : Except RuntimeFault Value}
    (hanswer : ∀ value, answer = .ok value → ∀ f, value ≠ .function f) :
    Couples c (Value.Matches c.matching) (check span answer m) (check span' answer m') := by
  cases answer with
  | ok value => exact .pure hm (.same (hanswer value rfl))
  | error fault => exact .fail hm fault hspan

theorem couples_lookUp {node node' : Node} (hnode : node.Matches c.matching node')
    (name : String) :
    Couples c (Value.Matches c.matching) (lookUp name node m) (lookUp name node' m') := by
  have hfound := hm.found? hnode name
  rw [lookUp_apply, lookUp_apply]
  generalize found? m name node = value at hfound ⊢
  generalize found? m' name node' = value' at hfound ⊢
  cases hfound with
  | some hvalue => exact .ok hm hvalue
  | none => exact .error hm (.error hnode.span)

theorem couples_assign {node node' : Node} (hnode : node.Matches c.matching node')
    (name : String) {value value' : Value} (hvalue : value.Matches c.matching value') :
    Couples c (fun _ _ => True) (assign name node value m) (assign name node' value' m') := by
  obtain ⟨hfound, hstore⟩ := hm.assigned hnode name hvalue
  rw [assign_apply, assign_apply, hfound]
  dsimp only
  split
  · exact .ok (hm.withStore hstore) trivial
  · exact .error (hm.withStore hstore) (.error hnode.span)

/-- A smaller limit is reached first. -/
theorem couples_checkCall (hc : c.IsLawful) (arity count : Nat) {paren paren' : Span}
    (hspan : c.matching.span paren paren') :
    Couples c (fun _ _ => True) (checkCall arity count paren m)
      (checkCall arity count paren' m') := by
  rw [checkCall_apply, checkCall_apply, hm.callDepth]
  split
  · exact .error hm (.error hspan)
  · rcases hc.overflow _ _ hm.maxCallDepth with hlimit | ⟨hlimit, hcut⟩
    · rw [← hlimit]
      split
      · exact .error hm (.error hspan)
      · exact .ok hm trivial
    · by_cases hfull : m.maxCallDepth ≤ m.callDepth
      · rw [if_pos hfull]
        apply Couples.cut
        split <;> exact hcut _ _ _ hm.output
      · have hfree : ¬ m'.maxCallDepth ≤ m.callDepth :=
          fun h => hfull (Nat.le_trans hlimit h)
        rw [if_neg hfull, if_neg hfree]
        exact .ok hm trivial

theorem couples_print (hc : c.IsLawful) (line : String) {span span' : Span}
    (hspan : c.matching.span span span') :
    Couples c (fun _ _ => True) (print line span m) (print line span' m') := by
  rw [print_apply, print_apply]
  dsimp only
  rcases hc.print _ _ line hm.output with ⟨htaken, houtput⟩ | ⟨hmissed, hcut⟩
  · rw [← htaken]
    split
    · exact .ok { hm with output := houtput } trivial
    · exact .error { hm with output := houtput } (.error hspan)
  · rw [if_neg (by simp [hmissed])]
    apply Couples.cut
    split <;> exact hcut span

theorem couples_define (name : String) {value value' : Value}
    (hvalue : value.Matches c.matching value') :
    Couples c (fun _ _ => True) (define name value m) (define name value' m') := by
  have hdefined : (m.store.define m.current name value).Matches c.matching
      (m'.store.define m'.current name value') := by
    rw [hm.current]
    exact hm.store.define m.current name hvalue
  rw [define_apply, define_apply]
  exact .ok (hm.withStore hdefined) trivial

theorem couples_defineClass (name : String) {methods methods' : List FunctionDecl}
    (hmethods : FunctionDecl.MatchesAll c.matching methods methods') :
    Couples c (fun _ _ => True) (defineClass name methods m) (defineClass name methods' m') := by
  have hdeclared : (declaredClass m.store m.current name methods).Matches c.matching
      (declaredClass m'.store m'.current name methods') := by
    rw [hm.current]
    exact hm.store.declaredClass m.current name hmethods
  rw [defineClass_apply, defineClass_apply]
  exact .ok (hm.withStore hdeclared) trivial

theorem couples_property {object object' : Value} (hobject : object.Matches c.matching object')
    (name : String) {nameSpan nameSpan' : Span} (hspan : c.matching.span nameSpan nameSpan') :
    Couples c (Value.Matches c.matching) (property object name nameSpan m)
      (property object' name nameSpan' m') := by
  cases hobject with
  | function hf => exact .fail hm _ hspan
  | same hobject =>
    cases object with
    | «instance» i =>
      obtain ⟨hvalue, hstore⟩ := hm.store.property i name
      have hm₁ := hm.withStore hstore
      unfold property
      dsimp only
      rw [bind_of_ok (withStore_apply _ m), bind_of_ok (withStore_apply _ m')]
      generalize (m.store.property i name).1 = value at hvalue ⊢
      generalize (m'.store.property i name).1 = value' at hvalue ⊢
      cases hvalue with
      | some hvalue => exact .ok hm₁ hvalue
      | none => exact .error hm₁ (.error hspan)
    | _ => exact .fail hm _ hspan

theorem couples_instantiate (hc : c.IsLawful) {callee callee' : Value}
    (hcallee : callee.Matches c.matching callee') {arguments arguments' : List Value}
    (hcount : arguments'.length = arguments.length) {paren paren' : Span}
    (hspan : c.matching.span paren paren') :
    Couples c (Value.Matches c.matching) (instantiate callee arguments paren m)
      (instantiate callee' arguments' paren' m') := by
  have hdisplay := hm.store.display_eq hcallee
  cases hcallee with
  | function hf =>
    apply Couples.get_bind
    rw [hdisplay]
    exact .fail hm _ hspan
  | same hcallee =>
    cases callee with
    | «class» cls =>
      unfold instantiate
      rw [hcount]
      refine .bind hc (couples_checkCall hm hc _ _ hspan) fun _ _ m₁ m₁' hm₁ _ => .inCall ?_
      have hmade := hm₁.beginCall.withStore (hm₁.beginCall.store.addInstance cls)
      have hnumber : (m₁'.beginCall.store.addInstance cls).1 =
          (m₁.beginCall.store.addInstance cls).1 := hm₁.store.instanceCount
      rw [bind_of_ok (withStore_apply _ _), bind_of_ok (withStore_apply _ _), hnumber]
      exact .ok hmade (.instance _)
    | _ =>
      apply Couples.get_bind
      rw [hdisplay]
      exact .fail hm _ hspan

end

end Lox
