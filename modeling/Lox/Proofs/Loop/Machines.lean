import Lox.Proofs.Loop.Stores
import Lox.Proofs.Run.Steady
import Lox.Proofs.Value

/-!
# Machines of both readings

A machine that runs programs by their trees and one that reads `for` statements directly have
stores with the same objects, the same output and as many calls under way.  They know different
distances, each those of its own places.  A basic action that both of them do, at aligned
frames, ends in the same way on both and leaves such machines again (`Agrees`).
-/

namespace Lox

open Run

section

variable (known : Occurrence → Prop)

/-- The machines differ in frames of rounds and in distances only. -/
structure Machine.ReadAs (m m' : Machine) : Prop where
  /-- The stores hold the same objects. -/
  store : m.store.ReadAs known m.globals m'.store
  /-- The global frame is the same. -/
  globals : m'.globals = m.globals
  /-- The number of calls under way is the same. -/
  callDepth : m'.callDepth = m.callDepth
  /-- The limit is the same. -/
  maxCallDepth : m'.maxCallDepth = m.maxCallDepth
  /-- The output is the same. -/
  output : m'.output = m.output
  /-- One machine knows the distances that the places give. -/
  locals : ∀ o, known o → o.IsAddressed m.locals
  /-- The other one knows those without the scopes of rounds. -/
  locals' : ∀ o, known o → o.direct.IsAddressed m'.locals

/-- The current chains are aligned with a place at which the occurrences are known. -/
def Machine.AlignedAt (m m' : Machine) (place : Place) (os : List Occurrence) : Prop :=
  Aligned m.globals m.store m'.store place m.current m'.current ∧ ∀ o ∈ os, known o

/-- The value does not tell the machines apart. -/
def Machine.Shares (m m' : Machine) (value : Value) : Prop :=
  value.Aligned known m.globals m.store m'.store

/-- Both machines answer the same, or both stop with the same. -/
inductive Agrees {α : Type} (answers : Machine → Machine → α → Prop) :
    EStateM.Result Stop Machine α → EStateM.Result Stop Machine α → Prop
  | ok {a m m'} : m.ReadAs known m' → answers m m' a → Agrees answers (.ok a m) (.ok a m')
  | error {stop m m'} : m.ReadAs known m' → Agrees answers (.error stop m) (.error stop m')

end

variable {known : Occurrence → Prop} {m m' m₁ m₁' : Machine} {α β : Type}

namespace Machine

theorem AlignedAt.steady {place : Place} {os : List Occurrence}
    (h : m.AlignedAt known m' place os) (hs : m.Steady m₁) (hs' : m'.Steady m₁') :
    m₁.AlignedAt known m₁' place os := by
  obtain ⟨haligned, hknown⟩ := h
  refine ⟨?_, hknown⟩
  rw [hs.globals, hs.current, hs'.current]
  exact haligned.grow hs.store hs'.store

theorem AlignedAt.subset {place : Place} {os os' : List Occurrence}
    (h : m.AlignedAt known m' place os) (hos : ∀ o ∈ os', o ∈ os) :
    m.AlignedAt known m' place os' :=
  ⟨h.1, fun o ho => h.2 o (hos o ho)⟩

theorem AlignedAt.left {place : Place} {os os' : List Occurrence}
    (h : m.AlignedAt known m' place (os ++ os')) : m.AlignedAt known m' place os :=
  h.subset fun _ ho => List.mem_append_left _ ho

theorem AlignedAt.right {place : Place} {os os' : List Occurrence}
    (h : m.AlignedAt known m' place (os ++ os')) : m.AlignedAt known m' place os' :=
  h.subset fun _ ho => List.mem_append_right _ ho

theorem Shares.steady {value : Value} (h : m.Shares known m' value) (hs : m.Steady m₁)
    (hs' : m'.Steady m₁') : m₁.Shares known m₁' value := by
  rw [Shares, hs.globals]
  exact Value.Aligned.grow h hs.store hs'.store

namespace ReadAs

theorem withStore (hm : m.ReadAs known m') {s s' : Store}
    (hs : s.ReadAs known m.globals s') :
    Machine.ReadAs known { m with store := s } { m' with store := s' } :=
  { hm with store := hs }

theorem inFrame (hm : m.ReadAs known m') (frame frame' : FrameId) :
    Machine.ReadAs known { m with current := frame } { m' with current := frame' } :=
  { hm with store := hm.store }

/-- The distances of an occurrence lead to the same frame. -/
theorem distances (hm : m.ReadAs known m') {o : Occurrence} {os : List Occurrence}
    (haligned : m.AlignedAt known m' o.place os) (ho : o ∈ os) {name : String}
    (hname : o.name? = some name) :
    Option.Rel (fun d d' => m'.store.ancestor? d' m'.current = m.store.ancestor? d m.current)
      m.locals[o.id]? m'.locals[o.id]? := by
  have hlocal : m.locals[o.id]? = scopeDistance? name o.place.names := by
    rw [hm.locals o (haligned.2 o ho), Occurrence.distance?, hname]
  have hlocal' : m'.locals[o.id]? = scopeDistance? name o.place.direct.names := by
    have hnamed : o.direct.name? = some name := hname
    have hdirect : m'.locals[o.direct.id]? = o.direct.distance? :=
      hm.locals' o (haligned.2 o ho)
    rw [Occurrence.distance?, hnamed] at hdirect
    exact hdirect
  rw [hlocal, hlocal']
  exact haligned.1.distance name

end ReadAs

end Machine

namespace Agrees

variable {answers : Machine → Machine → α → Prop}

theorem pure (hm : m.ReadAs known m') {a : α} (ha : answers m m' a) :
    Agrees known answers ((Pure.pure a : Run α) m) ((Pure.pure a : Run α) m') :=
  .ok hm ha

theorem fail (hm : m.ReadAs known m') (fault : RuntimeFault) (span : Span) :
    Agrees known answers ((Run.fail fault span : Run α) m)
      ((Run.fail fault span : Run α) m') :=
  .error hm

theorem bind {x x' : Run α} {f f' : α → Run β} {answers' : Machine → Machine → β → Prop}
    (hx : Agrees known answers (x m) (x' m'))
    (hf : ∀ a m₁ m₁', x m = .ok a m₁ → x' m' = .ok a m₁' → m₁.ReadAs known m₁' →
      answers m₁ m₁' a → Agrees known answers' (f a m₁) (f' a m₁')) :
    Agrees known answers' ((x >>= f) m) ((x' >>= f') m') := by
  generalize h : x m = o at hx
  generalize h' : x' m' = o' at hx
  cases hx with
  | ok hm₁ ha =>
    rw [bind_of_ok h, bind_of_ok h']
    exact hf _ _ _ h h' hm₁ ha
  | error hm₁ =>
    rw [bind_of_error h, bind_of_error h']
    exact .error hm₁

theorem get_bind {f f' : Machine → Run α} (h : Agrees known answers (f m m) (f' m' m')) :
    Agrees known answers ((get >>= f) m) ((get >>= f') m') := by
  rw [bind_of_ok (get_apply m), bind_of_ok (get_apply m')]
  exact h

/-! ### Basic actions -/

theorem check (hm : m.ReadAs known m') (span : Span) {answer : Except RuntimeFault Value}
    (hanswer : ∀ value, answer = .ok value → ∀ f, value ≠ .function f) :
    Agrees known (Machine.Shares known) (Run.check span answer m) (Run.check span answer m') := by
  cases answer with
  | error fault => exact .error hm
  | ok value =>
    refine .ok hm ?_
    cases value with
    | function f => exact absurd rfl (hanswer _ rfl f)
    | _ => trivial

/-- A name is found in the same frame. -/
theorem lookUp (hm : m.ReadAs known m') {o : Occurrence} {os : List Occurrence}
    (haligned : m.AlignedAt known m' o.place os) (ho : o ∈ os) {name : String}
    (hname : o.name? = some name) {node : Node} (hnode : node.id = o.id) :
    Agrees known (Machine.Shares known) (Run.lookUp name node m) (Run.lookUp name node m') := by
  have hfound : found? m' name node = found? m name node ∧
      ∀ value, found? m name node = some value → m.Shares known m' value := by
    have hdistances := hm.distances haligned ho hname
    unfold found?
    rw [hnode]
    generalize m.locals[o.id]? = distance at hdistances ⊢
    generalize m'.locals[o.id]? = distance' at hdistances ⊢
    cases hdistances with
    | none =>
      dsimp only
      unfold Store.get?
      rw [hm.globals, hm.store.binder?_eq]
      cases m.store.binder? name m.globals with
      | none => exact ⟨rfl, fun value hvalue => by cases hvalue⟩
      | some binder => exact ⟨hm.store.bindings _ _, hm.store.frames _ _⟩
    | @some d d' hancestor =>
      dsimp only
      unfold Store.getAt?
      rw [hancestor]
      cases m.store.ancestor? d m.current with
      | none => exact ⟨rfl, fun value hvalue => by cases hvalue⟩
      | some frame => exact ⟨hm.store.bindings _ _, hm.store.frames _ _⟩
  obtain ⟨heq, hshared⟩ := hfound
  rw [lookUp_apply, lookUp_apply, heq]
  cases hvalue : found? m name node with
  | none => exact .error hm
  | some value => exact .ok hm (hshared value hvalue)

/-- A value is assigned in the same frame. -/
theorem assign (hm : m.ReadAs known m') {o : Occurrence} {os : List Occurrence}
    (haligned : m.AlignedAt known m' o.place os) (ho : o ∈ os) {name : String}
    (hname : o.name? = some name) {node : Node} (hnode : node.id = o.id) {value : Value}
    (hvalue : m.Shares known m' value) :
    Agrees known (fun _ _ _ => True) (Run.assign name node value m)
      (Run.assign name node value m') := by
  have hassigned : (assigned m' name node value).1 = (assigned m name node value).1 ∧
      (assigned m name node value).2.ReadAs known m.globals (assigned m' name node value).2 := by
    have hdistances := hm.distances haligned ho hname
    unfold assigned
    rw [hnode]
    generalize m.locals[o.id]? = distance at hdistances ⊢
    generalize m'.locals[o.id]? = distance' at hdistances ⊢
    cases hdistances with
    | none =>
      dsimp only
      rw [hm.globals]
      exact hm.store.assign name hvalue
    | some hancestor => exact hm.store.assignAt hancestor name hvalue
  obtain ⟨hfst, hstore⟩ := hassigned
  rw [assign_apply, assign_apply, hfst]
  dsimp only
  split
  · exact .ok (hm.withStore hstore) trivial
  · exact .error (hm.withStore hstore)

theorem checkCall (hm : m.ReadAs known m') (arity count : Nat) (paren : Span) :
    Agrees known (fun _ _ _ => True) (Run.checkCall arity count paren m)
      (Run.checkCall arity count paren m') := by
  rw [checkCall_apply, checkCall_apply, hm.maxCallDepth, hm.callDepth]
  split
  · exact .error hm
  · split
    · exact .error hm
    · exact .ok hm trivial

theorem readProperty (hm : m.ReadAs known m') (i : InstanceId) (name : String) :
    Agrees known (fun m m' found => ∀ value, found = some value → m.Shares known m' value)
      ((Act.readProperty i name).run m) ((Act.readProperty i name).run m') := by
  obtain ⟨hfound, hstore, hvalue⟩ := hm.store.property i name
  simp only [Act.run, withStore_apply]
  rw [hfound]
  exact .ok (hm.withStore hstore) hvalue

theorem setField (hm : m.ReadAs known m') (i : InstanceId) (name : String) {value : Value}
    (hvalue : m.Shares known m' value) :
    Agrees known (fun _ _ _ => True) ((Act.setField i name value).run m)
      ((Act.setField i name value).run m') :=
  .ok (hm.withStore (hm.store.setField i name hvalue)) trivial

theorem addInstance (hm : m.ReadAs known m') (c : ClassId) :
    Agrees known (Machine.Shares known) ((Act.addInstance c).run m)
      ((Act.addInstance c).run m') := by
  obtain ⟨hnumber, hstore⟩ := hm.store.addInstance c
  simp only [Act.run, withStore_apply]
  rw [hnumber]
  exact .ok (hm.withStore hstore) trivial

theorem print (hm : m.ReadAs known m') (value : Value) (span : Span) :
    Agrees known (fun _ _ _ => True) ((Act.print value span).run m)
      ((Act.print value span).run m') := by
  refine get_bind ?_
  rw [hm.store.display_eq, print_apply, print_apply, hm.output]
  dsimp only
  split
  · exact .ok { hm with output := rfl, store := hm.store } trivial
  · exact .error { hm with output := rfl, store := hm.store }

/-- A name is bound outside of rounds, where the current frame is the same. -/
theorem define (hm : m.ReadAs known m') (hcurrent : m'.current = m.current) (name : String)
    {value : Value}
    (hvalue : value.Aligned known m.globals (m.store.define m.current name value)
      (m'.store.define m.current name value)) :
    Agrees known (fun _ _ _ => True) (Run.define name value m) (Run.define name value m') := by
  have hstore : (m.store.define m.current name value).ReadAs known m.globals
      (m'.store.define m'.current name value) := by
    rw [hcurrent]
    exact hm.store.define hvalue
  exact .ok (hm.withStore hstore) trivial

theorem defineFunction (hm : m.ReadAs known m') {place : Place} {os : List Occurrence}
    (haligned : m.AlignedAt known m' place os) (houtside : place.IsOutside)
    {decl : FunctionDecl} (hknown : ∀ o ∈ decl.occurrences (place.bind decl.name true), known o)
    (horderly : decl.Orderly) :
    Agrees known (fun _ _ _ => True) ((Act.defineFunction decl).run m)
      ((Act.defineFunction decl).run m') := by
  have hcurrent := haligned.1.eq_of_isOutside houtside
  have hplace : Aligned m.globals m.store m'.store (place.bind decl.name true) m.current
      m.current := by
    have hbound := haligned.1.bind houtside decl.name true
    rwa [hcurrent] at hbound
  refine get_bind ?_
  rw [hcurrent]
  refine define hm hcurrent decl.name ⟨place.bind decl.name true, ?_, hknown, horderly⟩
  exact hplace.grow (.define _ _ _ _) (.define _ _ _ _)

theorem defineClass (hm : m.ReadAs known m') {place : Place} {os : List Occurrence}
    (haligned : m.AlignedAt known m' place os) (houtside : place.IsOutside) {name : String}
    {methods : List FunctionDecl}
    (hknown : ∀ o ∈ FunctionDecl.occurrencesAll ((place.bind name true).insideClass methods)
      methods, known o)
    (horderly : FunctionDecl.OrderlyAll methods) :
    Agrees known (fun _ _ _ => True) (Run.defineClass name methods m)
      (Run.defineClass name methods m') := by
  have hcurrent := haligned.1.eq_of_isOutside houtside
  have hplace : Aligned m.globals m.store m'.store (place.bind name true) m.current
      m.current := by
    have hbound := haligned.1.bind houtside name true
    rwa [hcurrent] at hbound
  have hstore : (declaredClass m.store m.current name methods).ReadAs known m.globals
      (declaredClass m'.store m'.current name methods) := by
    rw [hcurrent]
    exact hm.store.declaredClass hplace hknown horderly
  rw [defineClass_apply, defineClass_apply]
  exact .ok (hm.withStore hstore) trivial

/-- The frame of a block has the same number, wherever it is. -/
theorem openBlock (hm : m.ReadAs known m') :
    Agrees known (fun _ _ _ => True) (Act.openBlock.run m) (Act.openBlock.run m') := by
  have hframe : (m'.store.addFrame (some m'.current)).1 =
      (m.store.addFrame (some m.current)).1 := hm.store.size
  refine get_bind ?_
  rw [newFrame, newFrame, withStore_apply, withStore_apply, hframe]
  exact .ok (hm.withStore (hm.store.addFrame _ _)) trivial

/-- So does the frame for the body of a function. -/
theorem openBody (hm : m.ReadAs known m') (f : Closure) {arguments : List Value}
    (harguments : ∀ value ∈ arguments, m.Shares known m' value) :
    Agrees known (fun _ _ _ => True) ((Act.openBody f arguments).run m)
      ((Act.openBody f arguments).run m') := by
  have hframe : (m'.store.addFrame (some f.frame)).1 = (m.store.addFrame (some f.frame)).1 :=
    hm.store.size
  have hstore := (hm.store.addFrame (some f.frame) (some f.frame)).defineAll
    (m.store.addFrame (some f.frame)).1 f.decl.params fun value hvalue =>
      Value.Aligned.grow (harguments value hvalue) (.addFrame _ _) (.addFrame _ _)
  simp only [Act.run, newFrame]
  rw [bind_of_ok (withStore_apply _ m), bind_of_ok (withStore_apply _ m'), hframe]
  exact .ok (hm.withStore hstore) trivial

end Agrees

end Lox
