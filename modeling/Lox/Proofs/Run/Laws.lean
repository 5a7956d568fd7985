import Lox.Evaluate
import Lox.Proofs.Action
import Lox.Proofs.Store

/-!
# Laws of running code

What each basic action of the machine does, whatever code it is run for.

**What is kept.** While code is under way, much of the machine stays as it is: the
frame of global names, the distances and the limit never change, the current frame
and the number of calls are put back by whatever changes them, and the store only
grows.  `Machine.Steady` says all this of an earlier and a later machine, and
`Keeps` says it of an action.
-/

namespace Lox

/-- What a piece of code leaves as it was, however it ends. -/
structure Machine.Steady (m m' : Machine) : Prop where
  /-- The current frame is put back. -/
  current : m'.current = m.current
  /-- The number of calls is put back. -/
  callDepth : m'.callDepth = m.callDepth
  /-- The global frame never changes. -/
  globals : m'.globals = m.globals
  /-- Distances change only between programs. -/
  locals : m'.locals = m.locals
  /-- The limit never changes. -/
  maxCallDepth : m'.maxCallDepth = m.maxCallDepth
  /-- The store only grows. -/
  store : m.store.Grows m'.store

namespace Machine.Steady

theorem refl (m : Machine) : Steady m m := ⟨rfl, rfl, rfl, rfl, rfl, .refl _⟩

theorem trans {m₁ m₂ m₃ : Machine} (h₁ : Steady m₁ m₂) (h₂ : Steady m₂ m₃) :
    Steady m₁ m₃ where
  current := h₂.current.trans h₁.current
  callDepth := h₂.callDepth.trans h₁.callDepth
  globals := h₂.globals.trans h₁.globals
  locals := h₂.locals.trans h₁.locals
  maxCallDepth := h₂.maxCallDepth.trans h₁.maxCallDepth
  store := h₁.store.trans h₂.store

theorem of_store (m : Machine) {s : Store} (h : m.store.Grows s) :
    Steady m { m with store := s } :=
  ⟨rfl, rfl, rfl, rfl, rfl, h⟩

end Machine.Steady

namespace Run

variable {α β : Type}

@[simp] theorem fail_apply (fault : RuntimeFault) (span : Span) (m : Machine) :
    (fail fault span : Run α) m = .error (.error ⟨fault, span⟩) m := rfl

@[simp] theorem check_ok (span : Span) (a : α) (m : Machine) :
    (check span (.ok a) : Run α) m = .ok a m := rfl

@[simp] theorem check_error (span : Span) (fault : RuntimeFault) (m : Machine) :
    (check span (.error fault) : Run α) m = .error (.error ⟨fault, span⟩) m := rfl

@[simp] theorem modifyStore_apply (f : Store → Store) (m : Machine) :
    modifyStore f m = .ok () { m with store := f m.store } := rfl

@[simp] theorem withStore_apply (f : Store → α × Store) (m : Machine) :
    withStore f m = .ok (f m.store).1 { m with store := (f m.store).2 } := rfl

@[simp] theorem define_apply (name : String) (value : Value) (m : Machine) :
    define name value m =
      .ok () { m with store := m.store.define m.current name value } := rfl

theorem inFrame_of_ok {x : Run α} {frame : FrameId} {m m' : Machine} {a : α}
    (h : x { m with current := frame } = .ok a m') :
    inFrame frame x m = .ok a { m' with current := m.current } := by
  simp [inFrame, h]

theorem inFrame_of_error {x : Run α} {frame : FrameId} {m m' : Machine} {stop : Stop}
    (h : x { m with current := frame } = .error stop m') :
    inFrame frame x m = .error stop { m' with current := m.current } := by
  simp [inFrame, h]

theorem inCall_of_ok {x : Run α} {m m' : Machine} {a : α}
    (h : x { m with callDepth := m.callDepth + 1 } = .ok a m') :
    inCall x m = .ok a { m' with callDepth := m'.callDepth - 1 } := by
  simp [inCall, h]

theorem inCall_of_error {x : Run α} {m m' : Machine} {stop : Stop}
    (h : x { m with callDepth := m.callDepth + 1 } = .error stop m') :
    inCall x m = .error stop { m' with callDepth := m'.callDepth - 1 } := by
  simp [inCall, h]

/-- A call is let through with the right number of arguments and below the limit. -/
theorem checkCall_apply (arity count : Nat) (paren : Span) (m : Machine) :
    checkCall arity count paren m =
      if count ≠ arity then .error (.error ⟨.wrongArity arity count, paren⟩) m
      else if m.maxCallDepth ≤ m.callDepth then .error (.error ⟨.stackOverflow, paren⟩) m
      else .ok () m := by
  by_cases hcount : count = arity
  · by_cases hdepth : m.maxCallDepth ≤ m.callDepth <;>
      simp [checkCall, hcount, hdepth, bind_of_ok (get_apply m)]
  · simp [checkCall, hcount, bind, EStateM.bind]

theorem checkCall_eq_ok {arity count : Nat} {paren : Span} {m m' : Machine} :
    checkCall arity count paren m = .ok () m' ↔
      count = arity ∧ m.callDepth < m.maxCallDepth ∧ m = m' := by
  rw [checkCall_apply]
  by_cases hcount : count = arity
  · by_cases hdepth : m.maxCallDepth ≤ m.callDepth
    · simp [hcount, hdepth, Nat.not_lt.2 hdepth]
    · simp [hcount, hdepth, Nat.lt_of_not_le hdepth]
  · simp [hcount]

/-- Where the value of an occurrence of a name is found. -/
def found? (m : Machine) (name : String) (node : Node) : Option Value :=
  match m.locals[node.id]? with
  | some distance => m.store.getAt? m.current distance name
  | none => m.store.get? m.globals name

theorem lookUp_apply (name : String) (node : Node) (m : Machine) :
    lookUp name node m =
      match found? m name node with
      | some value => .ok value m
      | none => .error (.error ⟨.undefinedVariable name, node.span⟩) m := by
  rw [lookUp, bind_of_ok (get_apply m)]
  show (match found? m name node with
    | some value => (pure value : Run Value)
    | none => fail (.undefinedVariable name) node.span) m = _
  cases found? m name node <;> rfl

/-- The store after an assignment to an occurrence of a name, and whether the name was
found. -/
def assigned (m : Machine) (name : String) (node : Node) (value : Value) : Bool × Store :=
  match m.locals[node.id]? with
  | some distance => m.store.assignAt m.current distance name value
  | none => m.store.assign m.globals name value

theorem assign_apply (name : String) (node : Node) (value : Value) (m : Machine) :
    assign name node value m =
      let m' := { m with store := (assigned m name node value).2 }
      if (assigned m name node value).1 then .ok () m'
      else .error (.error ⟨.undefinedVariable name, node.span⟩) m' := by
  rw [assign, bind_of_ok (get_apply m)]
  unfold assigned
  cases m.locals[node.id]? with
  | none =>
    dsimp only
    rw [bind_of_ok (withStore_apply _ m)]
    split <;> simp_all
  | some distance =>
    dsimp only
    rw [bind_of_ok (withStore_apply _ m)]
    split <;> simp_all

theorem print_apply (line : String) (span : Span) (m : Machine) :
    print line span m =
      let m' := { m with output := (m.output.print line).2 }
      if (m.output.print line).1 then .ok () m'
      else .error (.error ⟨.outputFailed "sink full", span⟩) m' := by
  unfold print
  cases m.output.print line with
  | mk taken output => cases taken <;> rfl

theorem property_instance_apply (i : InstanceId) (name : String) (nameSpan : Span)
    (m : Machine) :
    property (.instance i) name nameSpan m =
      let m' := { m with store := (m.store.property i name).2 }
      match (m.store.property i name).1 with
      | some value => .ok value m'
      | none => .error (.error ⟨.undefinedProperty name, nameSpan⟩) m' := by
  rw [property, bind_of_ok (withStore_apply _ m)]
  cases (m.store.property i name).1 <;> rfl

theorem instantiate_class_apply (c : ClassId) (arguments : List Value) (paren : Span)
    (m : Machine) :
    instantiate (.class c) arguments paren m =
      if arguments.length ≠ 0 then
        .error (.error ⟨.wrongArity 0 arguments.length, paren⟩) m
      else if m.maxCallDepth ≤ m.callDepth then .error (.error ⟨.stackOverflow, paren⟩) m
      else .ok (.instance (m.store.addInstance c).1)
        { m with store := (m.store.addInstance c).2 } := by
  have hcheck := checkCall_apply 0 arguments.length paren m
  by_cases hcount : arguments.length = 0
  · by_cases hdepth : m.maxCallDepth ≤ m.callDepth
    · simp only [hcount, ne_eq, not_true_eq_false, if_false, hdepth, if_true] at hcheck ⊢
      rw [instantiate, hcount]
      exact bind_of_error hcheck
    · simp only [hcount, ne_eq, not_true_eq_false, if_false, hdepth] at hcheck ⊢
      rw [instantiate, hcount, bind_of_ok hcheck]
      rfl
  · simp only [hcount, ne_eq, not_false_eq_true, if_true] at hcheck ⊢
    rw [instantiate]
    exact bind_of_error hcheck

/-- The methods of a class that is declared in a frame. -/
def methodTable (methods : List FunctionDecl) (frame : FrameId) : Bindings Closure :=
  methods.foldl (fun table decl => table.set decl.name ⟨decl, frame⟩) Bindings.empty

theorem mem_methodTable {methods : List FunctionDecl} {e : FrameId} {name : String}
    {f : Closure} (h : (methodTable methods e).get? name = some f) :
    f.decl ∈ methods ∧ f.frame = e := by
  -- what the table holds was there before or comes from one of the methods
  have hfold : ∀ (ms : List FunctionDecl) (table : Bindings Closure),
      (ms.foldl (fun table decl => table.set decl.name ⟨decl, e⟩) table).get? name = some f →
      table.get? name = some f ∨ f.decl ∈ ms ∧ f.frame = e := by
    intro ms
    induction ms with
    | nil => exact fun table h => .inl h
    | cons decl ms ih =>
      intro table h
      rcases ih _ h with h | ⟨hmem, hframe⟩
      · rw [Bindings.get?_set] at h
        split at h
        · cases h
          exact .inr ⟨List.mem_cons_self .., rfl⟩
        · exact .inl h
      · exact .inr ⟨List.mem_cons_of_mem _ hmem, hframe⟩
  rcases hfold methods .empty h with h | h
  · cases h
  · exact h

/-- The store after a class declaration. -/
def declaredClass (s : Store) (e : FrameId) (name : String) (methods : List FunctionDecl) :
    Store :=
  let (c, s') := (s.define e name .nil).addClass ⟨name, methodTable methods e⟩
  s'.define e name (.class c)

theorem defineClass_apply (name : String) (methods : List FunctionDecl) (m : Machine) :
    defineClass name methods m =
      .ok () { m with store := declaredClass m.store m.current name methods } := by
  rw [defineClass, bind_of_ok (define_apply _ _ _), bind_of_ok (get_apply _)]
  dsimp only
  rw [bind_of_ok (withStore_apply _ _)]
  rfl

/-! ## What is kept -/

/-- However the action ends, all that code must leave alone is as it was. -/
def Keeps (x : Run α) : Prop := ∀ m : Machine, m.Steady (endState x m)

theorem Keeps.of_ok {x : Run α} (h : Keeps x) {m m' : Machine} {a : α}
    (hx : x m = .ok a m') : m.Steady m' := by
  simpa [endState_of_ok hx] using h m

theorem Keeps.of_error {x : Run α} (h : Keeps x) {m m' : Machine} {stop : Stop}
    (hx : x m = .error stop m') : m.Steady m' := by
  simpa [endState_of_error hx] using h m

theorem keeps_pure (a : α) : Keeps (pure a : Run α) := fun m => .refl m

theorem keeps_get : Keeps (get : Run Machine) := fun m => .refl m

theorem keeps_throw (stop : Stop) : Keeps (throw stop : Run α) := fun m => .refl m

theorem keeps_fail (fault : RuntimeFault) (span : Span) :
    Keeps (fail fault span : Run α) := fun m => .refl m

theorem keeps_check (span : Span) (r : Except RuntimeFault α) : Keeps (check span r) := by
  intro m
  cases r with
  | ok a => exact .refl m
  | error fault => exact .refl m

theorem keeps_bind {x : Run α} {f : α → Run β} (hx : Keeps x) (hf : ∀ a, Keeps (f a)) :
    Keeps (x >>= f) := by
  intro m
  cases h : x m with
  | ok a m₁ =>
    rw [endState_bind_of_ok h]
    exact (hx.of_ok h).trans (hf a m₁)
  | error stop m₁ =>
    rw [endState_bind_of_error h]
    exact hx.of_error h

theorem keeps_modifyStore {f : Store → Store} (h : ∀ s : Store, s.Grows (f s)) :
    Keeps (modifyStore f) := fun m => .of_store m (h m.store)

theorem keeps_withStore {f : Store → α × Store}
    (h : ∀ s : Store, s.Grows (f s).2) :
    Keeps (withStore f) := fun m => .of_store m (h m.store)

theorem keeps_inFrame {x : Run α} (hx : Keeps x) (frame : FrameId) :
    Keeps (inFrame frame x) := by
  intro m
  cases h : x { m with current := frame } with
  | ok a m' =>
    rw [endState_of_ok (inFrame_of_ok h)]
    exact { hx.of_ok h with current := rfl }
  | error stop m' =>
    rw [endState_of_error (inFrame_of_error h)]
    exact { hx.of_error h with current := rfl }

theorem keeps_inCall {x : Run α} (hx : Keeps x) : Keeps (inCall x) := by
  intro m
  cases h : x { m with callDepth := m.callDepth + 1 } with
  | ok a m' =>
    rw [endState_of_ok (inCall_of_ok h)]
    have hdepth := (hx.of_ok h).callDepth
    exact { hx.of_ok h with callDepth := by simp [hdepth] }
  | error stop m' =>
    rw [endState_of_error (inCall_of_error h)]
    have hdepth := (hx.of_error h).callDepth
    exact { hx.of_error h with callDepth := by simp [hdepth] }

theorem keeps_newFrame (enclosing : FrameId) : Keeps (newFrame enclosing) :=
  keeps_withStore fun s => .addFrame s _

theorem keeps_define (name : String) (value : Value) : Keeps (define name value) :=
  fun m => .of_store m (.define _ _ _ _)

theorem keeps_print (line : String) (span : Span) : Keeps (print line span) := by
  intro m
  cases h : (m.output.print line).1 with
  | false =>
    simp only [endState, print_apply, h, Bool.false_eq_true, if_false]
    exact ⟨rfl, rfl, rfl, rfl, rfl, .refl _⟩
  | true =>
    simp only [endState, print_apply, h, if_true]
    exact ⟨rfl, rfl, rfl, rfl, rfl, .refl _⟩

theorem keeps_lookUp (name : String) (node : Node) : Keeps (lookUp name node) := by
  intro m
  rw [endState, lookUp_apply]
  cases found? m name node with
  | none => exact .refl m
  | some value => exact .refl m

theorem grows_assigned (m : Machine) (name : String) (node : Node) (value : Value) :
    m.store.Grows (assigned m name node value).2 := by
  unfold assigned
  split
  · exact .assignAt _ _ _ _ _
  · exact .assign _ _ _ _

theorem keeps_assign (name : String) (node : Node) (value : Value) :
    Keeps (assign name node value) := by
  intro m
  cases h : (assigned m name node value).1 with
  | false =>
    simp only [endState, assign_apply, h, Bool.false_eq_true, if_false]
    exact .of_store m (grows_assigned m name node value)
  | true =>
    simp only [endState, assign_apply, h, if_true]
    exact .of_store m (grows_assigned m name node value)

theorem keeps_checkCall (arity count : Nat) (paren : Span) :
    Keeps (checkCall arity count paren) := by
  intro m
  by_cases hcount : count = arity
  · by_cases hdepth : m.maxCallDepth ≤ m.callDepth
    · simpa [endState, checkCall_apply, hcount, hdepth] using Machine.Steady.refl m
    · simpa [endState, checkCall_apply, hcount, hdepth] using Machine.Steady.refl m
  · simpa [endState, checkCall_apply, hcount] using Machine.Steady.refl m

theorem keeps_defineClass (name : String) (methods : List FunctionDecl) :
    Keeps (defineClass name methods) := by
  refine keeps_bind (keeps_define _ _) fun _ => keeps_bind keeps_get fun m => ?_
  exact keeps_bind (keeps_withStore fun s => .addClass s _) fun cls => keeps_define _ _

theorem keeps_property (object : Value) (name : String) (nameSpan : Span) :
    Keeps (property object name nameSpan) := by
  unfold property
  split
  · refine keeps_bind (keeps_withStore fun s => .property s _ _) fun found => ?_
    split
    · exact keeps_pure _
    · exact keeps_fail _ _
  · exact keeps_fail _ _

theorem keeps_instantiate (callee : Value) (arguments : List Value) (paren : Span) :
    Keeps (instantiate callee arguments paren) := by
  unfold instantiate
  split
  · refine keeps_bind (keeps_checkCall _ _ _) fun _ => keeps_inCall ?_
    exact keeps_bind (keeps_withStore fun s => .addInstance s _) fun i => keeps_pure _
  · exact keeps_bind keeps_get fun m => keeps_fail _ _

end Run

end Lox
