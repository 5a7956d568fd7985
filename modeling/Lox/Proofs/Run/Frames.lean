import Lox.Proofs.Run.Course

/-!
# What basic actions write

A basic action adds at most a frame, a class or an instance, and writes to at most one frame
that is already there.  `Act.store` says what it does to the store, whether it answers or
stops, and `Act.target?` which frame it writes to.

**Order.** Frames are numbered in the order in which they are made.  What holds of the store
when a frame is made, and is kept by every basic action after that, holds at every event that
finds the frame (`Traces.since`).
-/

namespace Lox

open Run

/-! ## Frames of the store -/

namespace Store

theorem frames_define_of_ne {s : Store} {e e' : FrameId} (h : e ≠ e') (name : String)
    (value : Value) : (s.define e name value).frames[e']? = s.frames[e']? := by
  simp [define, Array.getElem?_modify, h]

theorem frames_addFrame_of_lt {s : Store} {e : FrameId} (h : e < s.frames.size)
    (enclosing : Option FrameId) : (s.addFrame enclosing).2.frames[e]? = s.frames[e]? := by
  simp [addFrame, Array.getElem?_push, Nat.ne_of_lt h]

theorem frames_defineAll_of_ne {s : Store} {e e' : FrameId} (h : e ≠ e')
    (names : List String) (values : List Value) :
    (s.defineAll e names values).frames[e']? = s.frames[e']? := by
  induction names generalizing s values with
  | nil => rfl
  | cons name names ih =>
    cases values with
    | nil => rfl
    | cons value values => rw [defineAll, ih, frames_define_of_ne h]

theorem getHere?_defineAll_of_not_mem {s : Store} {names : List String} {name : String}
    (h : name ∉ names) (e e' : FrameId) (values : List Value) :
    (s.defineAll e names values).getHere? e' name = s.getHere? e' name := by
  induction names generalizing s values with
  | nil => rfl
  | cons first names ih =>
    have hfirst : name ≠ first := List.ne_of_not_mem_cons h
    have hnames : name ∉ names := List.not_mem_of_not_mem_cons h
    cases values with
    | nil => rfl
    | cons value values =>
      rw [defineAll, ih hnames, getHere?_define, if_neg fun heq => hfirst heq.2.1.symm]

/-- Binding a method makes a frame that binds the receiver only. -/
theorem frames_bind (s : Store) (f : Closure) (i : InstanceId) :
    (s.bind f i).2.frames[s.frames.size]? =
      some ⟨⟨[("this", .instance i)]⟩, some f.frame⟩ := by
  show ((s.frames.push ⟨.empty, some f.frame⟩).modify s.frames.size _)[s.frames.size]? = _
  rw [Array.getElem?_modify, if_pos rfl, Array.getElem?_push, if_pos rfl]
  rfl

theorem frames_property_of_lt {s : Store} {e : FrameId} (h : e < s.frames.size)
    (i : InstanceId) (name : String) : (s.property i name).2.frames[e]? = s.frames[e]? := by
  unfold property
  split
  · rfl
  · rfl
  · next f _ =>
    show ((s.addFrame (some f.frame)).2.define s.frames.size "this" _).frames[e]? = _
    rw [frames_define_of_ne (Nat.ne_of_gt h), frames_addFrame_of_lt h]

theorem classes_defineAll (s : Store) (e : FrameId) (names : List String)
    (values : List Value) : (s.defineAll e names values).classes = s.classes := by
  induction names generalizing s values with
  | nil => rfl
  | cons name names ih =>
    cases values with
    | nil => rfl
    | cons value values => rw [defineAll, ih]; rfl

theorem classes_property (s : Store) (i : InstanceId) (name : String) :
    (s.property i name).2.classes = s.classes := by
  unfold property
  split <;> rfl

end Store

/-! ## Basic actions -/

/-- The basic action reads a property of an instance. -/
inductive Act.Reads : Act → InstanceId → String → Prop
  | now {i name} : Reads (.readProperty i name) i name
  | spent {i name nameSpan} : Reads (.spent (.property (.instance i) name nameSpan)) i name

/-- The frame that an assignment to an occurrence of a name writes to. -/
def Run.written? (m : Machine) (name : String) (node : Node) : Option FrameId :=
  match m.locals[node.id]? with
  | some distance => m.store.ancestor? distance m.current
  | none => m.store.binder? name m.globals

theorem Run.assigned_eq (m : Machine) (name : String) (node : Node) (value : Value) :
    assigned m name node value =
      match written? m name node with
      | some frame => (true, m.store.define frame name value)
      | none => (false, m.store) := by
  unfold assigned written?
  cases m.locals[node.id]? with
  | some distance =>
    dsimp only
    rw [Store.assignAt]
    cases m.store.ancestor? distance m.current <;> rfl
  | none =>
    dsimp only
    rw [Store.assign]
    cases m.store.binder? name m.globals <;> rfl

namespace Act

/-- The names that a basic action binds for the code. -/
def names : Act → List String
  | assign name _ _ => [name]
  | define name _ => [name]
  | defineFunction f => [f.name]
  | defineClass name _ => [name]
  | openBody f _ => f.decl.params
  | _ => []

/-- The frame, among those there are, that a basic action writes to. -/
def target? (m : Machine) : Act → Option FrameId
  | assign name node _ => written? m name node
  | define .. => some m.current
  | defineFunction _ => some m.current
  | defineClass .. => some m.current
  | _ => none

/-- The store that a basic action leaves. -/
def store (m : Machine) : Act → Store
  | assign name node value => (assigned m name node value).2
  | readProperty i name => (m.store.property i name).2
  | setField i name value => m.store.setField i name value
  | addInstance c => (m.store.addInstance c).2
  | define name value => m.store.define m.current name value
  | defineFunction f => m.store.define m.current f.name (.function ⟨f, m.current⟩)
  | defineClass name methods => declaredClass m.store m.current name methods
  | openBlock => (m.store.addFrame (some m.current)).2
  | openBody f arguments =>
    (m.store.addFrame (some f.frame)).2.defineAll m.store.frames.size f.decl.params arguments
  | spent (.property (.instance i) name _) => (m.store.property i name).2
  | spent (.make c) => (m.store.addInstance c).2
  | spent (.instantiate (.class c) arguments _) =>
    if arguments.length = 0 ∧ m.callDepth < m.maxCallDepth then (m.store.addInstance c).2
    else m.store
  | _ => m.store

variable {a : Act} {m : Machine} {e : FrameId}

theorem endState_store (a : Act) (m : Machine) : (endState a.run m).store = a.store m := by
  cases a with
  | check span answer => cases answer <;> rfl
  | lookUp name node =>
    rw [endState, run, lookUp_apply]
    cases found? m name node <;> rfl
  | assign name node value =>
    rw [endState, run, assign_apply, store]
    cases (assigned m name node value).1 <;> rfl
  | checkCall arity count paren =>
    rw [endState, run, checkCall_apply]
    by_cases hcount : count = arity
    · by_cases hdepth : m.maxCallDepth ≤ m.callDepth <;> simp [hcount, hdepth, store]
    · simp [hcount, store]
  | print value span =>
    show (endState (Run.print (m.store.display value) span) m).store = m.store
    rw [endState, print_apply]
    cases (m.output.print (m.store.display value)).1 <;> rfl
  | defineClass name methods =>
    rw [endState, run, defineClass_apply]
    rfl
  | spent t =>
    cases t with
    | instantiate callee arguments paren =>
      cases callee with
      | «class» c =>
        show (endState (Run.instantiate (.class c) arguments paren) m).store = _
        rw [endState, instantiate_class_apply]
        by_cases hcount : arguments.length = 0
        · by_cases hdepth : m.maxCallDepth ≤ m.callDepth
          · simp [hcount, hdepth, store, Nat.not_lt.2 hdepth]
          · simp [hcount, hdepth, store, Nat.lt_of_not_le hdepth]
        · simp [hcount, store]
      | _ => rfl
    | property object name nameSpan =>
      cases object with
      | «instance» i =>
        show (endState (Run.property (.instance i) name nameSpan) m).store = _
        rw [endState, property_instance_apply]
        cases (m.store.property i name).1 <;> rfl
      | _ => rfl
    | _ => rfl
  | _ => rfl

theorem Reads.store_eq {i : InstanceId} {name : String} (h : a.Reads i name) (m : Machine) :
    a.store m = (m.store.property i name).2 := by
  cases h <;> rfl

/-- A frame stays as it is unless it is written to. -/
theorem frames_store (he : e < m.store.frames.size) (htarget : a.target? m ≠ some e) :
    (a.store m).frames[e]? = m.store.frames[e]? := by
  cases a with
  | assign name node value =>
    rw [store, assigned_eq]
    cases hwritten : written? m name node with
    | none => rfl
    | some frame =>
      refine Store.frames_define_of_ne ?_ name value
      rintro rfl
      exact htarget hwritten
  | readProperty i name => exact Store.frames_property_of_lt he i name
  | define name value => exact Store.frames_define_of_ne (htarget ∘ congrArg some) name value
  | defineFunction f => exact Store.frames_define_of_ne (htarget ∘ congrArg some) f.name _
  | defineClass name methods =>
    have hne : m.current ≠ e := htarget ∘ congrArg some
    exact (Store.frames_define_of_ne hne name _).trans (Store.frames_define_of_ne hne name .nil)
  | openBlock => exact Store.frames_addFrame_of_lt he _
  | openBody f arguments =>
    exact (Store.frames_defineAll_of_ne (Nat.ne_of_gt he) _ _).trans
      (Store.frames_addFrame_of_lt he _)
  | spent t =>
    cases t with
    | instantiate callee arguments paren =>
      cases callee with
      | «class» c =>
        rw [store]
        split <;> rfl
      | _ => rfl
    | property object name nameSpan =>
      cases object with
      | «instance» i => exact Store.frames_property_of_lt he i name
      | _ => rfl
    | _ => rfl
  | _ => rfl

/-- A name stays as it is in a frame unless it is bound by the action.  The frame may be the
one that the action adds, except where a method is bound. -/
theorem getHere?_store {name : String} (hname : name ∉ a.names)
    (he : ∀ i property, a.Reads i property → e < m.store.frames.size) :
    (a.store m).getHere? e name = m.store.getHere? e name := by
  have of_frames {s : Store} (h : s.frames[e]? = m.store.frames[e]?) :
      s.getHere? e name = m.store.getHere? e name := by rw [Store.getHere?, h, Store.getHere?]
  have of_define {s : Store} {e' : FrameId} {name' : String} {value : Value}
      (hne : name ≠ name') : (s.define e' name' value).getHere? e name = s.getHere? e name := by
    rw [Store.getHere?_define, if_neg fun heq => hne heq.2.1.symm]
  cases a with
  | assign name' node value =>
    rw [store, assigned_eq]
    cases written? m name' node with
    | none => rfl
    | some frame => exact of_define (List.ne_of_not_mem_cons hname)
  | readProperty i property =>
    exact of_frames (Store.frames_property_of_lt (he i property .now) i _)
  | define name' value => exact of_define (List.ne_of_not_mem_cons hname)
  | defineFunction f => exact of_define (List.ne_of_not_mem_cons hname)
  | defineClass name' methods =>
    have hne : name ≠ name' := List.ne_of_not_mem_cons hname
    exact (of_define hne).trans (of_define hne)
  | openBlock => exact Store.getHere?_addFrame _ _ _ _
  | openBody f arguments =>
    exact (Store.getHere?_defineAll_of_not_mem hname _ _ _).trans (Store.getHere?_addFrame _ _ _ _)
  | spent t =>
    cases t with
    | instantiate callee arguments paren =>
      cases callee with
      | «class» c =>
        rw [store]
        split <;> rfl
      | _ => rfl
    | property object property nameSpan =>
      cases object with
      | «instance» i =>
        exact of_frames (Store.frames_property_of_lt (he i property .spent) i _)
      | _ => rfl
    | _ => rfl
  | _ => rfl

/-- Frames are only added. -/
theorem size_le (a : Act) (m : Machine) :
    m.store.frames.size ≤ (a.store m).frames.size := by
  rw [← a.endState_store]
  exact (a.keeps m).store.size_le

/-- A class stays as it is. -/
theorem classes_store {c : ClassId} {cls : Class} (hcls : m.store.classes[c]? = some cls) :
    (a.store m).classes[c]? = some cls := by
  have of_eq {s : Store} (h : s.classes = m.store.classes) : s.classes[c]? = some cls := by
    rw [h, hcls]
  cases a with
  | assign name node value =>
    rw [store, assigned_eq]
    cases written? m name node <;> exact of_eq rfl
  | readProperty i name => exact of_eq (Store.classes_property _ _ _)
  | defineClass name methods =>
    have hlt : c < m.store.classes.size := (Array.getElem?_eq_some_iff.1 hcls).1
    show (m.store.classes.push _)[c]? = some cls
    rw [Array.getElem?_push, if_neg (Nat.ne_of_lt hlt), hcls]
  | openBody f arguments => exact of_eq (Store.classes_defineAll _ _ _ _)
  | spent t =>
    cases t with
    | instantiate callee arguments paren =>
      cases callee with
      | «class» c' =>
        refine of_eq ?_
        rw [store]
        split <;> rfl
      | _ => exact of_eq rfl
    | property object name nameSpan =>
      cases object with
      | «instance» i => exact of_eq (Store.classes_property _ _ _)
      | _ => exact of_eq rfl
    | _ => exact of_eq rfl
  | _ => exact of_eq rfl

end Act

theorem Event.after_acts_store (a : Act) (m : Machine) :
    (Event.acts a m).after.store = a.store m := a.endState_store m

theorem Event.size_le (x : Event) :
    x.machine.store.frames.size ≤ x.after.store.frames.size := by
  cases x with
  | begins n t m => exact Nat.le_refl _
  | acts a m =>
    rw [after_acts_store]
    exact a.size_le m

/-! ## Since a frame was made -/

namespace Traces

variable {w w' : Store × Output} {es : List Event} {e x : Event} {P : Store → Prop}

/-- What holds of the first store and is kept by the basic actions holds at all events. -/
theorem always (h : Traces w es w') (hP : P w.1)
    (hacts : ∀ a m, .acts a m ∈ es → P m.store → P (a.store m)) :
    P w'.1 ∧ ∀ x ∈ es, P x.machine.store ∧ P x.after.store := by
  refine h.invariant (P := fun v => P v.1) hP fun a m ha hm => ?_
  show P (Event.acts a m).after.store
  rw [Event.after_acts_store]
  exact hacts a m ha hm

/-- An event cuts the events into those before and those after it. -/
theorem cut (h : Traces w es w') (he : e ∈ es) :
    ∃ before later, es = before ++ e :: later ∧ Traces w before e.machine.world ∧
      Traces e.after.world later w' := by
  obtain ⟨before, later, rfl⟩ := List.append_of_mem he
  obtain ⟨hbefore, hlater⟩ := h.split
  exact ⟨before, later, rfl, hbefore, hlater⟩

theorem size_le (h : Traces w es w') : w.1.frames.size ≤ w'.1.frames.size :=
  (h.always (P := fun s => w.1.frames.size ≤ s.frames.size) (Nat.le_refl _)
    fun a m _ hle => Nat.le_trans hle (a.size_le m)).1

/-- Of two events, the later one finds all the frames that the other one has left. -/
theorem pairwise_size_le (h : Traces w es w') :
    es.Pairwise fun x y => x.after.store.frames.size ≤ y.machine.store.frames.size := by
  induction h with
  | nil => exact .nil
  | @cons x es w h ih =>
    refine List.pairwise_cons.2 ⟨fun y hy => ?_, ih⟩
    exact ((h.always (P := fun s => x.after.store.frames.size ≤ s.frames.size) (Nat.le_refl _)
      fun a m _ hle => Nat.le_trans hle (a.size_le m)).2 y hy).1

/-- What holds after an event and is kept by the basic actions holds at every event for
which frames have been added since. -/
theorem since (h : Traces w es w') (he : e ∈ es) (hP : P e.after.store)
    (hacts : ∀ a m, .acts a m ∈ es → P m.store → P (a.store m)) (hx : x ∈ es) :
    (e.machine.store.frames.size < x.machine.store.frames.size → P x.machine.store) ∧
      (e.machine.store.frames.size < x.after.store.frames.size → P x.after.store) := by
  obtain ⟨before, later, rfl, hbefore, hlater⟩ := h.cut he
  rcases List.mem_append.1 hx with hx | hx
  · -- events before have no frames that were made since
    obtain ⟨_, _, rfl, -, hrest⟩ := hbefore.cut hx
    have hle : x.after.store.frames.size ≤ e.machine.store.frames.size := hrest.size_le
    have hle' := x.size_le
    exact ⟨fun hlt => by omega, fun hlt => by omega⟩
  · rcases List.mem_cons.1 hx with rfl | hx
    · exact ⟨fun hlt => absurd hlt (Nat.lt_irrefl _), fun _ => hP⟩
    · have hkept (a : Act) (m : Machine) (ha : .acts a m ∈ later) : P m.store → P (a.store m) :=
        hacts a m (List.mem_append_right _ (.tail _ ha))
      obtain ⟨hmachine, hafter⟩ := (hlater.always hP hkept).2 x hx
      exact ⟨fun _ => hmachine, fun _ => hafter⟩

/-- A class is the same at all events that find it. -/
theorem classes_eq (h : Traces w es w') {y : Event} (hx : x ∈ es) (hy : y ∈ es) {c : ClassId}
    {cls cls' : Class} (hcls : x.after.store.classes[c]? = some cls)
    (hcls' : y.after.store.classes[c]? = some cls') : cls = cls' := by
  have to_end {e : Event} (he : e ∈ es) {cls : Class}
      (hcls : e.after.store.classes[c]? = some cls) : w'.1.classes[c]? = some cls := by
    obtain ⟨before, later, rfl, -, hlater⟩ := h.cut he
    exact (hlater.always (P := fun s => s.classes[c]? = some cls) hcls
      fun a m _ hm => Act.classes_store hm).1
  exact Option.some.inj ((to_end hx hcls).symm.trans (to_end hy hcls'))

end Traces

/-- What a basic action of a session establishes, and all others keep, holds at every event for
which frames have been added since. -/
theorem Session.since {budget : Nat} {session : Session} {sources : List String} {a : Act}
    {m : Machine} {x : Event} {P : Store → Prop} (ha : .acts a m ∈ session.course budget sources)
    (hP : P (a.store m))
    (hacts : ∀ a m, .acts a m ∈ session.course budget sources → P m.store → P (a.store m))
    (hx : x ∈ session.course budget sources) :
    (m.store.frames.size < x.machine.store.frames.size → P x.machine.store) ∧
      (m.store.frames.size < x.after.store.frames.size → P x.after.store) := by
  have hafter : P (Event.acts a m).after.store := by rwa [Event.after_acts_store]
  exact (traces_course budget session sources).since ha hafter hacts hx

end Lox
