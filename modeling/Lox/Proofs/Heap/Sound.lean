import Lox.Proofs.Forest
import Lox.Proofs.Run.Frames

/-!
# Stores without dangling references

Values refer to frames, classes and instances by their places in the store.  A store is
*sound* if all that it refers to is there, each frame is inside of an older one, and only the
global frame is outside of all others (`Store.Sound`).  Values may refer to each other in
cycles; the frames around a frame may not.

**What lasts.** Objects are only added, and of an object that is there only the names that a
frame binds and the fields of an instance can change (`Store.Persists`).
-/

namespace Lox

/-- What the value refers to is in the store. -/
def Value.In (s : Store) : Value → Prop
  | .function f => f.frame < s.frames.size
  | .class c => c < s.classes.size
  | .instance i => i < s.instances.size
  | _ => True

namespace Store

/-- All objects of the earlier store are objects of the later one, and what they were made
with is the same: the frame around a frame, the name and the methods of a class, the class of
an instance. -/
structure Persists (s s' : Store) : Prop where
  /-- Frames are only added. -/
  frames : s.frames.size ≤ s'.frames.size
  /-- Frames stay inside the frames they were made in. -/
  enclosing : ∀ e < s.frames.size, s'.enclosing? e = s.enclosing? e
  /-- Classes stay as they are. -/
  classes : ∀ (c : ClassId) cls, s.classes[c]? = some cls → s'.classes[c]? = some cls
  /-- Instances keep their classes. -/
  instances : ∀ (i : InstanceId) object, s.instances[i]? = some object →
    ∃ fields, s'.instances[i]? = some ⟨object.cls, fields⟩

/-- Whatever the store refers to is there, and frames are inside of older frames, up to the
global one. -/
structure Sound (globals : FrameId) (s : Store) : Prop where
  /-- What is bound to a name is there. -/
  values : ∀ e name v, s.getHere? e name = some v → v.In s
  /-- What is held in a field is there. -/
  fields : ∀ i name v, s.field? i name = some v → v.In s
  /-- The frames of methods are there. -/
  methods : ∀ c name f, s.method? c name = some f → f.frame < s.frames.size
  /-- The classes of instances are there. -/
  classes : ∀ (i : InstanceId) object, s.instances[i]? = some object →
    object.cls < s.classes.size
  /-- The frame around a frame is there, and was made before it. -/
  layered : s.Layered
  /-- The global frame is there. -/
  globals_lt : globals < s.frames.size
  /-- Only the global frame is not inside of another one. -/
  outermost : ∀ e < s.frames.size, s.enclosing? e = none ↔ e = globals

/-! ## What lasts -/

namespace Persists

variable {s s' s₁ s₂ s₃ : Store}

theorem refl (s : Store) : Persists s s where
  frames := Nat.le_refl _
  enclosing _ _ := rfl
  classes _ _ hcls := hcls
  instances _ object hobject := ⟨object.fields, hobject⟩

theorem trans (h : Persists s₁ s₂) (h' : Persists s₂ s₃) : Persists s₁ s₃ where
  frames := Nat.le_trans h.frames h'.frames
  enclosing e he := by
    rw [h'.enclosing e (Nat.lt_of_lt_of_le he h.frames), h.enclosing e he]
  classes c cls hcls := h'.classes c cls (h.classes c cls hcls)
  instances i object hobject := by
    obtain ⟨fields, hfields⟩ := h.instances i object hobject
    obtain ⟨fields', hfields'⟩ := h'.instances i _ hfields
    exact ⟨fields', hfields'⟩

theorem size_classes_le (h : Persists s s') : s.classes.size ≤ s'.classes.size := by
  refine Nat.le_of_not_lt fun hlt => ?_
  have hlater := h.classes _ _ (Array.getElem?_eq_getElem hlt)
  simp at hlater

theorem size_instances_le (h : Persists s s') : s.instances.size ≤ s'.instances.size := by
  refine Nat.le_of_not_lt fun hlt => ?_
  obtain ⟨fields, hlater⟩ := h.instances _ _ (Array.getElem?_eq_getElem hlt)
  simp at hlater

/-- Frames grow, and classes and instances are left alone. -/
theorem of_grows (h : s.Grows s') (hclasses : s'.classes = s.classes)
    (hinstances : s'.instances = s.instances) : Persists s s' where
  frames := h.size_le
  enclosing := h.enclosing?_eq
  classes c cls hcls := by rw [hclasses, hcls]
  instances i object hobject := ⟨object.fields, by rw [hinstances, hobject]⟩

theorem define (s : Store) (e : FrameId) (name : String) (value : Value) :
    Persists s (s.define e name value) := of_grows (.define s e name value) rfl rfl

theorem addFrame (s : Store) (enclosing : Option FrameId) :
    Persists s (s.addFrame enclosing).2 := of_grows (.addFrame s enclosing) rfl rfl

theorem defineAll (s : Store) (e : FrameId) (names : List String) (values : List Value) :
    Persists s (s.defineAll e names values) := by
  induction names generalizing s values with
  | nil => exact refl s
  | cons name names ih =>
    cases values with
    | nil => exact refl s
    | cons value values => exact (define s e name value).trans (ih _ values)

theorem addInstance (s : Store) (c : ClassId) : Persists s (s.addInstance c).2 where
  frames := Nat.le_refl _
  enclosing _ _ := rfl
  classes _ _ hcls := hcls
  instances i object hobject := by
    have hlt := (Array.getElem?_eq_some_iff.1 hobject).1
    refine ⟨object.fields, ?_⟩
    show (s.instances.push _)[i]? = _
    rw [Array.getElem?_push, if_neg (Nat.ne_of_lt hlt), hobject]

theorem addClass (s : Store) (cls : Class) : Persists s (s.addClass cls).2 where
  frames := Nat.le_refl _
  enclosing _ _ := rfl
  classes c cls' hcls := by
    have hlt := (Array.getElem?_eq_some_iff.1 hcls).1
    show (s.classes.push cls)[c]? = _
    rw [Array.getElem?_push, if_neg (Nat.ne_of_lt hlt), hcls]
  instances _ object hobject := ⟨object.fields, hobject⟩

theorem setField (s : Store) (i : InstanceId) (name : String) (value : Value) :
    Persists s (s.setField i name value) where
  frames := Nat.le_refl _
  enclosing _ _ := rfl
  classes _ _ hcls := hcls
  instances j object hobject := by
    show ∃ fields, (s.instances.modify i _)[j]? = _
    rw [Array.getElem?_modify, hobject]
    split
    · exact ⟨_, rfl⟩
    · exact ⟨_, rfl⟩

theorem property (s : Store) (i : InstanceId) (name : String) :
    Persists s (s.property i name).2 := by
  unfold Store.property
  split
  · exact refl s
  · exact refl s
  · exact (addFrame s _).trans (define _ _ _ _)

end Persists

theorem persists_declaredClass (s : Store) (e : FrameId) (name : String)
    (methods : List FunctionDecl) : s.Persists (Run.declaredClass s e name methods) :=
  ((Persists.define s e name .nil).trans (.addClass _ _)).trans (.define _ _ _ _)

theorem persists_assigned (m : Machine) (name : String) (node : Node) (value : Value) :
    m.store.Persists (Run.assigned m name node value).2 := by
  rw [Run.assigned_eq]
  split
  · exact .define _ _ _ _
  · exact .refl _

end Store

/-- No basic action changes what lasts. -/
theorem Act.persists (a : Act) (m : Machine) : m.store.Persists (a.store m) := by
  cases a with
  | assign name node value => exact Store.persists_assigned m name node value
  | readProperty i name => exact .property _ i name
  | setField i name value => exact .setField _ i name value
  | addInstance c => exact .addInstance _ c
  | define name value => exact .define _ _ _ _
  | defineFunction f => exact .define _ _ _ _
  | defineClass name methods => exact Store.persists_declaredClass _ _ _ _
  | openBlock => exact .addFrame _ _
  | openBody f arguments => exact (Store.Persists.addFrame _ _).trans (.defineAll _ _ _ _)
  | spent t =>
    cases t with
    | instantiate callee arguments paren =>
      cases callee with
      | «class» c =>
        rw [store]
        split
        · exact .addInstance _ c
        · exact .refl _
      | _ => exact .refl _
    | make c => exact .addInstance _ c
    | property object name nameSpan =>
      cases object with
      | «instance» i => exact .property _ i name
      | _ => exact .refl _
    | _ => exact .refl _
  | _ => exact .refl _

theorem Value.In.mono {v : Value} {s s' : Store} (h : v.In s) (hs : s.Persists s') : v.In s' := by
  cases v with
  | function f => exact Nat.lt_of_lt_of_le h hs.frames
  | «class» c => exact Nat.lt_of_lt_of_le h hs.size_classes_le
  | «instance» i => exact Nat.lt_of_lt_of_le h hs.size_instances_le
  | _ => trivial

theorem Value.in_ofConstant (s : Store) (c : Constant) : (Value.ofConstant c).In s := by
  cases c <;> trivial

/-! ## Operations on sound stores -/

namespace Store.Sound

variable {globals : FrameId} {s : Store}

/-- The store in which a session begins is sound. -/
theorem initial (limit : Nat) (output : Output) :
    (Machine.initial limit output).store.Sound (Machine.initial limit output).globals where
  values e name v h := by
    have hnone : (Store.empty.addFrame none).2.getHere? e name = none := by
      rw [getHere?_addFrame]
      exact getHere?_eq_none_of_le (Nat.zero_le _)
    have hsome : (Store.empty.addFrame none).2.getHere? e name = some v := h
    rw [hnone] at hsome
    cases hsome
  fields i name v h := by simp [Machine.initial, Store.empty, Store.addFrame, Store.field?] at h
  methods c name f h := by simp [Machine.initial, Store.empty, Store.addFrame, Store.method?] at h
  classes i object h := by simp [Machine.initial, Store.empty, Store.addFrame] at h
  layered := by
    have hlayered : (Store.empty.addFrame none).2.Layered :=
      Layered.addFrame Forest.empty.layered (by simp)
    exact hlayered
  globals_lt := Nat.zero_lt_one
  outermost e he := by
    obtain rfl : e = 0 := Nat.lt_one_iff.1 he
    exact ⟨fun _ => rfl, fun _ => rfl⟩

/-- The frame around a frame is there. -/
theorem enclosing_lt (h : s.Sound globals) {e outer : FrameId}
    (houter : s.enclosing? e = some outer) : outer < s.frames.size :=
  Nat.lt_trans (h.layered e outer houter) (lt_of_enclosing? houter)

theorem addFrame (h : s.Sound globals) {e : FrameId} (he : e < s.frames.size) :
    (s.addFrame (some e)).2.Sound globals where
  values e' name v hv := by
    rw [getHere?_addFrame] at hv
    exact (h.values e' name v hv).mono (.addFrame s _)
  fields i name v hv := (h.fields i name v hv).mono (.addFrame s _)
  methods c name f hf := Nat.lt_of_lt_of_le (h.methods c name f hf) (Persists.addFrame s _).frames
  classes := h.classes
  layered := h.layered.addFrame (by simpa using he)
  globals_lt := Nat.lt_of_lt_of_le h.globals_lt (Persists.addFrame s _).frames
  outermost e' he' := by
    rw [enclosing?_addFrame]
    split
    · next heq => simp [heq, Nat.ne_of_gt h.globals_lt]
    · next hne =>
      rw [size_addFrame] at he'
      exact h.outermost e' (Nat.lt_of_le_of_ne (Nat.le_of_lt_succ he') hne)

theorem define (h : s.Sound globals) (e : FrameId) (name : String) {v : Value} (hv : v.In s) :
    (s.define e name v).Sound globals where
  values e' name' v' hv' := by
    rw [getHere?_define] at hv'
    split at hv'
    · cases hv'
      exact hv.mono (.define s e name v)
    · exact (h.values e' name' v' hv').mono (.define s e name v)
  fields i name' v' hv' := (h.fields i name' v' hv').mono (.define s e name v)
  methods c name' f hf := by
    rw [size_define]
    exact h.methods c name' f hf
  classes := h.classes
  layered := h.layered.define e name v
  globals_lt := by
    rw [size_define]
    exact h.globals_lt
  outermost e' he' := by
    rw [size_define] at he'
    rw [enclosing?_define]
    exact h.outermost e' he'

theorem defineAll (h : s.Sound globals) (e : FrameId) (names : List String) {vs : List Value}
    (hvs : ∀ v ∈ vs, v.In s) : (s.defineAll e names vs).Sound globals := by
  induction names generalizing s vs with
  | nil => exact h
  | cons name names ih =>
    cases vs with
    | nil => exact h
    | cons v vs =>
      refine ih (h.define e name (hvs v (.head _))) fun v' hv' => ?_
      exact (hvs v' (.tail _ hv')).mono (.define s e name v)

theorem assigned {m : Machine} (h : m.store.Sound globals) (name : String) (node : Node)
    {v : Value} (hv : v.In m.store) : (Run.assigned m name node v).2.Sound globals := by
  rw [Run.assigned_eq]
  split
  · exact h.define _ name hv
  · exact h

theorem setField (h : s.Sound globals) (i : InstanceId) (name : String) {v : Value}
    (hv : v.In s) : (s.setField i name v).Sound globals where
  values e name' v' hv' := (h.values e name' v' hv').mono (.setField s i name v)
  fields i' name' v' hv' := by
    rw [field?_setField] at hv'
    split at hv'
    · cases hv'
      exact hv.mono (.setField s i name v)
    · exact (h.fields i' name' v' hv').mono (.setField s i name v)
  methods := h.methods
  classes i' object hobject := by
    -- the instance was there, with the same class
    have hlt : i' < (s.setField i name v).instances.size :=
      (Array.getElem?_eq_some_iff.1 hobject).1
    have hlt' : i' < s.instances.size := by simpa [Store.setField] using hlt
    have hold := Array.getElem?_eq_getElem hlt'
    obtain ⟨fields, hnew⟩ := (Persists.setField s i name v).instances i' _ hold
    rw [hobject] at hnew
    cases hnew
    exact h.classes i' s.instances[i'] hold
  layered := h.layered
  globals_lt := h.globals_lt
  outermost := h.outermost

theorem addInstance (h : s.Sound globals) {c : ClassId} (hc : c < s.classes.size) :
    (s.addInstance c).2.Sound globals where
  values e name v hv := (h.values e name v hv).mono (.addInstance s c)
  fields i name v hv := by
    rw [field?_addInstance] at hv
    exact (h.fields i name v hv).mono (.addInstance s c)
  methods := h.methods
  classes i object hobject := by
    replace hobject : (s.instances.push ⟨c, .empty⟩)[i]? = some object := hobject
    rw [Array.getElem?_push] at hobject
    split at hobject
    · cases hobject
      exact hc
    · exact h.classes i object hobject
  layered := h.layered
  globals_lt := h.globals_lt
  outermost := h.outermost

theorem addClass (h : s.Sound globals) (cls : Class)
    (hcls : ∀ name f, cls.methods.get? name = some f → f.frame < s.frames.size) :
    (s.addClass cls).2.Sound globals where
  values e name v hv := (h.values e name v hv).mono (.addClass s cls)
  fields i name v hv := (h.fields i name v hv).mono (.addClass s cls)
  methods c name f hf := by
    rw [method?_addClass] at hf
    split at hf
    · exact hcls name f hf
    · exact h.methods c name f hf
  classes i object hobject :=
    Nat.lt_of_lt_of_le (h.classes i object hobject) (Persists.addClass s cls).size_classes_le
  layered := h.layered
  globals_lt := h.globals_lt
  outermost := h.outermost

theorem declaredClass (h : s.Sound globals) {e : FrameId} (he : e < s.frames.size)
    (name : String) (methods : List FunctionDecl) :
    (Run.declaredClass s e name methods).Sound globals := by
  have hnil := h.define e name (v := .nil) trivial
  refine (hnil.addClass _ fun methodName f hf => ?_).define e name ?_
  · rw [(Run.mem_methodTable hf).2, size_define]
    exact he
  · show (s.define e name .nil).classes.size < ((s.define e name .nil).classes.push _).size
    rw [Array.size_push]
    exact Nat.lt_succ_self _

/-- Reading a property keeps the store sound, and what is read is there. -/
theorem property (h : s.Sound globals) (i : InstanceId) (name : String) :
    (s.property i name).2.Sound globals ∧
      ∀ v, (s.property i name).1 = some v → v.In (s.property i name).2 := by
  unfold Store.property
  split
  · exact ⟨h, fun v hv => by cases hv⟩
  · next value hfind =>
    refine ⟨h, fun v hv => ?_⟩
    cases hv
    exact h.fields i name value (findProperty?_eq_field hfind)
  · next f hfind =>
    obtain ⟨c, hf⟩ := findProperty?_eq_method hfind
    have hi : i < s.instances.size := by
      refine Nat.lt_of_not_le fun hle => ?_
      rw [findProperty?, Array.getElem?_eq_none hle] at hfind
      cases hfind
    refine ⟨(h.addFrame (h.methods c name f hf)).define _ _ hi, fun v hv => ?_⟩
    cases hv
    show s.frames.size < ((s.addFrame (some f.frame)).2.define s.frames.size _ _).frames.size
    rw [size_define, size_addFrame]
    exact Nat.lt_succ_self _

theorem found? {m : Machine} (h : m.store.Sound globals) {name : String} {node : Node}
    {v : Value} (hv : Run.found? m name node = some v) : v.In m.store := by
  unfold Run.found? at hv
  split at hv
  · unfold Store.getAt? at hv
    split at hv
    · cases hv
    · exact h.values _ name v hv
  · unfold Store.get? at hv
    split at hv
    · cases hv
    · exact h.values _ name v hv

end Store.Sound

end Lox
