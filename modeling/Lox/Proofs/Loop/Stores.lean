import Lox.Proofs.Loop.Places
import Lox.Proofs.Run.Laws

/-!
# Stores of both readings

The two readings of a program leave stores with the same objects: frames with the same numbers
and the same bindings, the same classes and the same instances.  They differ in which frame is
around which, since the frames of rounds are inside of the loop in one of them only.  A function
is aligned if from its frame on the chains of both stores are aligned with the place of its
declaration, and in stores that are `ReadAs` one another all functions are.
-/

namespace Lox

section

variable (known : Occurrence → Prop) (globals : FrameId) (s s' : Store)

/-- From the frame of the function on, both chains have the frames of its place. -/
structure Closure.AlignedAt (f : Closure) (place : Place) : Prop where
  /-- The chains are aligned with the place. -/
  aligned : Aligned globals s s' place f.frame f.frame
  /-- What occurs in the function is known. -/
  known : ∀ o ∈ f.decl.occurrences place, known o
  /-- The declaration is orderly. -/
  orderly : f.decl.Orderly

/-- A value that is a function is aligned at some place. -/
def Value.Aligned : Value → Prop
  | .function f => ∃ place, f.AlignedAt known globals s s' place
  | _ => True

/-- The function is a method of a class that was declared at the place. -/
structure Closure.AlignedMethod (f : Closure) (methods : List FunctionDecl) (place : Place) :
    Prop where
  /-- The method is one of the class. -/
  mem : f.decl ∈ methods
  /-- The chains are aligned with the place. -/
  aligned : Lox.Aligned globals s s' place f.frame f.frame
  /-- What occurs in the methods is known. -/
  known : ∀ o ∈ FunctionDecl.occurrencesAll (place.insideClass methods) methods, known o
  /-- The methods are orderly. -/
  orderly : FunctionDecl.OrderlyAll methods

/-- The stores hold the same objects, and all functions are aligned. -/
structure Store.ReadAs : Prop where
  /-- There are as many frames. -/
  size : s'.frames.size = s.frames.size
  /-- The frames bind the same. -/
  bindings : ∀ e name, s'.getHere? e name = s.getHere? e name
  /-- The classes are the same. -/
  classes : s'.classes = s.classes
  /-- The instances are the same. -/
  instances : s'.instances = s.instances
  /-- There is a global frame. -/
  lt : globals < s.frames.size
  /-- The global frame is inside no other one. -/
  outermost : s.enclosing? globals = none
  /-- Nor is it for the other reading. -/
  outermost' : s'.enclosing? globals = none
  /-- Functions in frames are aligned. -/
  frames : ∀ e name value, s.getHere? e name = some value → value.Aligned known globals s s'
  /-- Functions in fields are aligned. -/
  fields : ∀ i name value, s.field? i name = some value → value.Aligned known globals s s'
  /-- Methods are aligned. -/
  methods : ∀ c name f, s.method? c name = some f →
    ∃ methods place, f.AlignedMethod known globals s s' methods place

end

variable {known known' : Occurrence → Prop} {globals : FrameId} {s s' t t' : Store}

/-! ## Later stores, and more that is known -/

theorem Closure.AlignedAt.grow {f : Closure} {place : Place}
    (h : f.AlignedAt known globals s s' place) (hs : s.Grows t) (hs' : s'.Grows t') :
    f.AlignedAt known globals t t' place :=
  { h with aligned := h.aligned.grow hs hs' }

theorem Value.Aligned.grow {value : Value} (h : value.Aligned known globals s s')
    (hs : s.Grows t) (hs' : s'.Grows t') : value.Aligned known globals t t' := by
  cases value with
  | function f =>
    obtain ⟨place, hf⟩ := h
    exact ⟨place, hf.grow hs hs'⟩
  | _ => trivial

theorem Value.Aligned.mono {value : Value} (h : value.Aligned known globals s s')
    (hknown : ∀ o, known o → known' o) : value.Aligned known' globals s s' := by
  cases value with
  | function f =>
    obtain ⟨place, hf⟩ := h
    exact ⟨place, hf.aligned, fun o ho => hknown o (hf.known o ho), hf.orderly⟩
  | _ => trivial

theorem Closure.AlignedMethod.grow {f : Closure} {methods : List FunctionDecl} {place : Place}
    (h : f.AlignedMethod known globals s s' methods place) (hs : s.Grows t) (hs' : s'.Grows t') :
    f.AlignedMethod known globals t t' methods place :=
  { h with aligned := h.aligned.grow hs hs' }

/-! ## What the stores show -/

namespace Store.ReadAs

theorem mono (h : s.ReadAs known globals s') (hknown : ∀ o, known o → known' o) :
    s.ReadAs known' globals s' where
  size := h.size
  bindings := h.bindings
  classes := h.classes
  instances := h.instances
  lt := h.lt
  outermost := h.outermost
  outermost' := h.outermost'
  frames e name value hvalue := (h.frames e name value hvalue).mono hknown
  fields i name value hvalue := (h.fields i name value hvalue).mono hknown
  methods c name f hf := by
    obtain ⟨methods, place, hm⟩ := h.methods c name f hf
    exact ⟨methods, place, hm.mem, hm.aligned, fun o ho => hknown o (hm.known o ho), hm.orderly⟩

theorem className_eq (h : s.ReadAs known globals s') (c : ClassId) :
    s'.className c = s.className c := by
  rw [Store.className, Store.className, h.classes]

theorem display_eq (h : s.ReadAs known globals s') (value : Value) :
    s'.display value = s.display value := by
  cases value with
  | bool b => cases b <;> rfl
  | «class» c => rw [Store.display, Store.display, h.className_eq]
  | «instance» i =>
    simp only [Store.display, Store.instanceClassName, h.instances, h.className_eq]
  | _ => rfl

/-- The nearest binding of a global name is the same. -/
theorem binder?_eq (h : s.ReadAs known globals s') (name : String) :
    s'.binder? name globals = s.binder? name globals := by
  rw [Store.binder?_of_outermost h.lt h.outermost,
    Store.binder?_of_outermost (h.size.symm ▸ h.lt) h.outermost', h.bindings]

theorem findProperty?_eq (h : s.ReadAs known globals s') (i : InstanceId) (name : String) :
    s'.findProperty? i name = s.findProperty? i name := by
  simp only [Store.findProperty?, Store.method?, h.instances, h.classes]

/-! ## Changes -/

/-- Stores that have grown alike are read as one another if what is new is aligned. -/
theorem of_grows (h : s.ReadAs known globals s') (hs : s.Grows t) (hs' : s'.Grows t')
    (hsize : t'.frames.size = t.frames.size)
    (hbindings : ∀ e name, t'.getHere? e name = t.getHere? e name)
    (hclasses : t'.classes = t.classes) (hinstances : t'.instances = t.instances)
    (hframes : ∀ e name value, t.getHere? e name = some value →
      s.getHere? e name = some value ∨ value.Aligned known globals t t')
    (hfields : ∀ i name value, t.field? i name = some value →
      s.field? i name = some value ∨ value.Aligned known globals t t')
    (hmethods : ∀ c name f, t.method? c name = some f → s.method? c name = some f ∨
      ∃ methods place, f.AlignedMethod known globals t t' methods place) :
    t.ReadAs known globals t' where
  size := hsize
  bindings := hbindings
  classes := hclasses
  instances := hinstances
  lt := Nat.lt_of_lt_of_le h.lt hs.size_le
  outermost := (hs.enclosing?_eq _ h.lt).trans h.outermost
  outermost' := (hs'.enclosing?_eq _ (h.size.symm ▸ h.lt)).trans h.outermost'
  frames e name value hvalue := by
    rcases hframes e name value hvalue with hold | hnew
    · exact (h.frames e name value hold).grow hs hs'
    · exact hnew
  fields i name value hvalue := by
    rcases hfields i name value hvalue with hold | hnew
    · exact (h.fields i name value hold).grow hs hs'
    · exact hnew
  methods c name f hf := by
    rcases hmethods c name f hf with hold | hnew
    · obtain ⟨methods, place, hm⟩ := h.methods c name f hold
      exact ⟨methods, place, hm.grow hs hs'⟩
    · exact hnew

/-- The new frames may be inside of different ones. -/
theorem addFrame (h : s.ReadAs known globals s') (enclosing enclosing' : Option FrameId) :
    (s.addFrame enclosing).2.ReadAs known globals (s'.addFrame enclosing').2 := by
  refine h.of_grows (.addFrame _ _) (.addFrame _ _) ?_ (fun e name => ?_) h.classes h.instances
    (fun e name value hvalue => .inl ?_) (fun _ _ _ hvalue => .inl hvalue)
    (fun _ _ _ hf => .inl hf)
  · rw [Store.size_addFrame, Store.size_addFrame, h.size]
  · rw [Store.getHere?_addFrame, Store.getHere?_addFrame, h.bindings]
  · rwa [Store.getHere?_addFrame] at hvalue

/-- A value may be bound that is aligned once it is bound, such as a function that can call
itself. -/
theorem define (h : s.ReadAs known globals s') {e : FrameId} {name : String} {value : Value}
    (hvalue : value.Aligned known globals (s.define e name value) (s'.define e name value)) :
    (s.define e name value).ReadAs known globals (s'.define e name value) := by
  refine h.of_grows (.define _ _ _ _) (.define _ _ _ _) ?_ (fun e' name' => ?_) h.classes
    h.instances (fun e' name' value' h' => ?_) (fun _ _ _ h' => .inl h')
    (fun _ _ _ hf => .inl hf)
  · rw [Store.size_define, Store.size_define, h.size]
  · rw [Store.getHere?_define, Store.getHere?_define, h.size, h.bindings]
  · rw [Store.getHere?_define] at h'
    split at h'
    · cases h'
      exact .inr hvalue
    · exact .inl h'

theorem defineAll (h : s.ReadAs known globals s') (e : FrameId) (names : List String)
    {values : List Value} (hvalues : ∀ value ∈ values, value.Aligned known globals s s') :
    (s.defineAll e names values).ReadAs known globals (s'.defineAll e names values) := by
  induction names generalizing s s' values with
  | nil => exact h
  | cons name names ih =>
    cases values with
    | nil => exact h
    | cons value values =>
      have hs := Store.Grows.define s e name value
      have hs' := Store.Grows.define s' e name value
      refine ih (h.define ((hvalues value (List.mem_cons_self ..)).grow hs hs')) ?_
      exact fun value' hmem => (hvalues value' (List.mem_cons_of_mem _ hmem)).grow hs hs'

/-- An assignment to a global name finds it in both stores or in neither. -/
theorem assign (h : s.ReadAs known globals s') (name : String) {value : Value}
    (hvalue : value.Aligned known globals s s') :
    (s'.assign globals name value).1 = (s.assign globals name value).1 ∧
      (s.assign globals name value).2.ReadAs known globals (s'.assign globals name value).2 := by
  unfold Store.assign
  rw [h.binder?_eq]
  cases s.binder? name globals with
  | none => exact ⟨rfl, h⟩
  | some binder => exact ⟨rfl, h.define (hvalue.grow (.define _ _ _ _) (.define _ _ _ _))⟩

/-- So does an assignment at distances that lead to the same frame. -/
theorem assignAt (h : s.ReadAs known globals s') {e e' : FrameId} {d d' : Nat}
    (hancestor : s'.ancestor? d' e' = s.ancestor? d e) (name : String) {value : Value}
    (hvalue : value.Aligned known globals s s') :
    (s'.assignAt e' d' name value).1 = (s.assignAt e d name value).1 ∧
      (s.assignAt e d name value).2.ReadAs known globals (s'.assignAt e' d' name value).2 := by
  unfold Store.assignAt
  rw [hancestor]
  cases s.ancestor? d e with
  | none => exact ⟨rfl, h⟩
  | some frame => exact ⟨rfl, h.define (hvalue.grow (.define _ _ _ _) (.define _ _ _ _))⟩

theorem addInstance (h : s.ReadAs known globals s') (c : ClassId) :
    (s'.addInstance c).1 = (s.addInstance c).1 ∧
      (s.addInstance c).2.ReadAs known globals (s'.addInstance c).2 := by
  constructor
  · simp only [Store.addInstance, h.instances]
  · refine h.of_grows (.addInstance _ _) (.addInstance _ _) h.size h.bindings h.classes ?_
      (fun _ _ _ h' => .inl h') (fun i name value h' => .inl ?_) (fun _ _ _ hf => .inl hf)
    · simp only [Store.addInstance, h.instances]
    · rwa [Store.field?_addInstance] at h'

theorem setField (h : s.ReadAs known globals s') (i : InstanceId) (name : String)
    {value : Value} (hvalue : value.Aligned known globals s s') :
    (s.setField i name value).ReadAs known globals (s'.setField i name value) := by
  refine h.of_grows (.setField _ _ _ _) (.setField _ _ _ _) h.size h.bindings h.classes ?_
    (fun _ _ _ h' => .inl h') (fun i' name' value' h' => ?_) (fun _ _ _ hf => .inl hf)
  · simp only [Store.setField, h.instances]
  · rw [Store.field?_setField] at h'
    split at h'
    · cases h'
      exact .inr (hvalue.grow (.setField _ _ _ _) (.setField _ _ _ _))
    · exact .inl h'

theorem addClass (h : s.ReadAs known globals s') (cls : Class)
    (hcls : ∀ name f, cls.methods.get? name = some f →
      ∃ methods place, f.AlignedMethod known globals s s' methods place) :
    (s'.addClass cls).1 = (s.addClass cls).1 ∧
      (s.addClass cls).2.ReadAs known globals (s'.addClass cls).2 := by
  constructor
  · simp only [Store.addClass, h.classes]
  · refine h.of_grows (.addClass _ _) (.addClass _ _) h.size h.bindings ?_ h.instances
      (fun _ _ _ h' => .inl h') (fun _ _ _ h' => .inl h') (fun c name f hf => ?_)
    · simp only [Store.addClass, h.classes]
    · rw [Store.method?_addClass] at hf
      split at hf
      · obtain ⟨methods, place, hm⟩ := hcls name f hf
        exact .inr ⟨methods, place, hm.grow (.addClass _ _) (.addClass _ _)⟩
      · exact .inl hf

/-! ## Classes and properties -/

/-- A class that is declared in a frame outside of rounds is the same. -/
theorem declaredClass (h : s.ReadAs known globals s') {e : FrameId} {name : String}
    {methods : List FunctionDecl} {place : Place}
    (haligned : Aligned globals s s' (place.bind name true) e e)
    (hknown : ∀ o ∈ FunctionDecl.occurrencesAll ((place.bind name true).insideClass methods)
      methods, known o)
    (horderly : FunctionDecl.OrderlyAll methods) :
    (Run.declaredClass s e name methods).ReadAs known globals
      (Run.declaredClass s' e name methods) := by
  have hnil : (s.define e name .nil).ReadAs known globals (s'.define e name .nil) :=
    h.define trivial
  obtain ⟨hnumber, hclass⟩ := hnil.addClass ⟨name, Run.methodTable methods e⟩ fun other f hf => by
    obtain ⟨hmem, hframe⟩ := Run.mem_methodTable hf
    refine ⟨methods, place.bind name true, hmem, ?_, hknown, horderly⟩
    rw [hframe]
    exact haligned.grow (.define _ _ _ _) (.define _ _ _ _)
  simp only [Run.declaredClass]
  rw [hnumber]
  exact hclass.define trivial

/-- A method that is bound to a receiver is aligned at the place inside its class. -/
theorem bind (h : s.ReadAs known globals s') {f : Closure} {methods : List FunctionDecl}
    {place : Place} (hf : f.AlignedMethod known globals s s' methods place) (i : InstanceId) :
    (s'.bind f i).1 = (s.bind f i).1 ∧ (s.bind f i).2.ReadAs known globals (s'.bind f i).2 ∧
      (s.bind f i).1.AlignedAt known globals (s.bind f i).2 (s'.bind f i).2
        (place.insideClass methods) := by
  have hframe : (s'.addFrame (some f.frame)).1 = (s.addFrame (some f.frame)).1 := h.size
  have hscope : (Scope.receiver methods).isRound = false := rfl
  have haligned := hf.aligned.enter hscope h.size
  simp only [Store.bind]
  rw [hframe]
  refine ⟨rfl, (h.addFrame _ _).define trivial, ?_, fun o ho => hf.known o ?_,
    .of_mem hf.orderly hf.mem⟩
  · exact (haligned.bind rfl "this" true).grow (.define _ _ _ _) (.define _ _ _ _)
  · exact FunctionDecl.mem_occurrencesAll hf.mem ho

/-- Reading a property gives the same, and what is read is aligned. -/
theorem property (h : s.ReadAs known globals s') (i : InstanceId) (name : String) :
    (s'.property i name).1 = (s.property i name).1 ∧
      (s.property i name).2.ReadAs known globals (s'.property i name).2 ∧
      ∀ value, (s.property i name).1 = some value →
        value.Aligned known globals (s.property i name).2 (s'.property i name).2 := by
  unfold Store.property
  rw [h.findProperty?_eq]
  cases hfind : s.findProperty? i name with
  | none => exact ⟨rfl, h, fun value hvalue => by cases hvalue⟩
  | some found =>
    cases found with
    | field value =>
      refine ⟨rfl, h, fun value' hvalue => ?_⟩
      cases hvalue
      exact h.fields i name value (Store.findProperty?_eq_field hfind)
    | method f =>
      obtain ⟨c, hmethod⟩ := Store.findProperty?_eq_method hfind
      obtain ⟨methods, place, hf⟩ := h.methods c name f hmethod
      obtain ⟨hbound, hstore, haligned⟩ := h.bind hf i
      refine ⟨congrArg (fun f => some (Value.function f)) hbound, hstore, fun value hvalue => ?_⟩
      cases hvalue
      exact ⟨_, haligned⟩

end Store.ReadAs

/-- In the beginning there is only the global frame. -/
theorem Store.readAs_initial (known : Occurrence → Prop) :
    (Store.empty.addFrame none).2.ReadAs known 0 (Store.empty.addFrame none).2 where
  size := rfl
  bindings _ _ := rfl
  classes := rfl
  instances := rfl
  lt := Nat.zero_lt_one
  outermost := rfl
  outermost' := rfl
  frames e name value h := by
    rw [Store.getHere?_addFrame] at h
    simp [Store.empty, Store.getHere?] at h
  fields i name value h := by simp [Store.empty, Store.addFrame, Store.field?] at h
  methods c name f h := by simp [Store.empty, Store.addFrame, Store.method?] at h

end Lox
