import Lox.Proofs.Matching.Trees
import Lox.Proofs.Run.Laws
import Lox.Proofs.Value
import Mathlib.Data.List.Forall2

/-!
# Matching stores

While matching programs run, their stores hold the same objects at the same places, apart
from the trees in functions.  Every operation of the store answers alike on such stores and
leaves such stores.

**Identity.** Functions are compared by number and frame.  They are equal in both stores or
in neither if no two numbers of functions correspond to the same one
(`Matching.IsInjective`).
-/

namespace Lox

/-- Numbers of functions correspond one to one. -/
def Matching.IsInjective (μ : Matching) : Prop :=
  ∀ i i' j j', μ.function i i' → μ.function j j' → (i' = j' ↔ i = j)

section

variable (μ : Matching)

/-- The functions were made in the same frame from matching declarations. -/
structure Closure.Matches (f f' : Closure) : Prop where
  /-- The frame is the same. -/
  frame : f'.frame = f.frame
  /-- The declarations match. -/
  decl : FunctionDecl.Matches μ f.decl f'.decl

/-- The values are matching functions, or the same. -/
abbrev Value.Matches : Value → Value → Prop := Value.Lift (Closure.Matches μ)

/-- The classes have the same name and matching methods. -/
structure Class.Matches (cls cls' : Class) : Prop where
  /-- The name is the same. -/
  name : cls'.name = cls.name
  /-- The methods match. -/
  methods : ∀ name, Option.Rel (Closure.Matches μ) (cls.methods.get? name)
    (cls'.methods.get? name)

/-- The instances are of the same class and have matching values in their fields. -/
structure Instance.Matches (object object' : Instance) : Prop where
  /-- The class is the same. -/
  cls : object'.cls = object.cls
  /-- The fields match. -/
  fields : ∀ name, Option.Rel (Value.Matches μ) (object.fields.get? name)
    (object'.fields.get? name)

/-- The stores hold the same objects at the same places. -/
structure Store.Matches (s s' : Store) : Prop where
  /-- There are as many frames. -/
  frameCount : s'.frames.size = s.frames.size
  /-- The frames are inside of the same frames. -/
  enclosing : ∀ e, s'.enclosing? e = s.enclosing? e
  /-- The frames bind the same names to matching values. -/
  bindings : ∀ e name, Option.Rel (Value.Matches μ) (s.getHere? e name) (s'.getHere? e name)
  /-- There are as many classes. -/
  classCount : s'.classes.size = s.classes.size
  /-- The classes match. -/
  classes : ∀ c : ClassId, Option.Rel (Class.Matches μ) s.classes[c]? s'.classes[c]?
  /-- There are as many instances. -/
  instanceCount : s'.instances.size = s.instances.size
  /-- The instances match. -/
  instances : ∀ i : InstanceId, Option.Rel (Instance.Matches μ) s.instances[i]? s'.instances[i]?

end

variable {μ ν : Matching}

/-! ## Values -/

theorem Closure.Matches.mono (hμ : μ.Refines ν) {f f' : Closure} (h : f.Matches μ f') :
    f.Matches ν f' := ⟨h.frame, h.decl.mono hμ⟩

/-- Functions are the same in both runs or in neither. -/
theorem Closure.Matches.same_eq (hμ : μ.IsInjective) {f f' g g' : Closure}
    (hf : f.Matches μ f') (hg : g.Matches μ g') : f'.same g' = f.same g := by
  have hnumber := hμ _ _ _ _ hf.decl.number hg.decl.number
  simp only [Closure.same, hf.frame, hg.frame, hnumber]

namespace Store.Matches

variable {s s' : Store}

theorem mono (hμ : μ.Refines ν) (h : s.Matches μ s') : s.Matches ν s' where
  frameCount := h.frameCount
  enclosing := h.enclosing
  bindings e name := rel_imp (h.bindings e name) fun _ _ hvalue =>
    hvalue.mono fun _ _ hf => hf.mono hμ
  classCount := h.classCount
  classes c := rel_imp (h.classes c) fun _ _ hcls =>
    ⟨hcls.name, fun name => rel_imp (hcls.methods name) fun _ _ hf => hf.mono hμ⟩
  instanceCount := h.instanceCount
  instances i := rel_imp (h.instances i) fun _ _ hobject =>
    ⟨hobject.cls, fun name => rel_imp (hobject.fields name) fun _ _ hvalue =>
      hvalue.mono fun _ _ hf => hf.mono hμ⟩

theorem empty : Store.empty.Matches μ Store.empty where
  frameCount := rfl
  enclosing _ := rfl
  bindings _ _ := .none
  classCount := rfl
  classes _ := .none
  instanceCount := rfl
  instances _ := .none

/-! ## What the store answers -/

theorem ancestor?_eq (h : s.Matches μ s') (d : Nat) (e : FrameId) :
    s'.ancestor? d e = s.ancestor? d e := by
  induction d generalizing e with
  | zero => rfl
  | succ d ih =>
    rw [Store.ancestor?, Store.ancestor?, h.enclosing e]
    cases s.enclosing? e with
    | none => rfl
    | some outer => exact ih outer

theorem isSome_getHere?_eq (h : s.Matches μ s') (e : FrameId) (name : String) :
    (s'.getHere? e name).isSome = (s.getHere? e name).isSome := by
  have hbound := h.bindings e name
  generalize s.getHere? e name = bound at hbound ⊢
  generalize s'.getHere? e name = bound' at hbound ⊢
  cases hbound <;> rfl

theorem binder?_eq (h : s.Matches μ s') (name : String) (e : FrameId) :
    s'.binder? name e = s.binder? name e := by
  rw [Store.binder?, Store.binder?, h.frameCount]
  generalize s.frames.size = fuel
  induction fuel generalizing e with
  | zero => rfl
  | succ fuel ih =>
    rw [Store.binderWithin?, Store.binderWithin?, h.isSome_getHere?_eq, h.enclosing e]
    cases s.enclosing? e with
    | none => rfl
    | some outer => simp only [ih outer]

theorem getAt? (h : s.Matches μ s') (e : FrameId) (d : Nat) (name : String) :
    Option.Rel (Value.Matches μ) (s.getAt? e d name) (s'.getAt? e d name) := by
  rw [Store.getAt?, Store.getAt?, h.ancestor?_eq]
  cases s.ancestor? d e with
  | none => exact .none
  | some frame => exact h.bindings frame name

theorem get? (h : s.Matches μ s') (e : FrameId) (name : String) :
    Option.Rel (Value.Matches μ) (s.get? e name) (s'.get? e name) := by
  rw [Store.get?, Store.get?, h.binder?_eq]
  cases s.binder? name e with
  | none => exact .none
  | some frame => exact h.bindings frame name

theorem className_eq (h : s.Matches μ s') (c : ClassId) : s'.className c = s.className c := by
  have hc := h.classes c
  unfold Store.className
  generalize s.classes[c]? = cls at hc ⊢
  generalize s'.classes[c]? = cls' at hc ⊢
  cases hc with
  | some hcls => exact hcls.name
  | none => rfl

theorem instanceClassName_eq (h : s.Matches μ s') (i : InstanceId) :
    s'.instanceClassName i = s.instanceClassName i := by
  have hi := h.instances i
  unfold Store.instanceClassName
  generalize s.instances[i]? = object at hi ⊢
  generalize s'.instances[i]? = object' at hi ⊢
  cases hi with
  | some hobject =>
    simp only [hobject.cls]
    exact h.className_eq _
  | none => rfl

theorem display_eq (h : s.Matches μ s') {value value' : Value} (hvalue : value.Matches μ value') :
    s'.display value' = s.display value := by
  cases hvalue with
  | function hf => simp only [Store.display, hf.decl.name_eq]
  | same _ =>
    cases value with
    | «class» c => simp only [Store.display, h.className_eq]
    | «instance» i => simp only [Store.display, h.instanceClassName_eq]
    | bool b => cases b <;> rfl
    | _ => rfl

/-! ## Operations of the store -/

theorem define (h : s.Matches μ s') (e : FrameId) (name : String) {value value' : Value}
    (hvalue : value.Matches μ value') :
    (s.define e name value).Matches μ (s'.define e name value') where
  frameCount := by simp [h.frameCount]
  enclosing e' := by simp [h.enclosing]
  bindings e' other := by
    rw [Store.getHere?_define, Store.getHere?_define, h.frameCount]
    split
    · exact .some hvalue
    · exact h.bindings e' other
  classCount := h.classCount
  classes := h.classes
  instanceCount := h.instanceCount
  instances := h.instances

theorem defineAll (h : s.Matches μ s') (e : FrameId) (names : List String)
    {values values' : List Value} (hvalues : List.Forall₂ (Value.Matches μ) values values') :
    (s.defineAll e names values).Matches μ (s'.defineAll e names values') := by
  induction names generalizing s s' values values' with
  | nil => exact h
  | cons name names ih =>
    cases hvalues with
    | nil => exact h
    | cons hvalue hvalues => exact ih (h.define e name hvalue) hvalues

theorem assignAt (h : s.Matches μ s') (e : FrameId) (d : Nat) (name : String)
    {value value' : Value} (hvalue : value.Matches μ value') :
    (s'.assignAt e d name value').1 = (s.assignAt e d name value).1 ∧
      (s.assignAt e d name value).2.Matches μ (s'.assignAt e d name value').2 := by
  rw [Store.assignAt, Store.assignAt, h.ancestor?_eq]
  cases s.ancestor? d e with
  | none => exact ⟨rfl, h⟩
  | some frame => exact ⟨rfl, h.define frame name hvalue⟩

theorem assign (h : s.Matches μ s') (e : FrameId) (name : String) {value value' : Value}
    (hvalue : value.Matches μ value') :
    (s'.assign e name value').1 = (s.assign e name value).1 ∧
      (s.assign e name value).2.Matches μ (s'.assign e name value').2 := by
  rw [Store.assign, Store.assign, h.binder?_eq]
  cases s.binder? name e with
  | none => exact ⟨rfl, h⟩
  | some frame => exact ⟨rfl, h.define frame name hvalue⟩

theorem addFrame (h : s.Matches μ s') (enclosing : Option FrameId) :
    (s.addFrame enclosing).2.Matches μ (s'.addFrame enclosing).2 where
  frameCount := by simp [h.frameCount]
  enclosing e := by simp [Store.enclosing?_addFrame, h.enclosing, h.frameCount]
  bindings e name := by
    rw [Store.getHere?_addFrame, Store.getHere?_addFrame]
    exact h.bindings e name
  classCount := h.classCount
  classes := h.classes
  instanceCount := h.instanceCount
  instances := h.instances

theorem addClass (h : s.Matches μ s') {cls cls' : Class} (hcls : cls.Matches μ cls') :
    (s.addClass cls).2.Matches μ (s'.addClass cls').2 where
  frameCount := h.frameCount
  enclosing := h.enclosing
  bindings := h.bindings
  classCount := by simp [Store.addClass, h.classCount]
  classes c := by
    simp only [Store.addClass, Array.getElem?_push, h.classCount]
    split
    · exact .some hcls
    · exact h.classes c
  instanceCount := h.instanceCount
  instances := h.instances

theorem addInstance (h : s.Matches μ s') (c : ClassId) :
    (s.addInstance c).2.Matches μ (s'.addInstance c).2 where
  frameCount := h.frameCount
  enclosing := h.enclosing
  bindings := h.bindings
  classCount := h.classCount
  classes := h.classes
  instanceCount := by simp [Store.addInstance, h.instanceCount]
  instances i := by
    simp only [Store.addInstance, Array.getElem?_push, h.instanceCount]
    split
    · exact .some ⟨rfl, fun _ => .none⟩
    · exact h.instances i

theorem setField (h : s.Matches μ s') (i : InstanceId) (name : String) {value value' : Value}
    (hvalue : value.Matches μ value') :
    (s.setField i name value).Matches μ (s'.setField i name value') where
  frameCount := h.frameCount
  enclosing := h.enclosing
  bindings := h.bindings
  classCount := h.classCount
  classes := h.classes
  instanceCount := by simp [Store.setField, h.instanceCount]
  instances i' := by
    have hi := h.instances i'
    simp only [Store.setField, Array.getElem?_modify]
    split
    · generalize s.instances[i']? = object at hi ⊢
      generalize s'.instances[i']? = object' at hi ⊢
      cases hi with
      | none => exact .none
      | some hobject =>
        constructor
        constructor
        · exact hobject.cls
        · intro other
          simp only [Bindings.get?_set]
          split
          · exact .some hvalue
          · exact hobject.fields other
    · exact hi

/-! ## Methods -/

theorem foldl_methods (e : FrameId) {methods methods' : List FunctionDecl}
    (hmethods : FunctionDecl.MatchesAll μ methods methods') {table table' : Bindings Closure}
    (htable : ∀ name, Option.Rel (Closure.Matches μ) (table.get? name) (table'.get? name))
    (name : String) :
    Option.Rel (Closure.Matches μ)
      ((methods.foldl (fun table decl => table.set decl.name ⟨decl, e⟩) table).get? name)
      ((methods'.foldl (fun table decl => table.set decl.name ⟨decl, e⟩) table').get? name) := by
  induction methods generalizing methods' table table' with
  | nil =>
    cases hmethods
    exact htable name
  | cons f fs ih =>
    cases hmethods with
    | cons hf hfs =>
      apply ih hfs
      intro other
      rw [Bindings.get?_set, Bindings.get?_set, hf.name_eq]
      split
      · exact .some ⟨rfl, hf⟩
      · exact htable other

theorem declaredClass (h : s.Matches μ s') (e : FrameId) (name : String)
    {methods methods' : List FunctionDecl}
    (hmethods : FunctionDecl.MatchesAll μ methods methods') :
    (Run.declaredClass s e name methods).Matches μ (Run.declaredClass s' e name methods') := by
  have hcls : Class.Matches μ ⟨name, Run.methodTable methods e⟩
      ⟨name, Run.methodTable methods' e⟩ :=
    ⟨rfl, foldl_methods e hmethods fun _ => .none⟩
  have hmade := (h.define e name .nil).addClass hcls
  have hdefined := hmade.define e name (.class (s.define e name .nil).classes.size)
  unfold Run.declaredClass
  simpa [Store.addClass, h.classCount, Store.define] using hdefined

theorem method? (h : s.Matches μ s') (c : ClassId) (name : String) :
    Option.Rel (Closure.Matches μ) (s.method? c name) (s'.method? c name) := by
  have hc := h.classes c
  unfold Store.method?
  generalize s.classes[c]? = cls at hc ⊢
  generalize s'.classes[c]? = cls' at hc ⊢
  cases hc with
  | some hcls => exact hcls.methods name
  | none => exact .none

/-- What a property name stands for matches. -/
theorem findProperty? (h : s.Matches μ s') (i : InstanceId) (name : String) :
    (s.findProperty? i name = none ∧ s'.findProperty? i name = none) ∨
    (∃ value value', s.findProperty? i name = some (.field value) ∧
      s'.findProperty? i name = some (.field value') ∧ value.Matches μ value') ∨
    (∃ f f', s.findProperty? i name = some (.method f) ∧
      s'.findProperty? i name = some (.method f') ∧ f.Matches μ f') := by
  have hi := h.instances i
  unfold Store.findProperty?
  generalize s.instances[i]? = object at hi ⊢
  generalize s'.instances[i]? = object' at hi ⊢
  cases hi with
  | none => exact .inl ⟨rfl, rfl⟩
  | @some object object' hobject =>
    have hfield := hobject.fields name
    have hmethod := h.method? object.cls name
    simp only [hobject.cls]
    generalize object.fields.get? name = value at hfield ⊢
    generalize object'.fields.get? name = value' at hfield ⊢
    cases hfield with
    | some hvalue => exact .inr (.inl ⟨_, _, rfl, rfl, hvalue⟩)
    | none =>
      generalize s.method? object.cls name = f at hmethod ⊢
      generalize s'.method? object.cls name = f' at hmethod ⊢
      cases hmethod with
      | some hf => exact .inr (.inr ⟨_, _, rfl, rfl, hf⟩)
      | none => exact .inl ⟨rfl, rfl⟩

theorem bind (h : s.Matches μ s') {f f' : Closure} (hf : f.Matches μ f') (i : InstanceId) :
    (s.bind f i).1.Matches μ (s'.bind f' i).1 ∧ (s.bind f i).2.Matches μ (s'.bind f' i).2 := by
  have hbound := (h.addFrame (some f.frame)).define s.frames.size "this" (.instance i)
  unfold Store.bind
  rw [hf.frame]
  constructor
  · exact ⟨h.frameCount, hf.decl⟩
  · simpa [Store.addFrame, h.frameCount] using hbound

/-- Reading a property answers a matching value. -/
theorem property (h : s.Matches μ s') (i : InstanceId) (name : String) :
    Option.Rel (Value.Matches μ) (s.property i name).1 (s'.property i name).1 ∧
      (s.property i name).2.Matches μ (s'.property i name).2 := by
  unfold Store.property
  rcases h.findProperty? i name with ⟨hs, hs'⟩ | ⟨value, value', hs, hs', hvalue⟩ |
    ⟨f, f', hs, hs', hf⟩
  · rw [hs, hs']
    exact ⟨.none, h⟩
  · rw [hs, hs']
    exact ⟨.some hvalue, h⟩
  · rw [hs, hs']
    obtain ⟨hbound, hstore⟩ := h.bind hf i
    exact ⟨.some (.function hbound), hstore⟩

end Store.Matches

end Lox
