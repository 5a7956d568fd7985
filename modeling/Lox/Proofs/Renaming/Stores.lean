import Lox.Proofs.Renaming.Trees
import Lox.Proofs.Value
import Mathlib.Data.List.Forall2

/-!
# Stores of renamed programs

While a program and the renamed program run, their stores hold the same objects, apart
from the renamed trees in functions and the name of the variable in the frames of the
renamed scope.  The depth of every frame is kept along: `some 0` for a frame of the
renamed scope, and `some d` for a frame that is `d` links inside of one.
-/

namespace Lox

section

variable (r : Renaming) (depths : List Depth)

/-- The functions come from the same declaration, renamed at the depth of their frame. -/
structure Closure.Renamed (f f' : Closure) : Prop where
  /-- They were made in the same frame. -/
  frame : f'.frame = f.frame
  /-- The declaration is renamed. -/
  decl : ∃ k, depths[f.frame]? = some k ∧ FunctionDecl.Renamed r k f.decl f'.decl

/-- The methods come from the same declaration.  The scope of the receiver lies between
a method and its frame. -/
structure Closure.RenamedMethod (f f' : Closure) : Prop where
  /-- They were made in the same frame. -/
  frame : f'.frame = f.frame
  /-- The declaration is renamed. -/
  decl : ∃ k : Depth, depths[f.frame]? = some k ∧ FunctionDecl.Renamed r k.inward f.decl f'.decl

/-- The values are renamed functions, or the same. -/
inductive Value.Renamed : Value → Value → Prop
  | function {f f'} : f.Renamed r depths f' → Value.Renamed (.function f) (.function f')
  | same {value} : (∀ f, value ≠ .function f) → Value.Renamed value value

/-- The classes have the same name and renamed methods. -/
structure Class.Renamed (cls cls' : Class) : Prop where
  /-- The name is the same. -/
  name : cls'.name = cls.name
  /-- The methods are renamed. -/
  methods : ∀ name, Option.Rel (Closure.RenamedMethod r depths) (cls.methods.get? name)
    (cls'.methods.get? name)

/-- The instances are of the same class and have renamed values in their fields. -/
structure Instance.Renamed (object object' : Instance) : Prop where
  /-- The class is the same. -/
  cls : object'.cls = object.cls
  /-- The fields are renamed. -/
  fields : ∀ name, Option.Rel (Value.Renamed r depths) (object.fields.get? name)
    (object'.fields.get? name)

/-- The stores hold the same objects, up to renaming. -/
structure Store.Renamed (s s' : Store) : Prop where
  /-- Every frame has a depth. -/
  size : s.frames.size = depths.length
  /-- There are as many frames. -/
  size_eq : s'.frames.size = s.frames.size
  /-- The frames are inside of the same frames. -/
  enclosing : ∀ e, s'.enclosing? e = s.enclosing? e
  /-- The depth counts the links to the renamed scope. -/
  outward : ∀ e outer k, s.enclosing? e = some outer → depths[e]? = some k →
    depths[outer]? = some k.outward
  /-- The frames bind the same names, apart from the renamed one. -/
  bindings : ∀ e k name, depths[e]? = some k → name ≠ r.new →
    Option.Rel (Value.Renamed r depths) (s.getHere? e name) (s'.getHere? e (r.declared k name))
  /-- There are as many classes. -/
  classCount : s'.classes.size = s.classes.size
  /-- The classes are renamed. -/
  classes : ∀ c : ClassId, Option.Rel (Class.Renamed r depths) s.classes[c]? s'.classes[c]?
  /-- There are as many instances. -/
  instanceCount : s'.instances.size = s.instances.size
  /-- The instances are renamed. -/
  instances : ∀ i : InstanceId,
    Option.Rel (Instance.Renamed r depths) s.instances[i]? s'.instances[i]?

end

variable {r : Renaming} {depths depths' : List Depth}

/-! ## More frames -/

/-- Frames keep their depth when there are more of them. -/
theorem depth_mono (h : depths <+: depths') {e : FrameId} {k : Depth}
    (hk : depths[e]? = some k) : depths'[e]? = some k := by
  obtain ⟨more, rfl⟩ := h
  rw [List.getElem?_append_left (List.getElem?_eq_some_iff.1 hk).1, hk]

theorem Closure.Renamed.mono {f f' : Closure} (h : f.Renamed r depths f')
    (hmore : depths <+: depths') : f.Renamed r depths' f' := by
  obtain ⟨hframe, k, hk, hdecl⟩ := h
  exact ⟨hframe, k, depth_mono hmore hk, hdecl⟩

theorem Closure.RenamedMethod.mono {f f' : Closure} (h : f.RenamedMethod r depths f')
    (hmore : depths <+: depths') : f.RenamedMethod r depths' f' := by
  obtain ⟨hframe, k, hk, hdecl⟩ := h
  exact ⟨hframe, k, depth_mono hmore hk, hdecl⟩

theorem Value.Renamed.mono {value value' : Value} (h : value.Renamed r depths value')
    (hmore : depths <+: depths') : value.Renamed r depths' value' := by
  cases h with
  | function hf => exact .function (hf.mono hmore)
  | same hvalue => exact .same hvalue

theorem Class.Renamed.mono {cls cls' : Class} (h : cls.Renamed r depths cls')
    (hmore : depths <+: depths') : cls.Renamed r depths' cls' :=
  ⟨h.name, fun name => rel_imp (h.methods name) fun _ _ hf => hf.mono hmore⟩

theorem Instance.Renamed.mono {object object' : Instance}
    (h : object.Renamed r depths object') (hmore : depths <+: depths') :
    object.Renamed r depths' object' :=
  ⟨h.cls, fun name => rel_imp (h.fields name) fun _ _ hvalue => hvalue.mono hmore⟩

/-! ## What values show -/

/-- Functions are the same if they were before: they keep their number and frame. -/
theorem Closure.Renamed.same_eq {f f' g g' : Closure} (hf : f.Renamed r depths f')
    (hg : g.Renamed r depths g') : f'.same g' = f.same g := by
  obtain ⟨kf, -, hfdecl⟩ := hf.decl
  obtain ⟨kg, -, hgdecl⟩ := hg.decl
  simp only [Closure.same, hf.frame, hg.frame, hfdecl.number_eq, hgdecl.number_eq]

namespace Value.Renamed

variable {a a' b b' : Value}

theorem nil : Value.Renamed r depths .nil .nil := .same (by simp)

theorem «class» (c : ClassId) : Value.Renamed r depths (.class c) (.class c) :=
  .same (by simp)

theorem «instance» (i : InstanceId) : Value.Renamed r depths (.instance i) (.instance i) :=
  .same (by simp)

theorem ofConstant (c : Constant) :
    Value.Renamed r depths (.ofConstant c) (.ofConstant c) :=
  .same fun f => by cases c <;> simp [Value.ofConstant]

/-- The values are related by their functions alone, so what holds of such values holds
of them. -/
theorem lift (h : a.Renamed r depths a') :
    Value.Lift (Closure.Renamed r depths) a a' := by
  cases h with
  | function hf => exact .function hf
  | same ha => exact .same ha

theorem isTruthy_eq (h : a.Renamed r depths a') : a'.isTruthy = a.isTruthy :=
  h.lift.isTruthy_eq

theorem isDecidedBy_eq (h : a.Renamed r depths a') (op : LogicalOp) :
    op.isDecidedBy a' = op.isDecidedBy a :=
  h.lift.isDecidedBy_eq op

theorem unary_eq (h : a.Renamed r depths a') (op : UnaryOp) : op.apply a' = op.apply a :=
  h.lift.unary_eq op

theorem binary_eq (ha : a.Renamed r depths a') (hb : b.Renamed r depths b') (op : BinaryOp) :
    op.apply a' b' = op.apply a b :=
  ha.lift.binary_eq (fun _ _ _ _ hf hg => hf.same_eq hg) hb.lift op

end Value.Renamed

/-! ## What the store answers -/

namespace Store.Renamed

variable {s s' : Store}

theorem lt_size (h : s.Renamed r depths s') {e : FrameId} {k : Depth}
    (hk : depths[e]? = some k) : e < s.frames.size := by
  rw [h.size]
  exact (List.getElem?_eq_some_iff.1 hk).1

theorem ancestor?_eq (h : s.Renamed r depths s') (d : Nat) (e : FrameId) :
    s'.ancestor? d e = s.ancestor? d e := by
  induction d generalizing e with
  | zero => rfl
  | succ d ih =>
    rw [Store.ancestor?, Store.ancestor?, h.enclosing e]
    cases s.enclosing? e with
    | none => rfl
    | some outer => exact ih outer

/-- A frame so many links up the chain is a renamed one if the depth says so. -/
theorem depth_ancestor? (h : s.Renamed r depths s') {d : Nat} {e frame : FrameId} {k : Depth}
    (hk : depths[e]? = some k) (hframe : s.ancestor? d e = some frame) :
    ∃ k', depths[frame]? = some k' ∧ (k' = some 0 ↔ k = some d) := by
  induction d generalizing e k with
  | zero =>
    cases hframe
    exact ⟨k, hk, Iff.rfl⟩
  | succ d ih =>
    rw [Store.ancestor?] at hframe
    cases houter : s.enclosing? e with
    | none => simp [houter] at hframe
    | some outer =>
      rw [houter] at hframe
      obtain ⟨k', hk', hzero⟩ := ih (h.outward e outer k houter hk) hframe
      refine ⟨k', hk', hzero.trans ?_⟩
      rcases k with _ | _ | k <;> simp [Depth.outward]

/-- What stands at an occurrence is declared in the frame at its distance. -/
theorem spelled_ancestor? (h : s.Renamed r depths s') {d : Nat} {e frame : FrameId}
    {k : Depth} (hk : depths[e]? = some k) (hframe : s.ancestor? d e = some frame)
    (name : String) :
    ∃ k', depths[frame]? = some k' ∧ r.spelled k (some d) name = r.declared k' name := by
  obtain ⟨k', hk', hzero⟩ := h.depth_ancestor? hk hframe
  refine ⟨k', hk', ?_⟩
  simp only [Renaming.spelled, Renaming.declared, hzero]
  by_cases hd : k = some d <;> simp [hd, eq_comm]

theorem className_eq (h : s.Renamed r depths s') (c : ClassId) :
    s'.className c = s.className c := by
  have hc := h.classes c
  unfold Store.className
  generalize s.classes[c]? = cls at hc ⊢
  generalize s'.classes[c]? = cls' at hc ⊢
  cases hc with
  | some hcls => exact hcls.name
  | none => rfl

theorem instanceClassName_eq (h : s.Renamed r depths s') (i : InstanceId) :
    s'.instanceClassName i = s.instanceClassName i := by
  have hi := h.instances i
  unfold Store.instanceClassName
  generalize s.instances[i]? = object at hi ⊢
  generalize s'.instances[i]? = object' at hi ⊢
  cases hi with
  | some hobject =>
    simp only [hobject.cls]
    exact h.className_eq _
  | none => rfl

theorem display_eq (h : s.Renamed r depths s') {value value' : Value}
    (hvalue : value.Renamed r depths value') : s'.display value' = s.display value := by
  cases hvalue with
  | function hf =>
    obtain ⟨k, -, hdecl⟩ := hf.decl
    simp only [Store.display, hdecl.name_eq]
  | same _ =>
    cases value with
    | «class» c => simp only [Store.display, h.className_eq]
    | «instance» i => simp only [Store.display, h.instanceClassName_eq]
    | bool b => cases b <;> rfl
    | _ => rfl

/-- Reading exactly so many links up the chain finds the same under the name that stands
at the occurrence. -/
theorem getAt? (h : s.Renamed r depths s') {e : FrameId} {k : Depth}
    (hk : depths[e]? = some k) {d : Nat} {name : String} (hname : name ≠ r.new) :
    Option.Rel (Value.Renamed r depths) (s.getAt? e d name)
      (s'.getAt? e d (r.spelled k (some d) name)) := by
  rw [Store.getAt?, Store.getAt?, h.ancestor?_eq]
  cases hframe : s.ancestor? d e with
  | none => exact .none
  | some frame =>
    obtain ⟨k', hk', hspelled⟩ := h.spelled_ancestor? hk hframe name
    rw [hspelled]
    exact h.bindings frame k' name hk' hname

/-! ## Operations of the store -/

theorem define (h : s.Renamed r depths s') {e : FrameId} {k : Depth}
    (hk : depths[e]? = some k) {name : String} (hname : name ≠ r.new) {value value' : Value}
    (hvalue : value.Renamed r depths value') :
    (s.define e name value).Renamed r depths (s'.define e (r.declared k name) value') where
  size := by simp [h.size]
  size_eq := by simp [h.size_eq]
  enclosing e' := by simp [h.enclosing]
  outward e' outer k' houter hk' := by
    rw [Store.enclosing?_define] at houter
    exact h.outward e' outer k' houter hk'
  bindings e' k' other hk' hother := by
    rw [Store.getHere?_define, Store.getHere?_define]
    by_cases hsame : e = e' ∧ name = other
    · obtain ⟨rfl, rfl⟩ := hsame
      rw [hk] at hk'
      cases hk'
      have hlt := h.lt_size hk
      rw [if_pos ⟨rfl, rfl, hlt⟩, if_pos ⟨rfl, rfl, h.size_eq ▸ hlt⟩]
      exact .some hvalue
    · rw [if_neg fun hr => hsame ⟨hr.1, hr.2.1⟩, if_neg]
      · exact h.bindings e' k' other hk' hother
      · rintro ⟨rfl, hr, -⟩
        rw [hk] at hk'
        cases hk'
        exact hsame ⟨rfl, Renaming.declared_inj hname hother hr⟩
  classCount := h.classCount
  classes := h.classes
  instanceCount := h.instanceCount
  instances := h.instances

theorem defineAll (h : s.Renamed r depths s') {e : FrameId} {k : Depth}
    (hk : depths[e]? = some k) {names : List String} (hnames : ∀ name ∈ names, name ≠ r.new)
    {values values' : List Value} (hvalues : List.Forall₂ (Value.Renamed r depths) values values') :
    (s.defineAll e names values).Renamed r depths
      (s'.defineAll e (names.map (r.declared k)) values') := by
  induction names generalizing s s' values values' with
  | nil => exact h
  | cons name names ih =>
    cases hvalues with
    | nil => exact h
    | cons hvalue hvalues =>
      have hname := hnames name (List.mem_cons_self ..)
      exact ih (h.define hk hname hvalue)
        (fun other hother => hnames other (List.mem_cons_of_mem _ hother)) hvalues

/-- Assigning exactly so many links up the chain changes the same variable. -/
theorem assignAt (h : s.Renamed r depths s') {e : FrameId} {k : Depth}
    (hk : depths[e]? = some k) {d : Nat} {name : String} (hname : name ≠ r.new)
    {value value' : Value} (hvalue : value.Renamed r depths value') :
    (s'.assignAt e d (r.spelled k (some d) name) value').1 = (s.assignAt e d name value).1 ∧
      (s.assignAt e d name value).2.Renamed r depths
        (s'.assignAt e d (r.spelled k (some d) name) value').2 := by
  rw [Store.assignAt, Store.assignAt, h.ancestor?_eq]
  cases hframe : s.ancestor? d e with
  | none => exact ⟨rfl, h⟩
  | some frame =>
    obtain ⟨k', hk', hspelled⟩ := h.spelled_ancestor? hk hframe name
    rw [hspelled]
    exact ⟨rfl, h.define hk' hname hvalue⟩

/-- So does assigning to a global variable. -/
theorem assign (h : s.Renamed r depths s') {e : FrameId} (he : depths[e]? = some none)
    (houtermost : s.enclosing? e = none) {name : String} (hname : name ≠ r.new)
    {value value' : Value} (hvalue : value.Renamed r depths value') :
    (s'.assign e name value').1 = (s.assign e name value).1 ∧
      (s.assign e name value).2.Renamed r depths (s'.assign e name value').2 := by
  have hlt := h.lt_size he
  have hbound := h.bindings e none name he hname
  rw [Renaming.declared_of_ne_zero (by simp)] at hbound
  rw [Store.assign, Store.assign, Store.binder?_of_outermost hlt houtermost,
    Store.binder?_of_outermost (h.size_eq ▸ hlt) ((h.enclosing e).trans houtermost)]
  generalize s.getHere? e name = bound at hbound ⊢
  generalize s'.getHere? e name = bound' at hbound ⊢
  cases hbound with
  | none => exact ⟨rfl, h⟩
  | some _ =>
    have hdefined := h.define he hname hvalue
    rw [Renaming.declared_of_ne_zero (by simp)] at hdefined
    exact ⟨rfl, hdefined⟩

theorem empty : Store.empty.Renamed r [] Store.empty where
  size := rfl
  size_eq := rfl
  enclosing _ := rfl
  outward _ _ _ _ hk := by cases hk
  bindings _ _ _ hk := by cases hk
  classCount := rfl
  classes _ := .none
  instanceCount := rfl
  instances _ := .none

/-- A new frame inside another one may belong to a renamed scope or not. -/
theorem addFrame (h : s.Renamed r depths s') (enclosing : Option FrameId) {k : Depth}
    (henclosing : ∀ e, enclosing = some e → depths[e]? = some k.outward) :
    (s.addFrame enclosing).2.Renamed r (depths ++ [k]) (s'.addFrame enclosing).2 where
  size := by simp [h.size]
  size_eq := by simp [h.size_eq]
  enclosing e' := by simp [Store.enclosing?_addFrame, h.enclosing, h.size_eq]
  outward e' outer k' houter hk' := by
    have hmore : depths <+: depths ++ [k] := List.prefix_append ..
    rw [Store.enclosing?_addFrame] at houter
    split at houter
    · next hnew =>
      rw [hnew, h.size, List.getElem?_concat_length] at hk'
      cases hk'
      exact depth_mono hmore (henclosing outer houter)
    · have hlt := Store.lt_of_enclosing? houter
      rw [List.getElem?_append_left (h.size ▸ hlt)] at hk'
      exact depth_mono hmore (h.outward e' outer k' houter hk')
  bindings e' k' name hk' hname := by
    have hmore : depths <+: depths ++ [k] := List.prefix_append ..
    rw [Store.getHere?_addFrame, Store.getHere?_addFrame]
    by_cases hlt : e' < depths.length
    · rw [List.getElem?_append_left hlt] at hk'
      exact rel_imp (h.bindings e' k' name hk' hname) fun _ _ hvalue => hvalue.mono hmore
    · have hle : s.frames.size ≤ e' := h.size ▸ Nat.le_of_not_lt hlt
      rw [Store.getHere?_eq_none_of_le hle, Store.getHere?_eq_none_of_le (h.size_eq ▸ hle)]
      exact .none
  classCount := h.classCount
  classes c := rel_imp (h.classes c) fun _ _ hcls => hcls.mono (List.prefix_append ..)
  instanceCount := h.instanceCount
  instances i := rel_imp (h.instances i) fun _ _ hobject => hobject.mono (List.prefix_append ..)

theorem addClass (h : s.Renamed r depths s') {cls cls' : Class}
    (hcls : cls.Renamed r depths cls') :
    (s.addClass cls).2.Renamed r depths (s'.addClass cls').2 where
  size := h.size
  size_eq := h.size_eq
  enclosing := h.enclosing
  outward := h.outward
  bindings := h.bindings
  classCount := by simp [Store.addClass, h.classCount]
  classes c := by
    simp only [Store.addClass, Array.getElem?_push, h.classCount]
    split
    · exact .some hcls
    · exact h.classes c
  instanceCount := h.instanceCount
  instances := h.instances

theorem foldl_methods {e : FrameId} {k : Depth} (he : depths[e]? = some k)
    {methods methods' : List FunctionDecl}
    (hmethods : FunctionDecl.RenamedAll r k.inward methods methods')
    {table table' : Bindings Closure}
    (htable : ∀ name, Option.Rel (Closure.RenamedMethod r depths) (table.get? name)
      (table'.get? name)) (name : String) :
    Option.Rel (Closure.RenamedMethod r depths)
      ((methods.foldl (fun table decl => table.set decl.name ⟨decl, e⟩) table).get? name)
      ((methods'.foldl (fun table decl => table.set decl.name ⟨decl, e⟩) table').get? name) := by
  induction methods generalizing methods' table table' with
  | nil =>
    cases hmethods
    exact htable name
  | cons f fs ih =>
    cases hmethods with
    | cons hf hfs =>
      refine ih hfs fun other => ?_
      rw [Bindings.get?_set, Bindings.get?_set, hf.name_eq]
      split
      · exact .some ⟨rfl, k, he, hf⟩
      · exact htable other

/-- A class declaration makes a renamed class. -/
theorem declaredClass (h : s.Renamed r depths s') {e : FrameId} {k : Depth}
    (he : depths[e]? = some k) {name : String} (hname : name ≠ r.new)
    (hold : k = some 0 → name ≠ r.old) {methods methods' : List FunctionDecl}
    (hmethods : FunctionDecl.RenamedAll r k.inward methods methods') :
    (Run.declaredClass s e name methods).Renamed r depths
      (Run.declaredClass s' e name methods') := by
  have hbound := h.define he hname .nil
  have hcls : Class.Renamed r depths ⟨name, Run.methodTable methods e⟩
      ⟨name, Run.methodTable methods' e⟩ := ⟨rfl, foldl_methods he hmethods fun _ => .none⟩
  have hmade := hbound.addClass hcls
  have hdefined := hmade.define he hname
    (.class (s.define e name .nil).classes.size)
  rw [Renaming.declared_of_imp hold] at hdefined
  unfold Run.declaredClass
  simpa [Store.addClass, h.classCount, Store.define] using hdefined

theorem addInstance (h : s.Renamed r depths s') (c : ClassId) :
    (s.addInstance c).2.Renamed r depths (s'.addInstance c).2 where
  size := h.size
  size_eq := h.size_eq
  enclosing := h.enclosing
  outward := h.outward
  bindings := h.bindings
  classCount := h.classCount
  classes := h.classes
  instanceCount := by simp [Store.addInstance, h.instanceCount]
  instances i := by
    simp only [Store.addInstance, Array.getElem?_push, h.instanceCount]
    split
    · exact .some ⟨rfl, fun _ => .none⟩
    · exact h.instances i

theorem setField (h : s.Renamed r depths s') (i : InstanceId) (name : String)
    {value value' : Value} (hvalue : value.Renamed r depths value') :
    (s.setField i name value).Renamed r depths (s'.setField i name value') where
  size := h.size
  size_eq := h.size_eq
  enclosing := h.enclosing
  outward := h.outward
  bindings := h.bindings
  classCount := h.classCount
  classes := h.classes
  instanceCount := by simp [Store.setField, h.instanceCount]
  instances i' := by
    have hi := h.instances i'
    simp only [Store.setField, Array.getElem?_modify]
    split
    · generalize s.instances[i']? = object at hi ⊢
      generalize s'.instances[i']? = object' at hi ⊢
      cases hi with
      | none => exact .none
      | some hobject =>
        refine .some ⟨hobject.cls, fun other => ?_⟩
        simp only [Bindings.get?_set]
        split
        · exact .some hvalue
        · exact hobject.fields other
    · exact hi

/-- What a property name stands for is renamed. -/
theorem findProperty? (h : s.Renamed r depths s') (i : InstanceId) (name : String) :
    (s.findProperty? i name = none ∧ s'.findProperty? i name = none) ∨
    (∃ value value', s.findProperty? i name = some (.field value) ∧
      s'.findProperty? i name = some (.field value') ∧ value.Renamed r depths value') ∨
    (∃ f f', s.findProperty? i name = some (.method f) ∧
      s'.findProperty? i name = some (.method f') ∧ f.RenamedMethod r depths f') := by
  have hmethod (c : ClassId) : Option.Rel (Closure.RenamedMethod r depths) (s.method? c name)
      (s'.method? c name) := by
    have hc := h.classes c
    unfold Store.method?
    generalize s.classes[c]? = cls at hc ⊢
    generalize s'.classes[c]? = cls' at hc ⊢
    cases hc with
    | some hcls => exact hcls.methods name
    | none => exact .none
  have hi := h.instances i
  unfold Store.findProperty?
  generalize s.instances[i]? = object at hi ⊢
  generalize s'.instances[i]? = object' at hi ⊢
  cases hi with
  | none => exact .inl ⟨rfl, rfl⟩
  | @some object object' hobject =>
    have hfield := hobject.fields name
    have hmethod := hmethod object.cls
    simp only [hobject.cls]
    generalize object.fields.get? name = value at hfield ⊢
    generalize object'.fields.get? name = value' at hfield ⊢
    cases hfield with
    | some hvalue => exact .inr (.inl ⟨_, _, rfl, rfl, hvalue⟩)
    | none =>
      generalize s.method? object.cls name = f at hmethod ⊢
      generalize s'.method? object.cls name = f' at hmethod ⊢
      cases hmethod with
      | some hf => exact .inr (.inr ⟨_, _, rfl, rfl, hf⟩)
      | none => exact .inl ⟨rfl, rfl⟩

/-- Binding a method to its receiver makes a frame between the method and its class. -/
theorem bind (h : s.Renamed r depths s') (hproper : r.IsProper) {f f' : Closure}
    (hf : f.RenamedMethod r depths f') (i : InstanceId) :
    ∃ k : Depth, (s.bind f i).2.Renamed r (depths ++ [k]) (s'.bind f' i).2 ∧
      (s.bind f i).1.Renamed r (depths ++ [k]) (s'.bind f' i).1 := by
  obtain ⟨hframe, k, hk, hdecl⟩ := hf
  have hadded := h.addFrame (some f.frame) (k := k.inward) (by simpa using hk)
  have hlast : (depths ++ [k.inward])[s.frames.size]? = some k.inward := by
    rw [h.size, List.getElem?_concat_length]
  have hthis := hadded.define hlast hproper.new.ne_this.symm (.instance i)
  rw [Renaming.declared_of_ne_zero (Depth.inward_ne_zero k)] at hthis
  refine ⟨k.inward, ?_, ?_, k.inward, hlast, hdecl⟩
  · unfold Store.bind
    rw [hframe]
    simpa [Store.addFrame, h.size_eq] using hthis
  · exact h.size_eq

/-- Reading a property answers a renamed value. -/
theorem property (h : s.Renamed r depths s') (hproper : r.IsProper) (i : InstanceId)
    (name : String) :
    ∃ depths', depths <+: depths' ∧
      (s.property i name).2.Renamed r depths' (s'.property i name).2 ∧
      Option.Rel (Value.Renamed r depths') (s.property i name).1 (s'.property i name).1 := by
  unfold Store.property
  rcases h.findProperty? i name with ⟨hs, hs'⟩ | ⟨value, value', hs, hs', hvalue⟩ |
    ⟨f, f', hs, hs', hf⟩
  · rw [hs, hs']
    exact ⟨depths, List.prefix_rfl, h, .none⟩
  · rw [hs, hs']
    exact ⟨depths, List.prefix_rfl, h, .some hvalue⟩
  · rw [hs, hs']
    obtain ⟨k, hstore, hbound⟩ := h.bind hproper hf i
    exact ⟨depths ++ [k], List.prefix_append .., hstore, .some (.function hbound)⟩

end Store.Renamed

end Lox
