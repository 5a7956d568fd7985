import Lox.Store

/-!
# Laws of the store

A store is seen through its frames: how many there are, which frame is around a
frame (`enclosing?`) and what a frame binds (`getHere?`), and through the methods of its
classes and the fields of its instances.  Each operation has one law for each of these
views that it changes.

**Growth.** `Store.Grows` relates an earlier and a later store: frames are only
added, a frame stays inside the frame it was made in, and a bound name stays bound.
Chains of frames are therefore the same in every later store.
-/

namespace Lox

namespace Store

/-! ## Frames -/

theorem enclosing?_eq_none_of_le {s : Store} {e : FrameId} (h : s.frames.size ≤ e) :
    s.enclosing? e = none := by
  simp [enclosing?, Array.getElem?_eq_none h]

theorem getHere?_eq_none_of_le {s : Store} {e : FrameId} {name : String}
    (h : s.frames.size ≤ e) : s.getHere? e name = none := by
  simp [getHere?, Array.getElem?_eq_none h]

theorem lt_of_enclosing? {s : Store} {e outer : FrameId} (h : s.enclosing? e = some outer) :
    e < s.frames.size := by
  by_cases hlt : e < s.frames.size
  · exact hlt
  · rw [enclosing?_eq_none_of_le (Nat.le_of_not_lt hlt)] at h
    cases h

@[simp] theorem size_addFrame (s : Store) (enclosing : Option FrameId) :
    (s.addFrame enclosing).2.frames.size = s.frames.size + 1 := by
  simp [addFrame]

/-- The new frame is inside the given one, and all others stay where they are. -/
theorem enclosing?_addFrame (s : Store) (enclosing : Option FrameId) (e : FrameId) :
    (s.addFrame enclosing).2.enclosing? e =
      if e = s.frames.size then enclosing else s.enclosing? e := by
  by_cases h : e = s.frames.size <;> simp [addFrame, enclosing?, Array.getElem?_push, h]

/-- A new frame binds nothing. -/
@[simp] theorem getHere?_addFrame (s : Store) (enclosing : Option FrameId) (e : FrameId)
    (name : String) : (s.addFrame enclosing).2.getHere? e name = s.getHere? e name := by
  by_cases h : e = s.frames.size
  · rw [getHere?_eq_none_of_le (Nat.le_of_eq h.symm)]
    simp [addFrame, getHere?, h]
  · simp [addFrame, getHere?, Array.getElem?_push, h]

@[simp] theorem size_define (s : Store) (e : FrameId) (name : String) (value : Value) :
    (s.define e name value).frames.size = s.frames.size := by
  simp [define]

@[simp] theorem enclosing?_define (s : Store) (e : FrameId) (name : String) (value : Value)
    (e' : FrameId) : (s.define e name value).enclosing? e' = s.enclosing? e' := by
  by_cases h : e = e'
  · cases he : s.frames[e']? <;> simp [define, enclosing?, Array.getElem?_modify, h, he]
  · simp [define, enclosing?, Array.getElem?_modify, h]

/-- The frame binds the name to the new value, and all else is as before. -/
theorem getHere?_define (s : Store) (e : FrameId) (name : String) (value : Value)
    (e' : FrameId) (name' : String) :
    (s.define e name value).getHere? e' name' =
      if e = e' ∧ name = name' ∧ e < s.frames.size then some value
      else s.getHere? e' name' := by
  by_cases he : e = e'
  · subst he
    by_cases hlt : e < s.frames.size
    · simp only [define, getHere?, Array.getElem?_modify, Array.getElem?_eq_getElem hlt,
        if_true, Option.map_some, Bindings.get?_set, hlt, true_and, and_true]
    · simp [define, getHere?, hlt]
  · simp [define, getHere?, Array.getElem?_modify, he]

/-- A frame that binds a name is the nearest one if it is found. -/
theorem isSome_of_binder? {s : Store} {name : String} {e e' : FrameId}
    (h : s.binder? name e = some e') : (s.getHere? e' name).isSome := by
  unfold binder? at h
  generalize s.frames.size = fuel at h
  induction fuel generalizing e with
  | zero => cases h
  | succ fuel ih =>
    rw [binderWithin?] at h
    split at h
    · next hsome =>
      cases h
      exact hsome
    · split at h
      · cases h
      · exact ih h

/-- In a frame that is inside no other one, a name is bound or not. -/
theorem binder?_of_outermost {s : Store} {e : FrameId} {name : String}
    (hlt : e < s.frames.size) (hnone : s.enclosing? e = none) :
    s.binder? name e = if (s.getHere? e name).isSome then some e else none := by
  obtain ⟨n, hn⟩ := Nat.exists_eq_succ_of_ne_zero (Nat.ne_of_gt (Nat.zero_lt_of_lt hlt))
  rw [binder?, hn, binderWithin?, hnone]

theorem get?_of_outermost {s : Store} {e : FrameId} {name : String}
    (hlt : e < s.frames.size) (hnone : s.enclosing? e = none) :
    s.get? e name = s.getHere? e name := by
  rw [get?, binder?_of_outermost hlt hnone]
  cases hget : s.getHere? e name with
  | none => simp
  | some value => simp [hget]

/-! ## Classes and instances -/

theorem method?_addClass (s : Store) (cls : Class) (c : ClassId) (name : String) :
    (s.addClass cls).2.method? c name =
      if c = s.classes.size then cls.methods.get? name else s.method? c name := by
  by_cases h : c = s.classes.size <;> simp [addClass, method?, Array.getElem?_push, h]

/-- A new instance has no fields. -/
@[simp] theorem field?_addInstance (s : Store) (cls : ClassId) (i : InstanceId)
    (name : String) : (s.addInstance cls).2.field? i name = s.field? i name := by
  by_cases h : i = s.instances.size <;>
    simp [addInstance, field?, Array.getElem?_push, h]

/-- The field has the new value, and all else is as before. -/
theorem field?_setField (s : Store) (i : InstanceId) (name : String) (value : Value)
    (i' : InstanceId) (name' : String) :
    (s.setField i name value).field? i' name' =
      if i = i' ∧ name = name' ∧ i < s.instances.size then some value
      else s.field? i' name' := by
  by_cases hi : i = i'
  · subst hi
    by_cases hlt : i < s.instances.size
    · simp only [setField, field?, Array.getElem?_modify, Array.getElem?_eq_getElem hlt,
        if_true, Option.map_some, Bindings.get?_set, hlt, true_and, and_true]
    · simp [setField, field?, hlt]
  · simp [setField, field?, Array.getElem?_modify, hi]

/-- What a property name stands for is a field, or else a method of the class. -/
theorem findProperty?_eq_field {s : Store} {i : InstanceId} {name : String} {value : Value}
    (h : s.findProperty? i name = some (.field value)) : s.field? i name = some value := by
  unfold findProperty? at h
  unfold field?
  split at h
  · cases h
  · split at h
    · next hvalue =>
      cases h
      exact hvalue
    · obtain ⟨f, -, heq⟩ := Option.map_eq_some_iff.1 h
      cases heq

theorem findProperty?_eq_method {s : Store} {i : InstanceId} {name : String} {f : Closure}
    (h : s.findProperty? i name = some (.method f)) : ∃ c, s.method? c name = some f := by
  unfold findProperty? at h
  split at h
  · cases h
  · split at h
    · cases h
    · obtain ⟨g, hg, heq⟩ := Option.map_eq_some_iff.1 h
      cases heq
      exact ⟨_, hg⟩

/-! ## Growth -/

/-- A store that another one can grow into. -/
structure Grows (s s' : Store) : Prop where
  /-- Frames are not taken away. -/
  size_le : s.frames.size ≤ s'.frames.size
  /-- Frames stay inside the frames they were made in. -/
  enclosing?_eq : ∀ e, e < s.frames.size → s'.enclosing? e = s.enclosing? e
  /-- Bound names stay bound. -/
  isSome_getHere? : ∀ e name, (s.getHere? e name).isSome → (s'.getHere? e name).isSome

namespace Grows

theorem refl (s : Store) : Grows s s :=
  ⟨Nat.le_refl _, fun _ _ => rfl, fun _ _ h => h⟩

theorem trans {s₁ s₂ s₃ : Store} (h₁ : Grows s₁ s₂) (h₂ : Grows s₂ s₃) : Grows s₁ s₃ where
  size_le := Nat.le_trans h₁.size_le h₂.size_le
  enclosing?_eq e he := by
    rw [h₂.enclosing?_eq e (Nat.lt_of_lt_of_le he h₁.size_le), h₁.enclosing?_eq e he]
  isSome_getHere? e name h := h₂.isSome_getHere? e name (h₁.isSome_getHere? e name h)

/-- A change that leaves the frames alone is growth. -/
theorem of_frames_eq {s s' : Store} (h : s'.frames = s.frames) : Grows s s' := by
  refine ⟨by simp [h], fun e _ => by simp [enclosing?, h], fun e name => ?_⟩
  simp [getHere?, h]

theorem addClass (s : Store) (cls : Class) : Grows s (s.addClass cls).2 := of_frames_eq rfl

theorem addInstance (s : Store) (cls : ClassId) : Grows s (s.addInstance cls).2 :=
  of_frames_eq rfl

theorem setField (s : Store) (i : InstanceId) (name : String) (value : Value) :
    Grows s (s.setField i name value) := of_frames_eq rfl

theorem addFrame (s : Store) (enclosing : Option FrameId) :
    Grows s (s.addFrame enclosing).2 := by
  refine ⟨by simp, fun e he => ?_, fun e name h => by simpa using h⟩
  rw [enclosing?_addFrame, if_neg (Nat.ne_of_lt he)]

theorem define (s : Store) (e : FrameId) (name : String) (value : Value) :
    Grows s (s.define e name value) := by
  refine ⟨by simp, fun e' _ => by simp, fun e' name' h => ?_⟩
  rw [getHere?_define]
  split
  · rfl
  · exact h

theorem defineAll (s : Store) (e : FrameId) (names : List String) (values : List Value) :
    Grows s (s.defineAll e names values) := by
  induction names generalizing s values with
  | nil => exact refl s
  | cons name names ih =>
    cases values with
    | nil => exact refl s
    | cons value values => exact (define s e name value).trans (ih _ values)

theorem assign (s : Store) (e : FrameId) (name : String) (value : Value) :
    Grows s (s.assign e name value).2 := by
  unfold Store.assign
  split
  · exact refl s
  · exact define s _ name value

theorem assignAt (s : Store) (e : FrameId) (distance : Nat) (name : String)
    (value : Value) : Grows s (s.assignAt e distance name value).2 := by
  unfold Store.assignAt
  split
  · exact refl s
  · exact define s _ name value

theorem bind (s : Store) (f : Closure) (receiver : InstanceId) :
    Grows s (s.bind f receiver).2 :=
  (addFrame s (some f.frame)).trans (define _ _ _ _)

theorem property (s : Store) (i : InstanceId) (name : String) :
    Grows s (s.property i name).2 := by
  unfold Store.property
  split
  · exact refl s
  · exact refl s
  · exact bind s _ i

/-- A chain of frames is the same in every later store. -/
theorem ancestor?_eq {s s' : Store} (h : Grows s s') {d : Nat} {e outer : FrameId}
    (ha : s.ancestor? d e = some outer) : s'.ancestor? d e = some outer := by
  induction d generalizing e with
  | zero => exact ha
  | succ d ih =>
    rw [ancestor?] at ha ⊢
    cases he : s.enclosing? e with
    | none => simp [he] at ha
    | some next =>
      rw [he] at ha
      rw [h.enclosing?_eq e (lt_of_enclosing? he), he]
      exact ih ha

end Grows

end Store

end Lox
