import Lox.Proofs.Scope.Activation

/-!
# Rooted stores

A function value outlives the scope in which it was made.  It is rooted if the chain of
frames that it carries mirrors the place of its declaration.  A store is rooted if all
functions that can be found in it are: those bound in frames, those kept in fields,
and the methods of classes, which are not bound to a receiver yet.  Every operation of
the store keeps it rooted.
-/

namespace Lox

section

variable (history : History) (known : Occurrence → Prop)

/-- The frames of a function mirror the place of its declaration. -/
structure Closure.RootedAt (s : Store) (f : Closure) (place : Place) : Prop where
  /-- From the frame of the function on, the chain mirrors the place. -/
  mirrors : Mirrors history s place f.frame
  /-- The function was made inside activations of the scopes of the place. -/
  made : Made history place.scopes f
  /-- What occurs in the function is known. -/
  known : ∀ o ∈ f.decl.occurrences place, known o
  /-- The declaration is orderly. -/
  orderly : f.decl.Orderly

/-- A value that is a function is rooted at some place. -/
def Value.Rooted (s : Store) : Value → Prop
  | .function f => ∃ place, f.RootedAt history known s place
  | _ => True

/-- The function is a method of a class whose declaration was executed. -/
structure Closure.MethodAt (s : Store) (f : Closure) (methods : List FunctionDecl)
    (place : Place) : Prop where
  /-- The declaration was executed in the frame of the function. -/
  executed : ∃ n name span m,
    history.begins (n + 1) (.execute (.class name methods span)) m ∧ f.frame = m.current
  /-- The method is one of the class. -/
  mem : f.decl ∈ methods
  /-- From the frame of the function on, the chain mirrors the place. -/
  mirrors : Mirrors history s place f.frame
  /-- What occurs in the methods is known. -/
  known : ∀ o ∈ FunctionDecl.occurrencesAll (place.insideClass methods) methods, known o
  /-- The methods are orderly. -/
  orderly : FunctionDecl.OrderlyAll methods

/-- All functions found in the store are rooted. -/
structure Store.Rooted (s : Store) : Prop where
  /-- What frames bind is rooted. -/
  frames : ∀ e name value, s.getHere? e name = some value → value.Rooted history known s
  /-- What fields hold is rooted. -/
  fields : ∀ i name value, s.field? i name = some value → value.Rooted history known s
  /-- Methods of classes can be bound. -/
  methods : ∀ c name f, s.method? c name = some f →
    ∃ methods place, f.MethodAt history known s methods place

end

variable {history : History} {known known' : Occurrence → Prop} {s s' : Store}

/-! ## Later stores, and more that is known -/

theorem Value.Rooted.grow {value : Value} (h : value.Rooted history known s)
    (hs : s.Grows s') : value.Rooted history known s' := by
  cases value with
  | function f =>
    obtain ⟨place, hf⟩ := h
    exact ⟨place, { hf with mirrors := hf.mirrors.grow hs }⟩
  | _ => trivial

theorem Value.Rooted.mono {value : Value} (h : value.Rooted history known s)
    (hknown : ∀ o, known o → known' o) : value.Rooted history known' s := by
  cases value with
  | function f =>
    obtain ⟨place, hf⟩ := h
    exact ⟨place, hf.mirrors, hf.made, fun o ho => hknown o (hf.known o ho), hf.orderly⟩
  | _ => trivial

theorem Closure.MethodAt.grow {f : Closure} {methods : List FunctionDecl} {place : Place}
    (h : f.MethodAt history known s methods place) (hs : s.Grows s') :
    f.MethodAt history known s' methods place :=
  { h with mirrors := h.mirrors.grow hs }

namespace Store.Rooted

theorem mono (h : s.Rooted history known) (hknown : ∀ o, known o → known' o) :
    s.Rooted history known' where
  frames e name value hvalue := (h.frames e name value hvalue).mono hknown
  fields i name value hvalue := (h.fields i name value hvalue).mono hknown
  methods c name f hf := by
    obtain ⟨methods, place, hm⟩ := h.methods c name f hf
    exact ⟨methods, place,
      hm.executed, hm.mem, hm.mirrors, fun o ho => hknown o (hm.known o ho), hm.orderly⟩

/-- A store stays rooted if what is new in it is rooted. -/
theorem of_grows (h : s.Rooted history known) (hs : s.Grows s')
    (hframes : ∀ e name value, s'.getHere? e name = some value →
      s.getHere? e name = some value ∨ value.Rooted history known s')
    (hfields : ∀ i name value, s'.field? i name = some value →
      s.field? i name = some value ∨ value.Rooted history known s')
    (hmethods : ∀ c name f, s'.method? c name = some f →
      s.method? c name = some f ∨ ∃ methods place, f.MethodAt history known s' methods place) :
    s'.Rooted history known where
  frames e name value hvalue := by
    rcases hframes e name value hvalue with hold | hnew
    · exact (h.frames e name value hold).grow hs
    · exact hnew
  fields i name value hvalue := by
    rcases hfields i name value hvalue with hold | hnew
    · exact (h.fields i name value hold).grow hs
    · exact hnew
  methods c name f hf := by
    rcases hmethods c name f hf with hold | hnew
    · obtain ⟨methods, place, hm⟩ := h.methods c name f hold
      exact ⟨methods, place, hm.grow hs⟩
    · exact hnew

theorem empty : Store.empty.Rooted history known where
  frames e name value h := by simp [Store.empty, Store.getHere?] at h
  fields i name value h := by simp [Store.empty, Store.field?] at h
  methods c name f h := by simp [Store.empty, Store.method?] at h

theorem addFrame (h : s.Rooted history known) (enclosing : Option FrameId) :
    (s.addFrame enclosing).2.Rooted history known :=
  h.of_grows (.addFrame s enclosing)
    (fun e name value hvalue => .inl (by rwa [Store.getHere?_addFrame] at hvalue))
    (fun _ _ _ hvalue => .inl hvalue) (fun _ _ _ hf => .inl hf)

/-- A value may be bound that is rooted once it is bound, such as a function that can
call itself. -/
theorem define (h : s.Rooted history known) {e : FrameId} {name : String} {value : Value}
    (hvalue : value.Rooted history known (s.define e name value)) :
    (s.define e name value).Rooted history known := by
  refine h.of_grows (.define s e name value) (fun e' name' value' h' => ?_)
    (fun _ _ _ h' => .inl h') (fun _ _ _ hf => .inl hf)
  rw [Store.getHere?_define] at h'
  split at h'
  · cases h'
    exact .inr hvalue
  · exact .inl h'

theorem defineAll (h : s.Rooted history known) (e : FrameId) (names : List String)
    {values : List Value} (hvalues : ∀ value ∈ values, value.Rooted history known s) :
    (s.defineAll e names values).Rooted history known := by
  induction names generalizing s values with
  | nil => exact h
  | cons name names ih =>
    cases values with
    | nil => exact h
    | cons value values =>
      have hgrows := Store.Grows.define s e name value
      refine ih (h.define ((hvalues value (List.mem_cons_self ..)).grow hgrows)) ?_
      exact fun value' hmem => (hvalues value' (List.mem_cons_of_mem _ hmem)).grow hgrows

theorem assign (h : s.Rooted history known) (e : FrameId) (name : String) {value : Value}
    (hvalue : value.Rooted history known s) :
    (s.assign e name value).2.Rooted history known := by
  unfold Store.assign
  split
  · exact h
  · exact h.define (hvalue.grow (.define _ _ _ _))

theorem assignAt (h : s.Rooted history known) (e : FrameId) (distance : Nat) (name : String)
    {value : Value} (hvalue : value.Rooted history known s) :
    (s.assignAt e distance name value).2.Rooted history known := by
  unfold Store.assignAt
  split
  · exact h
  · exact h.define (hvalue.grow (.define _ _ _ _))

theorem addInstance (h : s.Rooted history known) (c : ClassId) :
    (s.addInstance c).2.Rooted history known :=
  h.of_grows (.addInstance s c) (fun _ _ _ h' => .inl h')
    (fun i name value h' => .inl (by rwa [Store.field?_addInstance] at h'))
    (fun _ _ _ hf => .inl hf)

theorem setField (h : s.Rooted history known) (i : InstanceId) (name : String)
    {value : Value} (hvalue : value.Rooted history known s) :
    (s.setField i name value).Rooted history known := by
  refine h.of_grows (.setField s i name value) (fun _ _ _ h' => .inl h')
    (fun i' name' value' h' => ?_) (fun _ _ _ hf => .inl hf)
  rw [Store.field?_setField] at h'
  split at h'
  · cases h'
    exact .inr (hvalue.grow (.setField _ _ _ _))
  · exact .inl h'

theorem addClass (h : s.Rooted history known) (cls : Class)
    (hcls : ∀ name f, cls.methods.get? name = some f →
      ∃ methods place, f.MethodAt history known s methods place) :
    (s.addClass cls).2.Rooted history known := by
  refine h.of_grows (.addClass s cls) (fun _ _ _ h' => .inl h') (fun _ _ _ h' => .inl h')
    (fun c name f hf => ?_)
  rw [Store.method?_addClass] at hf
  split at hf
  · obtain ⟨methods, place, hm⟩ := hcls name f hf
    exact .inr ⟨methods, place, hm.grow (.addClass s cls)⟩
  · exact .inl hf

end Store.Rooted

/-! ## Binding a method -/

/-- A method that is bound to a receiver is rooted at the place inside its class. -/
theorem Closure.MethodAt.bind {f : Closure} {methods : List FunctionDecl} {place : Place}
    (h : f.MethodAt history known s methods place) {n : Nat} {i : InstanceId}
    {name : String} {nameSpan : Span} {m : Machine}
    (hbegins : history.begins n (.property (.instance i) name nameSpan) m)
    (hfind : m.store.findProperty? i name = some (.method f)) (hs : m.store = s) :
    (s.bind f i).1.RootedAt history known (s.bind f i).2 (place.insideClass methods) := by
  obtain ⟨k, className, span, m', hexecuted, hframe⟩ := h.executed
  have hactivation : Activation history (.receiver methods :: place.scopes) s.frames.size := by
    rw [← hs]
    exact .receiver hbegins hfind hexecuted h.mem hframe (hframe ▸ h.mirrors.activation)
  refine ⟨?_, .method h.mem hactivation, fun o ho => h.known o ?_, .of_mem h.orderly h.mem⟩
  · exact (h.mirrors.enter hactivation).define "this" _
  · exact FunctionDecl.mem_occurrencesAll h.mem ho

/-- Reading a property keeps the store rooted, and what is read is rooted. -/
theorem Store.Rooted.property {n : Nat} {i : InstanceId} {name : String} {nameSpan : Span}
    {m : Machine} (h : m.store.Rooted history known)
    (hbegins : history.begins n (.property (.instance i) name nameSpan) m) :
    (m.store.property i name).2.Rooted history known ∧
      ∀ value, (m.store.property i name).1 = some value →
        value.Rooted history known (m.store.property i name).2 := by
  unfold Store.property
  split
  · exact ⟨h, fun value hvalue => by cases hvalue⟩
  · next value hfind =>
    refine ⟨h, fun value' hvalue => ?_⟩
    cases hvalue
    exact h.fields i name value (Store.findProperty?_eq_field hfind)
  · next f hfind =>
    obtain ⟨c, hf⟩ := Store.findProperty?_eq_method hfind
    obtain ⟨methods, place, hm⟩ := h.methods c name f hf
    refine ⟨(h.addFrame _).define trivial, fun value hvalue => ?_⟩
    cases hvalue
    exact ⟨_, hm.bind hbegins hfind rfl⟩

end Lox
