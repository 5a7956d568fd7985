import Lox.Proofs.Run.Task
import Lox.Proofs.Scope.Places

/-!
# Activations of scopes

A scope of the text is activated when a block is entered, a function is called, or a
method is bound to its receiver.  Each activation makes one frame.  `Activation` says
of a frame which scopes it was made for: it refers to the moment of the run at which
the frame was made, and to the activation around it.

**Mirroring.** A chain of frames mirrors a place if it has one frame for each open
scope, made by an activation of this scope, and each frame binds the names that its
scope has declared (`Mirrors`).  A chain still mirrors its place in every later store.
-/

namespace Lox

/-- The history of a run. -/
structure History where
  /-- A task is begun with a budget on a machine. -/
  begins : Nat → Task → Machine → Prop
  /-- The global frame. -/
  globals : FrameId

section

variable (history : History)

mutual
/-- The frame was made for the first of the scopes, inside the activations of the
others. -/
inductive Activation : List Scope → FrameId → Prop
  /-- The global frame is outside all scopes. -/
  | global : Activation [] history.globals
  /-- A block makes a frame when it is executed. -/
  | block {n body span m scopes} :
      history.begins (n + 1) (.execute (.block body span)) m → Activation scopes m.current →
      Activation (.block body :: scopes) m.store.frames.size
  /-- A function makes a frame when it is called. -/
  | function {n f arguments m scopes} :
      history.begins (n + 1) (.apply f arguments) m → Made scopes f →
      Activation (.function f.decl :: scopes) m.store.frames.size
  /-- A method makes a frame when it is bound to its receiver. -/
  | receiver {n k i property nameSpan m name methods span m' f scopes} :
      history.begins n (.property (.instance i) property nameSpan) m →
      m.store.findProperty? i property = some (.method f) →
      history.begins (k + 1) (.execute (.class name methods span)) m' → f.decl ∈ methods →
      f.frame = m'.current → Activation scopes m'.current →
      Activation (.receiver methods :: scopes) m.store.frames.size

/-- The function was made inside activations of the scopes. -/
inductive Made : List Scope → Closure → Prop
  /-- A function is made when its declaration is executed. -/
  | function {n decl span m scopes} :
      history.begins (n + 1) (.execute (.function decl span)) m → Activation scopes m.current →
      Made scopes ⟨decl, m.current⟩
  /-- A method is made when it is bound. -/
  | method {decl methods e scopes} :
      decl ∈ methods → Activation (.receiver methods :: scopes) e →
      Made (.receiver methods :: scopes) ⟨decl, e⟩
end

/-- From a frame on, the chain of frames mirrors a place. -/
def Mirrors (s : Store) : Place → FrameId → Prop
  | [], e => e = history.globals
  | inner :: outer, e =>
    (∀ name, inner.names.get? name = some true → (s.getHere? e name).isSome) ∧
      Activation history (inner.scope :: Place.scopes outer) e ∧
      ∃ e', s.enclosing? e = some e' ∧ Mirrors s outer e'

end

variable {history : History} {s s' : Store} {place : Place} {e : FrameId}

namespace Mirrors

theorem activation (h : Mirrors history s place e) :
    Activation history place.scopes e := by
  cases place with
  | nil =>
    rw [Mirrors] at h
    rw [h]
    exact .global
  | cons inner outer => exact h.2.1

/-- A chain goes on mirroring its place when the store grows. -/
theorem grow (h : Mirrors history s place e) (hs : s.Grows s') :
    Mirrors history s' place e := by
  induction place generalizing e with
  | nil => exact h
  | cons inner outer ih =>
    obtain ⟨hnames, hactivation, e', he', houter⟩ := h
    refine ⟨fun name hname => hs.isSome_getHere? e name (hnames name hname), hactivation, e',
      ?_, ih houter⟩
    rw [hs.enclosing?_eq e (Store.lt_of_enclosing? he'), he']

/-- Frames of a chain are in the store, apart from the global one. -/
theorem lt_size {inner : OpenScope} {outer : Place}
    (h : Mirrors history s (inner :: outer) e) : e < s.frames.size := by
  obtain ⟨-, -, e', he', -⟩ := h
  exact Store.lt_of_enclosing? he'

/-- Declaring a variable whose initializer follows asks nothing of the frame. -/
theorem declare (h : Mirrors history s place e) (name : String) :
    Mirrors history s (place.bind name false) e := by
  cases place with
  | nil => exact h
  | cons inner outer =>
    obtain ⟨hnames, hrest⟩ := h
    refine ⟨fun other hother => ?_, hrest⟩
    rw [Bindings.get?_set] at hother
    split at hother
    · cases hother
    · exact hnames other hother

/-- A name is bound in the frame and declared in the scope at once. -/
theorem define (h : Mirrors history s place e) (name : String) (value : Value) :
    Mirrors history (s.define e name value) (place.bind name true) e := by
  have hgrown := h.grow (.define s e name value)
  cases place with
  | nil => exact hgrown
  | cons inner outer =>
    obtain ⟨hnames, hrest⟩ := hgrown
    refine ⟨fun other hother => ?_, hrest⟩
    rw [Bindings.get?_set] at hother
    split at hother
    · next heq =>
      rw [Store.getHere?_define, if_pos ⟨rfl, heq, h.lt_size⟩]
      rfl
    · exact hnames other hother

theorem defineAll {names : List String} {values : List Value}
    (hlength : values.length = names.length) (h : Mirrors history s place e) :
    Mirrors history (s.defineAll e names values) (place.bindAll names) e := by
  induction names generalizing s values place with
  | nil => exact h
  | cons name names ih =>
    cases values with
    | nil => cases hlength
    | cons value values => exact ih (Nat.succ.inj hlength) (h.define name value)

/-- A new frame inside a chain mirrors a scope that is opened at its place. -/
theorem enter (h : Mirrors history s place e) {scope : Scope}
    (hactivation : Activation history (scope :: place.scopes) s.frames.size) :
    Mirrors history (s.addFrame (some e)).2 (place.enter scope) s.frames.size := by
  refine ⟨fun name hname => ?_, hactivation, e, ?_, h.grow (.addFrame s _)⟩
  · rw [Bindings.get?_empty] at hname
    cases hname
  · rw [Store.enclosing?_addFrame, if_pos rfl]

/-- What is found some frames up the chain mirrors what is some scopes out. -/
theorem ancestor (h : Mirrors history s place e) {d : Nat} {inner : OpenScope}
    {outer : Place} (hdrop : place.drop d = inner :: outer) :
    ∃ frame, s.ancestor? d e = some frame ∧
      Mirrors history s (inner :: outer) frame := by
  induction d generalizing place e with
  | zero =>
    rw [List.drop_zero] at hdrop
    rw [hdrop] at h
    exact ⟨e, rfl, h⟩
  | succ d ih =>
    cases place with
    | nil => cases hdrop
    | cons first place =>
      obtain ⟨-, -, e', he', houter⟩ := h
      obtain ⟨frame, hframe, hmirrors⟩ := ih houter hdrop
      refine ⟨frame, ?_, hmirrors⟩
      rw [Store.ancestor?, he']
      exact hframe

end Mirrors

/-! ## Names that are found -/

/-- The scope found for a name is as many scopes out as the distance says, and has
declared the name. -/
theorem drop_of_scopeDistance? {name : String} {place : Place} {d : Nat}
    (h : scopeDistance? name place.names = some d) :
    ∃ inner outer, place.drop d = inner :: outer ∧ inner.names.contains name = true := by
  induction place generalizing d with
  | nil => cases h
  | cons first place ih =>
    rw [Place.names, List.map_cons, scopeDistance?] at h
    split at h
    · next hcontains =>
      cases h
      exact ⟨first, place, rfl, hcontains⟩
    · obtain ⟨d', hd', rfl⟩ := Option.map_eq_some_iff.1 h
      exact ih hd'

/-- Only in the innermost scope, and never for the receiver, can a declared name be
without a value. -/
theorem Place.Usable.get?_eq {place : Place} (h : place.Usable) {name : String} {d : Nat}
    {inner : OpenScope} {outer : Place} (hdrop : place.drop d = inner :: outer)
    (hcontains : inner.names.contains name = true) :
    inner.names.get? name = some true ∨
      (d = 0 ∧ name ≠ "this" ∧ inner.names.get? name = some false) := by
  rw [Bindings.contains, Option.isSome_iff_exists] at hcontains
  obtain ⟨left, hleft⟩ := hcontains
  cases left with
  | true => exact .inl hleft
  | false =>
    right
    cases place with
    | nil => simp at hdrop
    | cons first place =>
      obtain ⟨hthis, hsettled⟩ := h
      cases d with
      | zero =>
        cases hdrop
        refine ⟨rfl, ?_, hleft⟩
        rintro rfl
        exact hthis hleft
      | succ d =>
        have hmem : inner ∈ place := List.mem_of_mem_drop (i := d) (by
          rw [List.drop_succ_cons] at hdrop
          rw [hdrop]
          exact List.mem_cons_self ..)
        exact absurd hleft (hsettled inner hmem name)

end Lox
