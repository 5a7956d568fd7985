import Lox.Proofs.Loop.Reading
import Lox.Proofs.Scope.Places

/-!
# Places without rounds

Read directly, the body and the increment of a `for` statement are in no scope of their own
but in that of the loop.  A place and the same place without the scopes of rounds are
`Aligned` with two chains of frames if both chains have the frames of the scopes that are
left, and only the first one has frames of rounds.  Since a round declares nothing, a name is
then declared at both places or at neither, and its distances lead to the same frame
(`Aligned.distance`).
-/

namespace Lox

/-- The scope is that of a round. -/
def Scope.isRound : Scope → Bool
  | .block body => Stmt.isRound body
  | _ => false

namespace Place

/-- The open scopes that are not those of rounds. -/
def direct (place : Place) : Place := place.filter fun inner => !inner.scope.isRound

/-- The innermost scope is not that of a round, so that names may be declared here. -/
def IsOutside : Place → Prop
  | [] => True
  | inner :: _ => inner.scope.isRound = false

@[simp] theorem direct_nil : direct [] = [] := rfl

theorem names_cons (inner : OpenScope) (outer : Place) :
    names (inner :: outer) = inner.names :: names outer := rfl

theorem direct_cons_of_isRound {inner : OpenScope} (h : inner.scope.isRound) (outer : Place) :
    direct (inner :: outer) = direct outer := by
  simp [direct, h]

theorem direct_cons {inner : OpenScope} (h : inner.scope.isRound = false) (outer : Place) :
    direct (inner :: outer) = inner :: direct outer := by
  simp [direct, h]

theorem IsOutside.bind {place : Place} (h : place.IsOutside) (name : String) (left : Bool) :
    (place.bind name left).IsOutside := by
  cases place with
  | nil => trivial
  | cons inner outer => exact h

theorem IsOutside.bindAll {place : Place} (h : place.IsOutside) (names : List String) :
    (place.bindAll names).IsOutside := by
  induction names generalizing place with
  | nil => exact h
  | cons name names ih => exact ih (h.bind name true)

theorem IsOutside.leave {place : Place} (h : place.IsOutside) (s : Stmt) :
    (s.leave place).IsOutside := by
  cases place with
  | nil =>
    rw [Stmt.leave_nil]
    trivial
  | cons inner outer =>
    obtain ⟨inner', hleave, hscope⟩ := Stmt.leave_cons inner outer s
    rw [hleave, IsOutside, hscope]
    exact h

end Place

/-- The expression and its place, without the scopes of rounds. -/
def Occurrence.direct (o : Occurrence) : Occurrence := ⟨o.expr, o.place.direct⟩

/-- From a frame on, a chain of the first store has one frame for each scope of the place, and
a chain of the second store has the same frames but those of rounds. -/
inductive Aligned (globals : FrameId) (s s' : Store) : Place → FrameId → FrameId → Prop
  | global : Aligned globals s s' [] globals globals
  | round {inner outer e around e'} :
      inner.scope.isRound → (∀ name, inner.names.contains name = false) →
      s.enclosing? e = some around → Aligned globals s s' outer around e' →
      Aligned globals s s' (inner :: outer) e e'
  | scope {inner outer e around around'} :
      inner.scope.isRound = false →
      s.enclosing? e = some around → s'.enclosing? e = some around' →
      Aligned globals s s' outer around around' →
      Aligned globals s s' (inner :: outer) e e

namespace Aligned

variable {globals : FrameId} {s s' t t' : Store} {place : Place} {e e' : FrameId}

/-- Chains of frames do not change. -/
theorem grow (h : Aligned globals s s' place e e') (hs : s.Grows t) (hs' : s'.Grows t') :
    Aligned globals t t' place e e' := by
  induction h with
  | global => exact .global
  | round hround hnames haround _ ih =>
    refine .round hround hnames ?_ ih
    rw [hs.enclosing?_eq _ (Store.lt_of_enclosing? haround), haround]
  | scope hscope haround haround' _ ih =>
    refine .scope hscope ?_ ?_ ih
    · rw [hs.enclosing?_eq _ (Store.lt_of_enclosing? haround), haround]
    · rw [hs'.enclosing?_eq _ (Store.lt_of_enclosing? haround'), haround']

theorem eq_of_isOutside (h : Aligned globals s s' place e e') (houtside : place.IsOutside) :
    e' = e := by
  cases h with
  | global => rfl
  | round hround => simp [Place.IsOutside, hround] at houtside
  | scope => rfl

/-! ### Declarations -/

theorem bind (h : Aligned globals s s' place e e') (houtside : place.IsOutside) (name : String)
    (left : Bool) : Aligned globals s s' (place.bind name left) e e' := by
  cases h with
  | global => exact .global
  | round hround => simp [Place.IsOutside, hround] at houtside
  | scope hscope haround haround' houter => exact .scope hscope haround haround' houter

theorem bindAll (h : Aligned globals s s' place e e') (houtside : place.IsOutside)
    (names : List String) : Aligned globals s s' (place.bindAll names) e e' := by
  induction names generalizing place with
  | nil => exact h
  | cons name names ih => exact ih (h.bind houtside name true) (houtside.bind name true)

/-- What a statement declares is declared outside of rounds. -/
theorem leave (h : Aligned globals s s' place e e') {stmt : Stmt} (horderly : stmt.Orderly)
    (houtside : stmt.isDeclaration → place.IsOutside) :
    Aligned globals s s' (stmt.leave place) e e' := by
  cases hdeclaration : stmt.isDeclaration with
  | false =>
    rw [Stmt.leave_of_not_declaration horderly hdeclaration]
    exact h
  | true =>
    have hhere : place.IsOutside := houtside hdeclaration
    cases stmt with
    | var name initializer span =>
      rw [Stmt.leave]
      exact (h.bind hhere name false).bind (hhere.bind name false) name true
    | function decl span =>
      rw [Stmt.leave]
      exact h.bind hhere decl.name true
    | «class» name methods span =>
      rw [Stmt.leave]
      exact h.bind hhere name true
    | _ => cases hdeclaration

/-! ### New frames -/

/-- A frame for a scope is new in both stores. -/
theorem enter (h : Aligned globals s s' place e e') {scope : Scope}
    (hscope : scope.isRound = false) (hsize : s'.frames.size = s.frames.size) :
    Aligned globals (s.addFrame (some e)).2 (s'.addFrame (some e')).2 (place.enter scope)
      s.frames.size s.frames.size := by
  refine .scope hscope ?_ ?_ (h.grow (.addFrame _ _) (.addFrame _ _))
  · rw [Store.enclosing?_addFrame, if_pos rfl]
  · rw [Store.enclosing?_addFrame, if_pos hsize.symm]

/-- A frame for a round is entered in the first store only. -/
theorem enterRound (h : Aligned globals s s' place e e') {scope : Scope}
    (hround : scope.isRound) (hs' : s'.Grows t') :
    Aligned globals (s.addFrame (some e)).2 t' (place.enter scope) s.frames.size e' := by
  refine .round hround (fun name => ?_) ?_ (h.grow (.addFrame _ _) hs')
  · simp [Bindings.contains]
  · rw [Store.enclosing?_addFrame, if_pos rfl]

/-! ### Distances -/

/-- A name is declared at both places or at neither, and then its distances lead to the same
frame. -/
theorem distance (h : Aligned globals s s' place e e') (name : String) :
    Option.Rel (fun d d' => s'.ancestor? d' e' = s.ancestor? d e)
      (scopeDistance? name place.names) (scopeDistance? name place.direct.names) := by
  induction h with
  | global => exact .none
  | @round inner outer e around e' hround hnames haround _ ih =>
    rw [Place.direct_cons_of_isRound hround, Place.names_cons, scopeDistance?, hnames,
      if_neg Bool.false_ne_true]
    generalize scopeDistance? name outer.names = distance at ih ⊢
    generalize scopeDistance? name outer.direct.names = distance' at ih ⊢
    cases ih with
    | none => exact .none
    | some hancestor =>
      refine .some ?_
      rw [hancestor, Store.ancestor?, haround]
  | @scope inner outer e around around' hscope haround haround' _ ih =>
    rw [Place.direct_cons hscope, Place.names_cons, Place.names_cons, scopeDistance?,
      scopeDistance?]
    by_cases hname : inner.names.contains name
    · rw [if_pos hname, if_pos hname]
      exact .some rfl
    · rw [if_neg hname, if_neg hname]
      generalize scopeDistance? name outer.names = distance at ih ⊢
      generalize scopeDistance? name outer.direct.names = distance' at ih ⊢
      cases ih with
      | none => exact .none
      | some hancestor =>
        refine .some ?_
        rw [Store.ancestor?, Store.ancestor?, haround, haround']
        exact hancestor

end Aligned

end Lox
