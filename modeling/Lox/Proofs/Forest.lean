import Lox.Proofs.Store

/-!
# Scoping laws of frames

A forest of frames is built by adding frames, each inside of an older one or of none, and by
binding names.  So each frame has one chain of frames around it, which comes to an end, and
an operation on the frame follows that chain.

**Shared frames.** Chains meet in the frames that they share.  A change of the nearest binding
of a name is seen from exactly the frames whose chains come to that binding first
(`forest_obeys`).
-/

namespace Lox

namespace Store

/-! ## Forests -/

/-- The frames were built by adding frames and binding names. -/
inductive Forest : Store → Prop
  | empty : Forest empty
  | new {s : Store} (h : Forest s) : Forest (s.addFrame none).2
  | child {s : Store} {e : FrameId} (h : Forest s) (he : e < s.frames.size) :
      Forest (s.addFrame (some e)).2
  | define {s : Store} {e : FrameId} (name : String) (value : Value) (h : Forest s)
      (he : e < s.frames.size) : Forest (s.define e name value)
  | assign {s : Store} {e : FrameId} (name : String) (value : Value) (h : Forest s)
      (he : e < s.frames.size) : Forest (s.assign e name value).2
  | assignAt {s : Store} {e : FrameId} (distance : Nat) (name : String) (value : Value)
      (h : Forest s) (he : e < s.frames.size) : Forest (s.assignAt e distance name value).2

/-- The frame and the frames around it, from the inside out. -/
inductive IsChain (s : Store) : FrameId → List FrameId → Prop
  | last {e : FrameId} (h : s.enclosing? e = none) : IsChain s e [e]
  | link {e outer : FrameId} {chain : List FrameId} (h : s.enclosing? e = some outer)
      (hrest : IsChain s outer chain) : IsChain s e (e :: chain)

/-- The chain binds the name first at the index, which is that of the frame. -/
structure BindsFirst (s : Store) (chain : List FrameId) (name : String) (k : Nat)
    (frame : FrameId) : Prop where
  /-- The frame is at the index. -/
  isAt : chain[k]? = some frame
  /-- It binds the name. -/
  binds : (s.getHere? frame name).isSome
  /-- No frame before it does. -/
  first : ∀ j < k, ∀ nearer, chain[j]? = some nearer → s.getHere? nearer name = none

/-- The frame is the nearest one around `e`, or `e` itself, that binds the name. -/
def Nearest (s : Store) (e : FrameId) (name : String) (frame : FrameId) : Prop :=
  ∃ chain k, s.IsChain e chain ∧ s.BindsFirst chain name k frame

/-- The later store binds the name in the frame to the value, and nothing else is changed. -/
structure ChangesOnly (s s' : Store) (frame : FrameId) (name : String) (value : Value) : Prop where
  /-- There are the same frames. -/
  size : s'.frames.size = s.frames.size
  /-- They are inside of the same frames. -/
  enclosing : ∀ e, s'.enclosing? e = s.enclosing? e
  /-- The name has the value. -/
  binds : s'.getHere? frame name = some value
  /-- No other name of any frame has another value. -/
  others : ∀ e name', ¬ (e = frame ∧ name' = name) → s'.getHere? e name' = s.getHere? e name'
  /-- The classes are the same. -/
  classes : s'.classes = s.classes
  /-- The instances are the same. -/
  instances : s'.instances = s.instances

/-- What the operations on frames answer, and what they change. -/
structure ScopingLaws (s : Store) : Prop where
  /-- Each frame has one chain. -/
  chain : ∀ e < s.frames.size, ∃ chain, s.IsChain e chain ∧
    ∀ other, s.IsChain e other → other = chain
  /-- Reading at a distance reads the frame of the chain that is as far up. -/
  getAt : ∀ e < s.frames.size, ∀ chain, s.IsChain e chain → ∀ distance name,
    s.getAt? e distance name = chain[distance]?.bind (s.getHere? · name)
  /-- A name is read where the chain binds it first. -/
  get_first : ∀ e < s.frames.size, ∀ chain, s.IsChain e chain → ∀ name k frame,
    s.BindsFirst chain name k frame → s.get? e name = s.getAt? e k name
  /-- A name that no frame of the chain binds is not read. -/
  get_none : ∀ e < s.frames.size, ∀ chain, s.IsChain e chain → ∀ name,
    (∀ k, s.getAt? e k name = none) → s.get? e name = none
  /-- A name can be assigned if it can be read. -/
  assign_iff : ∀ e < s.frames.size, ∀ name value,
    (s.assign e name value).1 = (s.get? e name).isSome
  /-- The new value is read from the frames with the same nearest binding. -/
  assign_same : ∀ e < s.frames.size, ∀ f < s.frames.size, ∀ name value,
    (s.assign e name value).1 = true →
    (∃ frame, s.Nearest e name frame ∧ s.Nearest f name frame) →
    (s.assign e name value).2.get? f name = some value
  /-- All else is read as before. -/
  assign_others : ∀ e < s.frames.size, ∀ f < s.frames.size, ∀ name name' value,
    (s.assign e name value).1 = true →
    ¬ (name' = name ∧ ∃ frame, s.Nearest e name frame ∧ s.Nearest f name frame) →
    (s.assign e name value).2.get? f name' = s.get? f name'
  /-- An assignment that fails changes nothing. -/
  assign_fails : ∀ e < s.frames.size, ∀ name value,
    (s.assign e name value).1 = false → (s.assign e name value).2 = s
  /-- An assignment at a distance needs a chain with more frames. -/
  assignAt_iff : ∀ e < s.frames.size, ∀ chain, s.IsChain e chain → ∀ distance name value,
    (s.assignAt e distance name value).1 = true ↔ distance < chain.length
  /-- It changes the name in the frame that is as far up. -/
  assignAt_changes : ∀ e < s.frames.size, ∀ chain, s.IsChain e chain →
    ∀ distance frame name value, chain[distance]? = some frame →
    s.ChangesOnly (s.assignAt e distance name value).2 frame name value
  /-- If it fails, it changes nothing. -/
  assignAt_fails : ∀ e < s.frames.size, ∀ distance name value,
    (s.assignAt e distance name value).1 = false → (s.assignAt e distance name value).2 = s
  /-- Binding a name changes the name in the frame. -/
  define_changes : ∀ e < s.frames.size, ∀ name value,
    s.ChangesOnly (s.define e name value) e name value

/-! ## Chains -/

/-- Frames are inside of older frames. -/
def Layered (s : Store) : Prop := ∀ e outer, s.enclosing? e = some outer → outer < e

namespace Layered

theorem addFrame {s : Store} (h : s.Layered) {enclosing : Option FrameId}
    (henclosing : ∀ outer ∈ enclosing, outer < s.frames.size) :
    (s.addFrame enclosing).2.Layered := by
  intro e outer houter
  rw [enclosing?_addFrame] at houter
  split at houter
  · next he =>
    rw [he]
    exact henclosing outer houter
  · exact h e outer houter

theorem define {s : Store} (h : s.Layered) (e : FrameId) (name : String) (value : Value) :
    (s.define e name value).Layered := by
  intro e' outer houter
  rw [enclosing?_define] at houter
  exact h e' outer houter

end Layered

theorem Forest.layered {s : Store} (h : s.Forest) : s.Layered := by
  induction h with
  | empty => intro e outer houter; simp [enclosing?, Store.empty] at houter
  | new _ ih => exact ih.addFrame (by simp)
  | child _ he ih => exact ih.addFrame (by simpa using he)
  | @define s e name value _ _ ih => exact ih.define e name value
  | @assign s e name value _ _ ih =>
    unfold Store.assign
    split
    · exact ih
    · exact ih.define _ name value
  | @assignAt s e distance name value _ _ ih =>
    unfold Store.assignAt
    split
    · exact ih
    · exact ih.define _ name value

section

variable {s : Store} {e f : FrameId} {chain chain' : List FrameId} {name : String}

theorem Layered.exists_chain (h : s.Layered) (e : FrameId) : ∃ chain, s.IsChain e chain := by
  induction e using Nat.strongRecOn with
  | ind e ih =>
    cases henclosing : s.enclosing? e with
    | none => exact ⟨[e], .last henclosing⟩
    | some outer =>
      obtain ⟨chain, hchain⟩ := ih outer (h e outer henclosing)
      exact ⟨e :: chain, .link henclosing hchain⟩

theorem IsChain.unique (h : s.IsChain e chain) (h' : s.IsChain e chain') : chain = chain' := by
  induction h generalizing chain' with
  | last hnone =>
    cases h' with
    | last => rfl
    | link hsome => rw [hnone] at hsome; cases hsome
  | link hsome _ ih =>
    cases h' with
    | last hnone => rw [hnone] at hsome; cases hsome
    | link hsome' hrest' =>
      obtain rfl := Option.some.inj (hsome.symm.trans hsome')
      rw [ih hrest']

/-- A chain has no more frames than there are up to its first one. -/
theorem IsChain.length_le (h : s.IsChain e chain) (hs : s.Layered) : chain.length ≤ e + 1 := by
  induction h with
  | last => exact Nat.le_add_left 1 _
  | @link e outer chain hsome _ ih =>
    have hlt := hs e outer hsome
    exact Nat.succ_le_succ (Nat.le_trans ih hlt)

/-- A chain has the frames that are up to some number of links away. -/
theorem IsChain.ancestor?_eq (h : s.IsChain e chain) (distance : Nat) :
    s.ancestor? distance e = chain[distance]? := by
  induction h generalizing distance with
  | last hnone => cases distance <;> simp [ancestor?, hnone]
  | link hsome _ ih =>
    cases distance with
    | zero => rfl
    | succ distance =>
      rw [ancestor?, hsome]
      exact ih distance

theorem IsChain.getAt?_eq (h : s.IsChain e chain) (distance : Nat) (name : String) :
    s.getAt? e distance name = chain[distance]?.bind (s.getHere? · name) := by
  rw [getAt?, h.ancestor?_eq]
  cases chain[distance]? <;> rfl

/-- The nearest frame that binds the name is the first one of the chain. -/
theorem IsChain.binderWithin?_eq (h : s.IsChain e chain) {fuel : Nat}
    (hfuel : chain.length ≤ fuel) (name : String) :
    s.binderWithin? name fuel e = chain.find? fun frame => (s.getHere? frame name).isSome := by
  induction h generalizing fuel with
  | last hnone =>
    obtain ⟨fuel, rfl⟩ := Nat.exists_eq_succ_of_ne_zero (Nat.ne_of_gt hfuel)
    rw [binderWithin?, hnone, List.find?_cons, List.find?_nil]
    split <;> simp_all
  | link hsome _ ih =>
    obtain ⟨fuel, rfl⟩ := Nat.exists_eq_succ_of_ne_zero (Nat.ne_of_gt (Nat.zero_lt_of_lt hfuel))
    rw [binderWithin?, hsome, List.find?_cons]
    split
    · next hbinds => rw [hbinds]
    · next hbinds =>
      rw [Bool.eq_false_iff.2 hbinds]
      exact ih (Nat.le_of_succ_le_succ hfuel)

theorem IsChain.binder?_eq (h : s.IsChain e chain) (hs : s.Layered) (he : e < s.frames.size)
    (name : String) :
    s.binder? name e = chain.find? fun frame => (s.getHere? frame name).isSome :=
  h.binderWithin?_eq (Nat.le_trans (h.length_le hs) he) name

/-- The chain binds the name first in a frame if that one is found. -/
theorem exists_bindsFirst_iff {frame : FrameId} :
    (∃ k, s.BindsFirst chain name k frame) ↔
      chain.find? (fun frame => (s.getHere? frame name).isSome) = some frame := by
  rw [List.find?_eq_some_iff_getElem]
  constructor
  · rintro ⟨k, hat, hbinds, hfirst⟩
    obtain ⟨hlt, heq⟩ := List.getElem?_eq_some_iff.1 hat
    refine ⟨hbinds, k, hlt, heq, fun j hj => ?_⟩
    have hnone := hfirst j hj _ (List.getElem?_eq_getElem (Nat.lt_trans hj hlt))
    simp [hnone]
  · rintro ⟨hbinds, k, hlt, heq, hfirst⟩
    refine ⟨k, List.getElem?_eq_some_iff.2 ⟨hlt, heq⟩, hbinds, fun j hj nearer hat => ?_⟩
    obtain ⟨hlt', rfl⟩ := List.getElem?_eq_some_iff.1 hat
    simpa using hfirst j hj

theorem Layered.nearest_iff (hs : s.Layered) (he : e < s.frames.size) {frame : FrameId} :
    s.Nearest e name frame ↔ s.binder? name e = some frame := by
  obtain ⟨chain, hchain⟩ := hs.exists_chain e
  rw [hchain.binder?_eq hs he, ← exists_bindsFirst_iff]
  constructor
  · rintro ⟨other, k, hother, hfirst⟩
    rw [hother.unique hchain] at hfirst
    exact ⟨k, hfirst⟩
  · rintro ⟨k, hfirst⟩
    exact ⟨chain, k, hchain, hfirst⟩

/-! ## Reading -/

theorem IsChain.get?_of_bindsFirst (h : s.IsChain e chain) (hs : s.Layered)
    (he : e < s.frames.size) {k : Nat} {frame : FrameId} (hfirst : s.BindsFirst chain name k frame) :
    s.get? e name = s.getAt? e k name := by
  have hbinder := (hs.nearest_iff he).1 ⟨chain, k, h, hfirst⟩
  rw [get?, hbinder, h.getAt?_eq, hfirst.isAt]
  rfl

theorem IsChain.get?_of_none (h : s.IsChain e chain) (hs : s.Layered) (he : e < s.frames.size)
    (hnone : ∀ k, s.getAt? e k name = none) : s.get? e name = none := by
  have hbinder : s.binder? name e = none := by
    rw [h.binder?_eq hs he, List.find?_eq_none]
    intro frame hframe
    obtain ⟨k, hk⟩ := List.mem_iff_getElem?.1 hframe
    have hgetAt := hnone k
    rw [h.getAt?_eq, hk] at hgetAt
    simpa using hgetAt
  rw [get?, hbinder]

/-! ## Changing -/

/-- A frame that is there is changed at one name. -/
theorem changesOnly_define {frame : FrameId} (hframe : frame < s.frames.size) (name : String)
    (value : Value) : s.ChangesOnly (s.define frame name value) frame name value where
  size := size_define ..
  enclosing := enclosing?_define s frame name value
  binds := by
    rw [getHere?_define]
    exact if_pos ⟨rfl, rfl, hframe⟩
  others e name' hother := by
    rw [getHere?_define]
    exact if_neg fun h => hother ⟨h.1.symm, h.2.1.symm⟩
  classes := rfl
  instances := rfl

/-- If a bound name is changed, the same frames bind the same names. -/
theorem binder?_define_of_binds {frame : FrameId} (hbinds : (s.getHere? frame name).isSome)
    (value : Value) (name' : String) (f : FrameId) :
    (s.define frame name value).binder? name' f = s.binder? name' f := by
  rw [binder?, binder?, size_define]
  generalize s.frames.size = fuel
  induction fuel generalizing f with
  | zero => rfl
  | succ fuel ih =>
    have hsome : ((s.define frame name value).getHere? f name').isSome =
        (s.getHere? f name').isSome := by
      rw [getHere?_define]
      split
      · next h =>
        obtain ⟨rfl, rfl, -⟩ := h
        rw [hbinds]
        rfl
      · rfl
    rw [binderWithin?, binderWithin?, hsome, enclosing?_define]
    cases s.enclosing? f with
    | none => rfl
    | some outer => simp only [ih]

theorem lt_of_binds {frame : FrameId} (hbinds : (s.getHere? frame name).isSome) :
    frame < s.frames.size := by
  by_cases hlt : frame < s.frames.size
  · exact hlt
  · rw [getHere?_eq_none_of_le (Nat.le_of_not_lt hlt)] at hbinds
    cases hbinds

/-- If a bound name is changed, the new value is read where the frame is the nearest one. -/
theorem get?_define_of_binds {frame : FrameId} (hbinds : (s.getHere? frame name).isSome)
    (value : Value) (f : FrameId) (name' : String) :
    (s.define frame name value).get? f name' =
      if name' = name ∧ s.binder? name f = some frame then some value else s.get? f name' := by
  rw [get?, get?, binder?_define_of_binds hbinds]
  have hlt := lt_of_binds hbinds
  by_cases hname : name' = name
  · subst hname
    cases s.binder? name' f with
    | none => simp
    | some nearest => simp [getHere?_define, hlt, eq_comm]
  · rw [if_neg fun h => hname h.1]
    cases s.binder? name' f with
    | none => rfl
    | some nearest => simp [getHere?_define, Ne.symm hname]

theorem isSome_get?_eq (s : Store) (e : FrameId) (name : String) :
    (s.get? e name).isSome = (s.binder? name e).isSome := by
  rw [get?]
  cases h : s.binder? name e with
  | none => rfl
  | some frame => exact isSome_of_binder? h

/-- An assignment binds the name in the nearest frame that binds it. -/
theorem binder?_of_assign {value : Value} (h : (s.assign e name value).1 = true) :
    ∃ frame, s.binder? name e = some frame ∧ (s.getHere? frame name).isSome ∧
      (s.assign e name value).2 = s.define frame name value := by
  rw [assign] at h ⊢
  cases hbinder : s.binder? name e with
  | none => rw [hbinder] at h; cases h
  | some frame => exact ⟨frame, rfl, isSome_of_binder? hbinder, rfl⟩

theorem assign_of_false {value : Value} (h : (s.assign e name value).1 = false) :
    (s.assign e name value).2 = s := by
  rw [assign] at h ⊢
  cases hbinder : s.binder? name e with
  | none => rfl
  | some frame => rw [hbinder] at h; cases h

theorem assignAt_of_false {distance : Nat} {value : Value}
    (h : (s.assignAt e distance name value).1 = false) :
    (s.assignAt e distance name value).2 = s := by
  rw [assignAt] at h ⊢
  cases hframe : s.ancestor? distance e with
  | none => rfl
  | some frame => rw [hframe] at h; cases h

theorem IsChain.assignAt_fst (h : s.IsChain e chain) (distance : Nat) (name : String)
    (value : Value) :
    (s.assignAt e distance name value).1 = chain[distance]?.isSome := by
  rw [assignAt, h.ancestor?_eq]
  cases chain[distance]? <;> rfl

theorem IsChain.assignAt_snd (h : s.IsChain e chain) {distance : Nat} {frame : FrameId}
    (hat : chain[distance]? = some frame) (name : String) (value : Value) :
    (s.assignAt e distance name value).2 = s.define frame name value := by
  rw [assignAt, h.ancestor?_eq, hat]

/-- The frames of a chain are there. -/
theorem IsChain.lt (h : s.IsChain e chain) (hs : s.Layered) (he : e < s.frames.size) :
    ∀ frame ∈ chain, frame < s.frames.size := by
  induction h with
  | last => simpa using he
  | @link e outer chain hsome _ ih =>
    intro frame hframe
    rcases List.mem_cons.1 hframe with rfl | hframe
    · exact he
    · exact ih (Nat.lt_trans (hs e outer hsome) he) frame hframe

end

/-! ## Laws -/

theorem Layered.scopingLaws {s : Store} (hs : s.Layered) : s.ScopingLaws where
  chain e _ := by
    obtain ⟨chain, hchain⟩ := hs.exists_chain e
    exact ⟨chain, hchain, fun other hother => hother.unique hchain⟩
  getAt _ _ _ hchain distance name := hchain.getAt?_eq distance name
  get_first _ he _ hchain _ _ _ hfirst := hchain.get?_of_bindsFirst hs he hfirst
  get_none _ he _ hchain _ hnone := hchain.get?_of_none hs he hnone
  assign_iff e _ name value := by
    rw [isSome_get?_eq, assign]
    cases s.binder? name e <;> rfl
  assign_same e he f hf name value hassign hsame := by
    obtain ⟨frame, hbinder, hbinds, hstore⟩ := binder?_of_assign hassign
    obtain ⟨nearest, hnear, hnear'⟩ := hsame
    rw [hs.nearest_iff he, hbinder] at hnear
    rw [hs.nearest_iff hf, ← hnear] at hnear'
    rw [hstore, get?_define_of_binds hbinds, if_pos ⟨rfl, hnear'⟩]
  assign_others e he f hf name name' value hassign hother := by
    obtain ⟨frame, hbinder, hbinds, hstore⟩ := binder?_of_assign hassign
    rw [hstore, get?_define_of_binds hbinds, if_neg]
    rintro ⟨rfl, hnear⟩
    exact hother ⟨rfl, frame, (hs.nearest_iff he).2 hbinder, (hs.nearest_iff hf).2 hnear⟩
  assign_fails _ _ _ _ hassign := assign_of_false hassign
  assignAt_iff _ _ chain hchain distance name value := by
    rw [hchain.assignAt_fst]
    simp
  assignAt_changes _ he _ hchain distance frame name value hat := by
    rw [hchain.assignAt_snd hat]
    exact changesOnly_define (hchain.lt hs he frame (List.mem_of_getElem? hat)) name value
  assignAt_fails _ _ _ _ _ hassign := assignAt_of_false hassign
  define_changes _ he name value := changesOnly_define he name value

/-- In a forest of frames, names are read, assigned and bound by the laws of scoping. -/
theorem forest_obeys {s : Store} (h : s.Forest) : s.ScopingLaws := h.layered.scopingLaws

/-- Two frames inside of a third one.  What one of them assigns is read from the other. -/
theorem forest_obeys_shared :
    let one := (Store.empty.addFrame none).2
    let two := (one.addFrame (some 0)).2
    let three := (two.addFrame (some 0)).2
    let s := (three.define 0 "x" .nil).define 1 "y" .nil
    s.Forest ∧ s.ScopingLaws ∧ (s.assign 1 "x" (.bool true)).2.get? 2 "x" = some (.bool true) := by
  intro one two three s
  have hforest : s.Forest :=
    .define "y" .nil (.define "x" .nil (.child (.child (.new .empty) (by decide)) (by decide))
      (by decide)) (by decide)
  have hlaws := forest_obeys hforest
  have hnear (e : FrameId) (he : s.enclosing? e = some 0) (hnone : s.getHere? e "x" = none) :
      s.Nearest e "x" 0 := by
    refine ⟨[e, 0], 1, .link he (.last (by decide)), rfl, by decide, fun j hj nearer hat => ?_⟩
    obtain rfl := Nat.lt_one_iff.1 hj
    obtain rfl := Option.some.inj hat
    exact hnone
  refine ⟨hforest, hlaws, hlaws.assign_same 1 (by decide) 2 (by decide) "x" _ (by decide) ⟨0, ?_⟩⟩
  exact ⟨hnear 1 (by decide) (by decide), hnear 2 (by decide) (by decide)⟩

end Store

end Lox
