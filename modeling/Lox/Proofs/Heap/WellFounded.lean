import Lox.Proofs.Heap.Running
import Lox.Proofs.Scope.Identity

/-!
# The heap is well-founded

At no moment of a session does anything refer to an object that is not there, and what objects
were made with never changes (`heap_well_founded`).  Values can lead back to the frame that
holds them, and do so for every function that is declared.  But a frame is only ever inside of
an older one, so to go outward comes to an end, in the global frame.

**Searching.** To search for a name outward, frame by frame, is described by a relation that
does not bound the number of frames (`Store.Searches`).
-/

namespace Lox

open Run

namespace Store

/-! ## Going outward -/

/-- A search for the name that begins in a frame and goes outward comes to an end: in a frame
that binds the name, or outside of all frames. -/
inductive Searches (s : Store) (name : String) : FrameId → Option FrameId → Prop
  | here {e} : (s.getHere? e name).isSome → Searches s name e (some e)
  | nowhere {e} : s.getHere? e name = none → s.enclosing? e = none → Searches s name e none
  | outward {e outer found} :
      s.getHere? e name = none → s.enclosing? e = some outer → Searches s name outer found →
      Searches s name e found

variable {s : Store} {e globals : FrameId} {chain : List FrameId}

theorem IsChain.searches (h : s.IsChain e chain) (name : String) :
    s.Searches name e (chain.find? fun frame => (s.getHere? frame name).isSome) := by
  induction h with
  | @last e hnone =>
    rw [List.find?_cons]
    cases hhere : s.getHere? e name with
    | none => exact .nowhere hhere hnone
    | some v => exact .here (by rw [hhere]; rfl)
  | @link e outer chain hsome _ ih =>
    rw [List.find?_cons]
    cases hhere : s.getHere? e name with
    | none => exact .outward hhere hsome ih
    | some v => exact .here (by rw [hhere]; rfl)

theorem IsChain.le_of_mem (h : s.IsChain e chain) (hs : s.Layered) {frame : FrameId}
    (hmem : frame ∈ chain) : frame ≤ e := by
  induction h with
  | last => exact Nat.le_of_eq (List.mem_singleton.1 hmem)
  | @link e outer chain hsome _ ih =>
    rcases List.mem_cons.1 hmem with rfl | hmem
    · exact Nat.le_refl _
    · exact Nat.le_trans (ih hmem) (Nat.le_of_lt (hs e outer hsome))

/-- Each frame of a chain was made after the frames that follow. -/
theorem IsChain.descends (h : s.IsChain e chain) (hs : s.Layered) :
    chain.Pairwise (· > ·) := by
  induction h with
  | last => exact List.pairwise_singleton _ _
  | @link e outer chain hsome hrest ih =>
    refine List.pairwise_cons.2 ⟨fun frame hframe => ?_, ih⟩
    exact Nat.lt_of_le_of_lt (hrest.le_of_mem hs hframe) (hs e outer hsome)

namespace Sound

/-- All chains end in the global frame. -/
theorem getLast?_chain (h : s.Sound globals) (he : e < s.frames.size)
    (hchain : s.IsChain e chain) : chain.getLast? = some globals := by
  induction hchain with
  | @last e hnone =>
    rw [(h.outermost e he).1 hnone]
    rfl
  | @link e outer chain hsome hrest ih =>
    have hlast := ih (h.enclosing_lt hsome)
    cases chain with
    | nil => cases hlast
    | cons next chain => rwa [List.getLast?_cons_cons]

/-- A search comes to an end, and it does not look at more frames than there are. -/
theorem searches (h : s.Sound globals) (he : e < s.frames.size) (name : String) :
    s.Searches name e (s.binder? name e) := by
  obtain ⟨chain, hchain⟩ := h.layered.exists_chain e
  rw [hchain.binder?_eq h.layered he]
  exact hchain.searches name

end Sound

end Store

/-! ## The stores of a session -/

/-- Earlier stores persist in later ones. -/
theorem Traces.pairwise_persists {w w' : Store × Output} {es : List Event}
    (h : Traces w es w') : (w.1 :: es.map (·.after.store)).Pairwise Store.Persists := by
  have hlater : ∀ s ∈ es.map (·.after.store), w.1.Persists s := by
    intro s hs
    obtain ⟨x, hx, rfl⟩ := List.mem_map.1 hs
    exact (h.persists.2 x hx).2
  refine List.pairwise_cons.2 ⟨hlater, ?_⟩
  clear hlater
  induction h with
  | nil => exact .nil
  | @cons x es w h ih =>
    refine List.pairwise_cons.2 ⟨fun s hs => ?_, ih⟩
    obtain ⟨y, hy, rfl⟩ := List.mem_map.1 hs
    exact (h.persists.2 y hy).2

/-- Each store is the first one, or one that an event leaves. -/
theorem Traces.mem_stores {w w' : Store × Output} {es : List Event} (h : Traces w es w')
    {s : Store} (hs : s = w'.1 ∨ ∃ x ∈ es, s = x.machine.store ∨ s = x.after.store) :
    s ∈ w.1 :: es.map (·.after.store) := by
  induction h with
  | nil =>
    rcases hs with rfl | ⟨x, hx, -⟩
    · exact .head _
    · cases hx
  | @cons x es w h ih =>
    rcases hs with rfl | ⟨y, hy, hs⟩
    · exact .tail _ (ih (.inl rfl))
    · rcases List.mem_cons.1 hy with rfl | hy
      · rcases hs with rfl | rfl
        · exact .head _
        · exact .tail _ (.head _)
      · exact .tail _ (ih (.inr ⟨y, hy, hs⟩))

namespace Session

variable {budget limit : Nat} {output : Output} {sources : List String}

/-- The stores of a session, in the order in which the session comes to them. -/
def stores (budget : Nat) (session : Session) (sources : List String) : List Store :=
  session.machine.store :: (session.course budget sources).map (·.after.store)

/-- All stores that a session finds are among its stores. -/
theorem Finds.mem_stores {session : Session} {s : Store} (h : session.Finds budget sources s) :
    s ∈ session.stores budget sources :=
  (traces_course budget session sources).mem_stores h

/-- Whatever happens in a session finds a sound machine. -/
theorem sound_event {x : Event}
    (hx : x ∈ (Session.initial limit output).course budget sources) :
    x.Sound (Session.initial limit output).machine.globals :=
  (sound_course (.initial limit output)).1 x hx

theorem sound_stores {s : Store}
    (hs : s ∈ (Session.initial limit output).stores budget sources) :
    s.Sound (Session.initial limit output).machine.globals := by
  rcases List.mem_cons.1 hs with rfl | hs
  · exact .initial limit output
  · obtain ⟨x, hx, rfl⟩ := List.mem_map.1 hs
    cases x with
    | begins n t m => exact (sound_event hx).2.store
    | acts a m =>
      rw [Event.after_acts_store]
      exact Act.sound_store (sound_event hx).1 (sound_event hx).2

/-- Function values that are equal have the same declaration and the same frame. -/
theorem Holds.eq_of_same {f g : Closure}
    (hf : (Session.initial limit output).Holds budget sources f)
    (hg : (Session.initial limit output).Holds budget sources g) (hsame : f.same g = true) :
    f = g := by
  obtain ⟨j, hj⟩ := hf.made
  obtain ⟨k, hk⟩ := hg.made
  by_cases hne : j = k
  · subst hne
    exact hj.eq hk
  · rw [hj.same_eq_false hne hk] at hsame
    cases hsame

/-- A function that is declared is bound in the frame that it keeps. -/
theorem declared_cyclic {f : FunctionDecl} {m : Machine}
    (h : .acts (.defineFunction f) m ∈ (Session.initial limit output).course budget sources) :
    (Event.acts (.defineFunction f) m).after.store.getHere? m.current f.name =
      some (.function ⟨f, m.current⟩) := by
  rw [Event.after_acts_store]
  show (m.store.define m.current f.name _).getHere? m.current f.name = _
  rw [Store.getHere?_define]
  exact if_pos ⟨rfl, rfl, (sound_event h).2.current_lt⟩

end Session

/-- **The heap is well-founded along enclosing frames, and immutable but for bindings and
fields.**  Of any session, with any source texts, the following holds of the stores that it
comes to, in their order.

Whatever is referred to is there: by variables, fields, methods, instances and frames, and by
the values under way.  Frames, classes and instances are not taken away, and stay as they were
made but for the names that frames bind and the fields of instances; so do function values:
each that is held was made by some event, and copies of it are the same in all.

The frames around a frame are one finite chain, from younger to older ones, which ends in the
global frame.  To search for a name comes to an end, and so reading and assigning a name, with
or without a distance, obey the laws of scoping.  Yet values lead back to where they are held:
a function is bound in the frame that it keeps. -/
theorem heap_well_founded (budget limit : Nat) (output : Output) (sources : List String) :
    let start := Session.initial limit output
    let globals := start.machine.globals
    let stores := start.stores budget sources
    (∀ s, start.Finds budget sources s → s ∈ stores) ∧
    (∀ s ∈ stores, s.Sound globals) ∧
    (∀ x ∈ start.course budget sources, x.Sound globals) ∧
    stores.Pairwise Store.Persists ∧
    (∀ f, start.Holds budget sources f → ∃ k, start.MakesAt budget sources k f) ∧
    (∀ f g, start.Holds budget sources f → start.Holds budget sources g →
      f.same g = true → f = g) ∧
    (∀ s ∈ stores, ∀ e < s.frames.size, ∃ chain, s.IsChain e chain ∧
      (∀ other, s.IsChain e other → other = chain) ∧ chain.Pairwise (· > ·) ∧
      chain.getLast? = some globals) ∧
    (∀ s ∈ stores, ∀ e < s.frames.size, ∀ name, s.Searches name e (s.binder? name e)) ∧
    (∀ s ∈ stores, s.ScopingLaws) ∧
    (∀ f m, .acts (.defineFunction f) m ∈ start.course budget sources →
      (Event.acts (.defineFunction f) m).after.store.getHere? m.current f.name =
        some (.function ⟨f, m.current⟩)) := by
  intro start globals stores
  have hsound : ∀ s ∈ stores, s.Sound globals := fun s => Session.sound_stores
  refine ⟨fun s hs => hs.mem_stores, hsound, fun x => Session.sound_event,
    (Session.traces_course budget start sources).pairwise_persists, fun f hf => hf.made,
    fun f g hf hg => hf.eq_of_same hg, fun s hs e he => ?_,
    fun s hs e he => (hsound s hs).searches he, fun s hs => (hsound s hs).layered.scopingLaws,
    fun f m => Session.declared_cyclic⟩
  obtain ⟨chain, hchain⟩ := (hsound s hs).layered.exists_chain e
  exact ⟨chain, hchain, fun other hother => hother.unique hchain,
    hchain.descends (hsound s hs).layered, (hsound s hs).getLast?_chain he hchain⟩

end Lox
