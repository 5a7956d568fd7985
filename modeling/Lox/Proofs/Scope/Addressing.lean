import Lox.Proofs.Run.Fault
import Lox.Proofs.Scope.Session

/-!
# Distances lead to the right frames

Resolving counts scopes of the text, and running follows frames.  At every moment of a
session the frame that a distance leads to was made for the very scope that was
counted, and it binds the name (`addressing_sound`).  Undefined variables are therefore
only reported for names without a distance.
-/

namespace Lox

open Run

/-- The assignment is in the initializer of the variable that it assigns to. -/
def Occurrence.InOwnInitializer (o : Occurrence) : Prop :=
  match o.expr, o.place with
  | .assign _ name _, inner :: _ => inner.names.get? name = some false
  | _, _ => False

/-- For an occurrence of a name, a frame is that of the scope which declares the name,
`distance` scopes out. -/
structure Occurrence.Finds (history : History) (m : Machine) (o : Occurrence)
    (name : String) (distance : Nat) (frame : FrameId) : Prop where
  /-- The name is the one that is looked up at the occurrence. -/
  looksUp : o.name? = some name
  /-- The innermost scope that has declared the name is so many scopes out. -/
  counted : scopeDistance? name o.place.names = some distance
  /-- The frame is as many links up the chain. -/
  ancestor : m.store.ancestor? distance m.current = some frame
  /-- It was made by an activation of this scope. -/
  activation : ∃ inner outer, o.place.drop distance = inner :: outer ∧
    inner.names.contains name = true ∧
    Activation history (inner.scope :: Place.scopes outer) frame
  /-- It binds the name, or this is the initializer of the variable. -/
  bound : (m.store.getHere? frame name).isSome ∨ o.InOwnInitializer

variable {history : History} {m : Machine}

/-- Where the chain of frames mirrors the place of an occurrence, its distance leads to
the frame that it should. -/
theorem Occurrence.finds_of_mirrors {o : Occurrence}
    (hmirrors : Mirrors history m.store o.place m.current) (hlegal : o.IsLegal)
    (husable : o.place.Usable) {distance : Nat} (hdistance : o.distance? = some distance) :
    ∃ name frame, o.Finds history m name distance frame := by
  obtain ⟨expr, place⟩ := o
  unfold Occurrence.distance? at hdistance
  split at hdistance
  · cases hdistance
  · next name hname =>
    obtain ⟨inner, outer, hdrop, hcontains⟩ := drop_of_scopeDistance? hdistance
    obtain ⟨frame, hframe, hrest⟩ := hmirrors.ancestor hdrop
    refine ⟨name, frame, hname, hdistance, hframe, ⟨inner, outer, hdrop, hcontains,
      hrest.activation⟩, ?_⟩
    rcases husable.get?_eq hdrop hcontains with htrue | ⟨rfl, hthis, hfalse⟩
    · exact .inl (hrest.1 name htrue)
    · -- only an assignment may stand in the initializer of its own variable
      right
      rw [List.drop_zero] at hdrop
      cases hdrop
      cases expr with
      | «variable» node =>
        cases hname
        exact absurd hfalse hlegal
      | this node =>
        cases hname
        exact absurd rfl hthis
      | assign node other value =>
        cases hname
        exact hfalse
      | _ => cases hname

/-- A name that is found is not missed. -/
theorem Occurrence.Finds.not_misses {o : Occurrence} {name : String} {distance : Nat}
    {frame : FrameId} (h : o.Finds history m name distance frame)
    (hlocal : m.locals[o.id]? = some distance) {n : Nat} {error : RuntimeError} :
    ¬ Misses n o.expr m error := by
  obtain ⟨expr, place⟩ := o
  have hname := h.looksUp
  -- reading finds the value that the frame binds
  have hfound {node : Node} (hnode : m.locals[node.id]? = some distance)
      (hbound : (m.store.getHere? frame name).isSome) : (found? m name node).isSome := by
    simpa [found?, hnode, Store.getAt?, h.ancestor] using hbound
  have hread {node : Node} {m' : Machine} {error : RuntimeError}
      (hfound : (found? m name node).isSome) :
      lookUp name node m ≠ .error (.error error) m' := by
    obtain ⟨value, hvalue⟩ := Option.isSome_iff_exists.1 hfound
    simp [lookUp_apply, hvalue]
  intro hmisses
  cases hmisses with
  | «variable» hlookUp =>
    cases hname
    have hbound := h.bound.resolve_right (by simp [Occurrence.InOwnInitializer])
    exact hread (hfound hlocal hbound) hlookUp
  | this hlookUp =>
    cases hname
    have hbound := h.bound.resolve_right (by simp [Occurrence.InOwnInitializer])
    exact hread (hfound hlocal hbound) hlookUp
  | @assign node _ value _ v m₁ _ _ hvalue hassign =>
    cases hname
    -- the chain of frames is still the same when the value is known
    have hsteady : m.Steady m₁ := (Task.keeps n (.evaluate value)).of_ok hvalue
    have hancestor := hsteady.store.ancestor?_eq h.ancestor
    rw [← hsteady.current] at hancestor
    have hnode : m₁.locals[node.id]? = some distance := by
      rw [hsteady.locals]
      exact hlocal
    simp [assign_apply, assigned, hnode, Store.assignAt, hancestor] at hassign

/-- When its turn comes, an expression with a distance is a known occurrence of a name,
and its distance leads to the frame that it should. -/
theorem Occurrence.finds_of_ready {known : Occurrence → Prop} {e : Expr} {distance : Nat}
    (hknown : ∀ o, known o →
      ∃ supply source c, (compile supply source).result = .ok c ∧ o ∈ c.program.occurrences)
    (hrooted : m.Rooted history known) (hready : Task.Ready history known m (.evaluate e))
    (hlocal : m.locals[e.id]? = some distance) :
    ∃ o name frame, known o ∧ o.expr = e ∧ o.Finds history m name distance frame := by
  obtain ⟨place, hmirrors, hos⟩ := hready
  have ho := hos _ (e.mem_occurrences place)
  obtain ⟨supply, source, c, hcompile, hmem⟩ := hknown _ ho
  have husable := Program.usable_of_mem_occurrences (orderly_of_compile hcompile) hmem
  have hlegal := ((addressed_of_compile hcompile).1 _ hmem).2.1
  have hdistance : Occurrence.distance? ⟨e, place⟩ = some distance :=
    (hrooted.locals _ ho).symm.trans hlocal
  obtain ⟨name, frame, hfinds⟩ := finds_of_mirrors hmirrors hlegal husable hdistance
  exact ⟨_, name, frame, ho, rfl, hfinds⟩

/-- In the course of a session, the distance of an expression leads to the frame that it
should. -/
theorem Session.Begins.finds {budget limit n : Nat} {output : Output} {sources : List String}
    {e : Expr} {m : Machine} {distance : Nat}
    (h : (Session.initial limit output).Begins budget sources n (.evaluate e) m)
    (hlocal : m.locals[e.id]? = some distance) :
    let start := Session.initial limit output
    ∃ c m₀ o name frame, start.Runs budget sources c m₀ ∧ o ∈ c.program.occurrences ∧
      o.expr = e ∧ o.Finds (start.history budget sources) m name distance frame := by
  intro start
  obtain ⟨known, hknown, hrooted, hready⟩ := h.ready
  have hcompiled (o : Occurrence) (ho : known o) : ∃ supply source c,
      (compile supply source).result = .ok c ∧ o ∈ c.program.occurrences := by
    obtain ⟨c, m₀, hruns, hmem⟩ := hknown o ho
    obtain ⟨supply, source, hcompile⟩ := hruns.compile_eq_ok
    exact ⟨supply, source, c, hcompile, hmem⟩
  obtain ⟨o, name, frame, ho, heq, hfinds⟩ :=
    Occurrence.finds_of_ready hcompiled hrooted hready hlocal
  obtain ⟨c, m₀, hruns, hmem⟩ := hknown o ho
  exact ⟨c, m₀, o, name, frame, hruns, hmem, heq, hfinds⟩

/-- **Lexical addressing is sound.**  In the course of a session, let an expression with a
distance be evaluated.  It is an occurrence of a name in one of the programs, whose
distance counts the scopes up to the one that declares the name.  The frame that is as
many links up the chain was made by an activation of this scope, and binds the name; it
may only lack the name at an assignment inside the initializer of the variable.  An
undefined variable is never reported at an expression with a distance, and every such
error is reported at an expression that is evaluated in the course of the session. -/
theorem addressing_sound (budget limit : Nat) (output : Output) (sources : List String) :
    let start := Session.initial limit output
    let history := start.history budget sources
    (∀ n e m distance, start.Begins budget sources n (.evaluate e) m →
      m.locals[e.id]? = some distance →
      ∃ c m₀ o name frame, start.Runs budget sources c m₀ ∧ o ∈ c.program.occurrences ∧
        o.expr = e ∧ o.Finds history m name distance frame) ∧
    (∀ n e m error, start.Begins budget sources (n + 1) (.evaluate e) m →
      Misses n e m error → m.locals[e.id]? = none) ∧
    (∀ before source rest name span, sources = before ++ source :: rest →
      ((start.afterAll budget before).step budget source).1 =
        .failed ⟨.undefinedVariable name, span⟩ →
      ∃ n e m, start.Begins budget sources (n + 1) (.evaluate e) m ∧
        Misses n e m ⟨.undefinedVariable name, span⟩) := by
  intro start history
  refine ⟨fun n e m distance hbegins hlocal => hbegins.finds hlocal,
    fun n e m error hbegins hmisses => ?_, ?_⟩
  · rw [Option.eq_none_iff_forall_ne_some]
    intro distance hlocal
    obtain ⟨c, m₀, o, name, frame, -, -, rfl, hfinds⟩ := hbegins.finds hlocal
    exact hfinds.not_misses hlocal hmisses
  · intro before source rest name span hsources hfailed
    unfold Session.step at hfailed
    dsimp only at hfailed
    split at hfailed
    · cases hfailed
    · next c hcompile =>
      obtain ⟨n, e, m, hbegins, hmisses⟩ := misses_of_runCompiled hfailed rfl
      exact ⟨n, e, m, ⟨c, _, ⟨before, source, rest, hsources, hcompile, rfl⟩, hbegins⟩, hmisses⟩

end Lox
