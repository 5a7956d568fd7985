import Lox.Proofs.Scope.Addressing
import Lox.Proofs.Scope.Binding
import Lox.Proofs.Scope.Lexical

/-!
# The receiver

What `this` stands for is the instance from which the method around it was read, wherever the
bound method, or a function made in it, was kept in the meantime (`this_is_receiver`).

**The frame of the receiver.** Code runs in global, block and function frames only, and it
assigns to other names only.  The frame that is made for a receiver is therefore never the
current one, and no assignment finds its way to it: it stays as it was made.

**The way to it.** The place of a `this` leads through blocks and functions to the method and
its class.  The frames that mirror it are the frame of a call of this method and, around that,
the frame that was made when the called method was bound.
-/

namespace Lox

open Run

/-- The frame is there, and does not bind the receiver. -/
def Store.Plain (s : Store) (e : FrameId) : Prop :=
  e < s.frames.size ∧ s.getHere? e "this" = none

/-- The basic action adds a frame that code is to run in. -/
inductive Act.Opens : Act → Prop
  | block : Opens .openBlock
  | body {f arguments} : Opens (.openBody f arguments)

theorem Act.Opens.not_reads {a : Act} (h : a.Opens) (i : InstanceId) (name : String) :
    ¬ a.Reads i name := by
  cases h <;> exact nofun

theorem Act.Opens.size_store {a : Act} (h : a.Opens) (m : Machine) :
    m.store.frames.size < (a.store m).frames.size := by
  cases h with
  | block => exact Nat.lt_of_lt_of_eq (Nat.lt_succ_self _) (Store.size_addFrame _ _).symm
  | body =>
    refine Nat.lt_of_lt_of_le ?_ (Store.Grows.defineAll _ _ _ _).size_le
    exact Nat.lt_of_lt_of_eq (Nat.lt_succ_self _) (Store.size_addFrame _ _).symm

/-- The frame around the frame found up the chain is found one link further up. -/
theorem Store.ancestor?_succ {s : Store} {d : Nat} {e frame outer : FrameId}
    (h : s.ancestor? d e = some frame) (houter : s.enclosing? frame = some outer) :
    s.ancestor? (d + 1) e = some outer := by
  induction d generalizing e with
  | zero =>
    cases h
    rw [ancestor?, houter]
    rfl
  | succ d ih =>
    rw [ancestor?] at h ⊢
    cases he : s.enclosing? e with
    | none => simp [he] at h
    | some next =>
      rw [he] at h
      exact ih h

namespace Session

variable {budget limit : Nat} {output : Output} {sources : List String}

/-! ## Names that code binds -/

/-- No basic action in the course of a session binds the receiver for the code. -/
theorem this_not_mem_names {a : Act} {m : Machine}
    (h : .acts a m ∈ (Session.initial limit output).course budget sources) :
    "this" ∉ a.names := by
  have single {name : String} (hname : IsDeclarable name) : "this" ∉ [name] :=
    fun hmem => hname.ne_this (List.mem_singleton.1 hmem).symm
  rcases acts_mem_course.1 h with ⟨k, t, m₁, hbegins, hperforms⟩ | ⟨t, -, rfl⟩
  · obtain ⟨known, hknown, -, hready⟩ := hbegins.ready
    cases hperforms with
    | @assign node name value _ v _ _ =>
      obtain ⟨place, -, hos⟩ := hready
      obtain ⟨c, m₀, hruns, ho⟩ := hknown _ (hos _ (Expr.mem_occurrences _ place))
      obtain ⟨supply, source, hcompile⟩ := hruns.compile_eq_ok
      exact single ((lexical_of_compile hcompile ho).targets name (.head _))
    | defineNil | define _ =>
      obtain ⟨horderly, -⟩ := hready
      rw [Stmt.Orderly] at horderly
      exact single horderly
    | defineFunction | defineClass =>
      obtain ⟨horderly, -⟩ := hready
      rw [Stmt.Orderly] at horderly
      exact single horderly.1
    | openBody =>
      obtain ⟨⟨place, hf⟩, -, -⟩ := hready
      exact fun hmem => (hf.orderly.params _ hmem).ne_this rfl
    | _ => exact List.not_mem_nil
  · exact List.not_mem_nil

/-! ## Frames that code runs in -/

theorem plain_store {a : Act} {m : Machine} {e : FrameId}
    (h : .acts a m ∈ (Session.initial limit output).course budget sources)
    (he : m.store.Plain e) : (a.store m).Plain e :=
  ⟨Nat.lt_of_lt_of_le he.1 (a.size_le m),
    (Act.getHere?_store (this_not_mem_names h) fun _ _ _ => he.1).trans he.2⟩

theorem plain_globals {x : Event}
    (hx : x ∈ (Session.initial limit output).course budget sources) :
    x.machine.store.Plain (Session.initial limit output).machine.globals := by
  have hfirst : (Session.initial limit output).machine.store.Plain
      (Session.initial limit output).machine.globals := ⟨Nat.zero_lt_one, rfl⟩
  exact (((traces_course budget (Session.initial limit output) sources).always
    (P := fun s => s.Plain (Session.initial limit output).machine.globals) hfirst
    fun a m ha hm => plain_store ha hm).2 x hx).1

theorem plain_opened {a : Act} {m : Machine} {x : Event}
    (ha : .acts a m ∈ (Session.initial limit output).course budget sources) (hopens : a.Opens)
    (hx : x ∈ (Session.initial limit output).course budget sources)
    (hlt : m.store.frames.size < x.machine.store.frames.size) :
    x.machine.store.Plain m.store.frames.size := by
  have hnew : (a.store m).Plain m.store.frames.size := by
    refine ⟨hopens.size_store m, ?_⟩
    rw [Act.getHere?_store (this_not_mem_names ha) fun i name h =>
      (hopens.not_reads i name h).elim]
    exact Store.getHere?_eq_none_of_le (Nat.le_refl _)
  exact (since (P := fun s => s.Plain m.store.frames.size) ha hnew
    (fun a' m' ha' hm => plain_store ha' hm) hx).1 hlt

/-- The current frame is the global one, or was added for code to run in. -/
theorem Begins.current {n : Nat} {t : Task} {m : Machine}
    (h : (Session.initial limit output).Begins budget sources n t m) :
    m.current = (Session.initial limit output).machine.globals ∨
      ∃ a m₁, .acts a m₁ ∈ (Session.initial limit output).course budget sources ∧ a.Opens ∧
        m.current = m₁.store.frames.size ∧ m.current < m.store.frames.size := by
  refine h.induct (P := fun _ _ m =>
    m.current = (Session.initial limit output).machine.globals ∨
      ∃ a m₁, .acts a m₁ ∈ (Session.initial limit output).course budget sources ∧ a.Opens ∧
        m.current = m₁.store.frames.size ∧ m.current < m.store.frames.size) ?_ ?_
  · rintro c m₀ s m ⟨before, source, rest, hsources, -, rfl⟩ hsteady
    exact .inl (hsteady.current.trans (rooted_afterAll limit output hsources).current)
  · intro k t m t' m' hbegins ih henter
    cases henter.entry with
    | after hsteady _ =>
      rw [hsteady.current]
      rcases ih with hglobal | ⟨a, m₁, ha, hopens, hcurrent, hlt⟩
      · exact .inl hglobal
      · exact .inr ⟨a, m₁, ha, hopens, hcurrent, Nat.lt_of_lt_of_le hlt hsteady.store.size_le⟩
    | call _ _ => exact ih
    | body =>
      exact .inr ⟨_, m, acts_mem_course.2 (.inl ⟨k, _, m, hbegins, .openBody⟩), .body, rfl,
        Act.Opens.body.size_store m⟩
    | block =>
      exact .inr ⟨_, m, acts_mem_course.2 (.inl ⟨k, _, m, hbegins, .openBlock⟩), .block, rfl,
        Act.Opens.block.size_store m⟩

/-- At every event, the current frame does not bind the receiver. -/
theorem plain_current {x : Event}
    (hx : x ∈ (Session.initial limit output).course budget sources) :
    x.machine.store.Plain x.machine.current := by
  have of_begins {n : Nat} {t : Task} {m : Machine}
      (hbegins : (Session.initial limit output).Begins budget sources n t m)
      (hsteady : m.Steady x.machine) : x.machine.store.Plain x.machine.current := by
    rw [hsteady.current]
    rcases hbegins.current with hglobal | ⟨a, m₁, ha, hopens, hcurrent, hlt⟩
    · rw [hglobal]
      exact plain_globals hx
    · rw [hcurrent] at hlt ⊢
      exact plain_opened ha hopens hx (Nat.lt_of_lt_of_le hlt hsteady.store.size_le)
  cases x with
  | begins n t m => exact of_begins (begins_mem_course.1 hx) (.refl m)
  | acts a m =>
    rcases acts_mem_course.1 hx with ⟨k, t, m₁, hbegins, hperforms⟩ | ⟨t, hbegins, -⟩
    · exact of_begins hbegins hperforms.steady
    · exact of_begins hbegins (.refl m)

/-! ## The frame of a receiver is not written to -/

/-- An assignment writes to a frame that binds its name, or to the current one. -/
theorem binds_of_written {name : String} {node : Node} {value : Value} {m : Machine}
    {e : FrameId}
    (h : .acts (.assign name node value) m ∈
      (Session.initial limit output).course budget sources)
    (hwritten : written? m name node = some e) :
    (m.store.getHere? e name).isSome ∨ e = m.current := by
  rcases acts_mem_course.1 h with ⟨k, t, m₁, hbegins, hperforms⟩ | ⟨t, -, hspent⟩
  · have hsteady := hperforms.steady
    cases hperforms
    unfold written? at hwritten
    split at hwritten
    · next distance hlocal =>
      rw [hsteady.locals] at hlocal
      obtain ⟨c, m₀, ⟨expr, place⟩, name', frame, -, -, rfl, hfinds⟩ := hbegins.finds hlocal
      cases hfinds.looksUp
      have hancestor := hsteady.store.ancestor?_eq hfinds.ancestor
      rw [← hsteady.current, hwritten] at hancestor
      cases hancestor
      rcases hfinds.bound with hbound | hown
      · exact .inl (hsteady.store.isSome_getHere? e name hbound)
      · -- in the initializer of the variable, it is declared in the innermost scope
        right
        cases place with
        | nil => exact hown.elim
        | cons inner outer =>
          have hcontains : inner.names.contains name = true := by
            rw [Bindings.contains, show inner.names.get? name = some false from hown]
            rfl
          have hcounted : some 0 = some distance := by
            rw [← hfinds.counted, Place.names, List.map_cons, scopeDistance?, if_pos hcontains]
          cases hcounted
          exact (Option.some.inj hwritten).symm
    · exact .inl (Store.isSome_of_binder? hwritten)
  · cases hspent

/-- No basic action in the course of a session writes to a frame that binds the receiver
only. -/
theorem target?_ne {a : Act} {m : Machine} {e : FrameId} {receiver : Value}
    {enclosing : Option FrameId}
    (h : .acts a m ∈ (Session.initial limit output).course budget sources)
    (hframe : m.store.frames[e]? = some ⟨⟨[("this", receiver)]⟩, enclosing⟩) :
    a.target? m ≠ some e := by
  have hcurrent : m.current ≠ e := by
    rintro rfl
    have hnone := (plain_current h).2
    rw [Event.machine, Store.getHere?, hframe] at hnone
    cases hnone
  intro htarget
  cases a with
  | assign name node value =>
    have hname : "this" ≠ name := fun heq => this_not_mem_names h (List.mem_singleton.2 heq)
    rcases binds_of_written h htarget with hbound | rfl
    · rw [Store.getHere?, hframe] at hbound
      simp [Bindings.get?, Bindings.find?, hname] at hbound
    · exact hcurrent rfl
  | define name value => exact hcurrent (Option.some.inj htarget)
  | defineFunction f => exact hcurrent (Option.some.inj htarget)
  | defineClass name methods => exact hcurrent (Option.some.inj htarget)
  | _ => cases htarget

/-- At every event that finds it, the frame of a receiver is as it was made. -/
theorem Binds.frames_eq {e : FrameId} {i : InstanceId} {f : Closure} {x : Event}
    (h : (Session.initial limit output).Binds budget sources e i f)
    (hx : x ∈ (Session.initial limit output).course budget sources) :
    (e < x.machine.store.frames.size →
      x.machine.store.frames[e]? = some ⟨⟨[("this", .instance i)]⟩, some f.frame⟩) ∧
    (e < x.after.store.frames.size →
      x.after.store.frames[e]? = some ⟨⟨[("this", .instance i)]⟩, some f.frame⟩) := by
  obtain ⟨a, m, name, ha, hreads, hfind, rfl⟩ := h.reads
  refine since (P := fun s =>
    s.frames[m.store.frames.size]? = some ⟨⟨[("this", .instance i)]⟩, some f.frame⟩) ha ?_
    (fun a' m' ha' hframe => ?_) hx
  · rw [hreads.store_eq, Store.property, hfind]
    exact Store.frames_bind _ _ _
  · have hlt : m.store.frames.size < m'.store.frames.size :=
      (Array.getElem?_eq_some_iff.1 hframe).1
    rw [Act.frames_store hlt (target?_ne ha' hframe), hframe]

/-! ## The frames around a `this` -/

/-- The frame of a call is inside the frame of the function. -/
theorem Begins.enclosing?_eq {n : Nat} {f : Closure} {arguments : List Value} {m : Machine}
    {x : Event}
    (h : (Session.initial limit output).Begins budget sources (n + 1) (.apply f arguments) m)
    (hx : x ∈ (Session.initial limit output).course budget sources)
    (hlt : m.store.frames.size < x.machine.store.frames.size) :
    x.machine.store.enclosing? m.store.frames.size = some f.frame := by
  have ha : .acts (.openBody f arguments) m ∈
      (Session.initial limit output).course budget sources :=
    acts_mem_course.2 (.inl ⟨n, _, m, h, .openBody⟩)
  refine (since (P := fun s => s.enclosing? m.store.frames.size = some f.frame) ha ?_
    (fun a' m' _ henclosing => ?_) hx).1 hlt
  · show ((m.store.addFrame (some f.frame)).2.defineAll _ _ _).enclosing? _ = _
    rw [(Store.Grows.defineAll _ _ _ _).enclosing?_eq _ (by simp), Store.enclosing?_addFrame,
      if_pos rfl]
  · have hold := Store.lt_of_enclosing? henclosing
    rw [← a'.endState_store, (a'.keeps m').store.enclosing?_eq _ hold, henclosing]

/-- The value of a `this` is found one frame further up than that of the call. -/
theorem evaluate_this_of_frames {n depth : Nat} {node : Node} {m : Machine} {g e : FrameId}
    {value : Value} {enclosing : Option FrameId} (hlocal : m.locals[node.id]? = some (depth + 1))
    (hg : m.store.ancestor? depth m.current = some g) (he : m.store.enclosing? g = some e)
    (hframe : m.store.frames[e]? = some ⟨⟨[("this", value)]⟩, enclosing⟩) :
    evaluate (n + 1) (.this node) m = .ok value m := by
  have hfound : found? m "this" node = some value := by
    rw [found?, hlocal]
    show m.store.getAt? m.current (depth + 1) "this" = _
    rw [Store.getAt?, Store.ancestor?_succ hg he]
    show m.store.getHere? e "this" = _
    rw [Store.getHere?, hframe]
    rfl
  rw [evaluate, lookUp_apply, hfound]

/-- A `this` has the receiver of the method around it as its value. -/
theorem Begins.receiver {n : Nat} {node : Node} {m : Machine}
    (h : (Session.initial limit output).Begins budget sources (n + 1) (.evaluate (.this node)) m) :
    let start := Session.initial limit output
    ∃ c m₀ place depth methods k f arguments m₁ i f₀,
      start.Runs budget sources c m₀ ∧ ⟨.this node, place⟩ ∈ c.program.occurrences ∧
      place.InMethod depth f.decl methods ∧
      start.Begins budget sources (k + 1) (.apply f arguments) m₁ ∧
      m.store.ancestor? depth m.current = some m₁.store.frames.size ∧
      start.Binds budget sources f.frame i f₀ ∧ f₀.decl = f.decl ∧
      evaluate (n + 1) (.this node) m = .ok (.instance i) m := by
  intro start
  obtain ⟨known, hknown, hrooted, place, hmirrors, hos⟩ := h.ready
  have ho := hos _ (Expr.mem_occurrences _ place)
  obtain ⟨c, m₀, hruns, hmem⟩ := hknown _ ho
  obtain ⟨supply, source, hcompile⟩ := hruns.compile_eq_ok
  -- the place is in a method
  obtain ⟨⟨around, hplace, hclass⟩, -⟩ := lexical_of_compile hcompile hmem
  rw [Expr.Permitted] at hclass
  rw [hclass] at hplace
  obtain ⟨depth, method, methods, hin, hdistance⟩ := hplace.inMethod
  obtain ⟨inner, cls, outer, hdrop, hinner, hcls⟩ := hin.drop
  -- the frames of the method and of its class
  obtain ⟨g, hg, -, hactivation, e, he, hreceiver⟩ := hmirrors.ancestor hdrop
  rw [Place.scopes, List.map_cons, hinner, hcls] at hactivation
  have hclassActivation := hreceiver.2.1
  rw [hcls] at hclassActivation
  cases hactivation with
  | @function k f arguments m₁ _ hcall _ =>
    have hx := begins_mem_course.2 h
    have hmethod : start.HasMethod budget sources f.decl := by
      cases hclassActivation with
      | receiver _ _ hexecuted _ _ _ => exact Begins.hasMethod hexecuted hin.mem
    obtain ⟨i, f₀, hbinds, hdecl⟩ := Begins.bound hcall hmethod
    have hframe : e = f.frame := by
      have henclosing := Begins.enclosing?_eq hcall hx (Store.lt_of_enclosing? he)
      rw [Event.machine, he] at henclosing
      exact Option.some.inj henclosing
    subst hframe
    refine ⟨c, m₀, place, depth, methods, k, f, arguments, m₁, i, f₀, hruns, hmem, hin, hcall,
      hg, hbinds, hdecl, ?_⟩
    have hlocal : m.locals[node.id]? = some (depth + 1) := (hrooted.locals _ ho).trans hdistance
    exact evaluate_this_of_frames hlocal hg he ((hbinds.frames_eq hx).1 hreceiver.lt_size)

/-- When the body of a method is run, the frame of its receiver is there. -/
theorem Begins.receiver_frame {n : Nat} {f : Closure} {arguments : List Value} {m : Machine}
    (h : (Session.initial limit output).Begins budget sources n (.apply f arguments) m)
    (hmethod : (Session.initial limit output).HasMethod budget sources f.decl) :
    ∃ i f₀, (Session.initial limit output).Binds budget sources f.frame i f₀ ∧
      f₀.decl = f.decl ∧
      m.store.frames[f.frame]? = some ⟨⟨[("this", .instance i)]⟩, some f₀.frame⟩ := by
  obtain ⟨i, f₀, hbinds, hdecl⟩ := h.bound hmethod
  have hx := begins_mem_course.2 h
  obtain ⟨known, -, -, ⟨place, hf⟩, -⟩ := h.ready
  have hlt : f.frame < m.store.frames.size := by
    cases place with
    | nil =>
      rw [show f.frame = _ from hf.mirrors]
      exact (plain_globals hx).1
    | cons inner outer => exact hf.mirrors.lt_size
  exact ⟨i, f₀, hbinds, hdecl, (hbinds.frames_eq hx).1 hlt⟩

end Session

/-- **The receiver of a method is the instance from which it was read.**  In the course of a
session, let a `this` be evaluated.  It stands in a method of the innermost class around it,
with blocks and functions between; so many frames up the chain is the frame of a call of this
method; and the value of `this` is the instance that was the object of the property read which
gave the called function.  The frame that was made for the receiver when the method was read
binds `this` only, and is never written to.  A class, with its methods, is never changed.  The
body of a method is never run without the frame of a receiver around it. -/
theorem this_is_receiver (budget limit : Nat) (output : Output) (sources : List String) :
    let start := Session.initial limit output
    (∀ n node m, start.Begins budget sources (n + 1) (.evaluate (.this node)) m →
      ∃ c m₀ place depth methods k f arguments m₁ i f₀,
        start.Runs budget sources c m₀ ∧ ⟨.this node, place⟩ ∈ c.program.occurrences ∧
        place.InMethod depth f.decl methods ∧
        start.Begins budget sources (k + 1) (.apply f arguments) m₁ ∧
        m.store.ancestor? depth m.current = some m₁.store.frames.size ∧
        start.Binds budget sources f.frame i f₀ ∧ f₀.decl = f.decl ∧
        evaluate (n + 1) (.this node) m = .ok (.instance i) m) ∧
    (∀ e i f, start.Binds budget sources e i f → ∀ x ∈ start.course budget sources,
      e < x.after.store.frames.size →
      x.after.store.frames[e]? = some ⟨⟨[("this", .instance i)]⟩, some f.frame⟩) ∧
    (∀ x ∈ start.course budget sources, ∀ y ∈ start.course budget sources,
      ∀ (c : ClassId) (cls cls' : Class), x.after.store.classes[c]? = some cls →
      y.after.store.classes[c]? = some cls' → cls = cls') ∧
    (∀ n f arguments m, start.Begins budget sources n (.apply f arguments) m →
      start.HasMethod budget sources f.decl →
      ∃ i f₀, start.Binds budget sources f.frame i f₀ ∧ f₀.decl = f.decl ∧
        m.store.frames[f.frame]? = some ⟨⟨[("this", .instance i)]⟩, some f₀.frame⟩) := by
  intro start
  refine ⟨fun n node m h => h.receiver, fun e i f h x hx => (h.frames_eq hx).2,
    fun x hx y hy c cls cls' hcls hcls' => ?_,
    fun n f arguments m h hmethod => h.receiver_frame hmethod⟩
  exact (Session.traces_course budget start sources).classes_eq hx hy hcls hcls'

end Lox
