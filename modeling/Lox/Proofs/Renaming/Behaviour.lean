import Lox.Proofs.Renaming.Resolving
import Lox.Proofs.Renaming.Running
import Lox.Proofs.Scope.Addressing

/-!
# Renaming a variable changes nothing

On a fresh machine, a program and the renamed program have the same distances, end in the
same way and print the same.
-/

namespace Lox

open Run

/-! ## Programs without faults -/

/-- What a program begins, as a history. -/
def Compiled.history (budget : Nat) (c : Compiled) (m : Machine) : History where
  begins := c.Begins budget m
  globals := m.globals

/-- While a program runs on a fresh machine, no expression with a distance misses its
name. -/
theorem Compiled.Begins.locals_eq_none {supply : Supply} {source : String} {c : Compiled}
    (hcompile : (compile supply source).result = .ok c) {budget limit n : Nat} {output : Output}
    {e : Expr} {m : Machine} {error : RuntimeError}
    (hbegins : c.Begins budget (Machine.initial limit output) (n + 1) (.evaluate e) m)
    (hmisses : Misses n e m error) : m.locals[e.id]? = none := by
  set fresh := Machine.initial limit output
  have hrooted : Session.Rooted (c.history budget fresh) (fun _ => False) ⟨fresh, supply⟩ :=
    (Session.rooted_initial _ limit output rfl).supply_le (Nat.zero_le _)
  have hstarts : c.Starts (c.history budget fresh) (· ∈ c.program.occurrences) budget fresh :=
    hrooted.starts hcompile (fun _ _ _ h => h) (by simp)
  have hclosed : (c.history budget fresh).Closed :=
    fun _ _ _ _ _ hbegun henter => Compiled.Begins.step hbegun henter
  obtain ⟨hm, hready⟩ := hstarts.reached hclosed hbegins
  rw [Option.eq_none_iff_forall_ne_some]
  intro distance hlocal
  obtain ⟨o, name, frame, -, rfl, hfinds⟩ := Occurrence.finds_of_ready
    (fun o ho => ⟨supply, source, c, hcompile, ho⟩) hm hready hlocal
  exact hfinds.not_misses hlocal hmisses

/-! ## Programs in step -/

variable {r : Renaming}

theorem agree_statements (hproper : r.IsProper) (budget : Nat) {depths : List Depth}
    {m m' : Machine} {ss ss' : List Stmt} (hm : m.Renamed r depths none m')
    (hss : Stmt.RenamedAll r none ss ss')
    (hfault : ∀ before s rest m₁, ss = before ++ s :: rest →
      statements budget before m = .ok () m₁ → Faultless budget (.execute s) m₁) :
    Agree r depths none (fun _ _ _ => True) (statements budget ss m)
      (statements budget ss' m') := by
  induction ss generalizing ss' depths m m' with
  | nil =>
    cases hss
    exact .pure hm trivial
  | cons s ss ih =>
    cases hss with
    | cons hs hss =>
      refine .bind ((alike hproper budget).execute hm hs (hfault [] s ss m rfl rfl))
        fun flow _ m₁ m₁' depths' h₁ _ hm₁ _ => ih hm₁ hss ?_
      intro before s' rest m₂ hsplit hbefore
      refine hfault (s :: before) s' rest m₂ (by rw [hsplit, List.cons_append]) ?_
      rw [statements, bind_of_ok h₁]
      exact hbefore

/-- Programs that run alike end in the same way and print the same. -/
theorem Agree.runCompiled {budget : Nat} {depths : List Depth} {k : Depth} {m m' : Machine}
    {c c' : Compiled}
    (h : Agree r depths k (fun _ _ _ => True)
      (statements budget c.program.statements (m.learn c.locals))
      (statements budget c'.program.statements (m'.learn c'.locals))) :
    (Session.runCompiled budget m' c').1 = (Session.runCompiled budget m c).1 ∧
      (Session.runCompiled budget m' c').2.output = (Session.runCompiled budget m c).2.output := by
  rw [Session.runCompiled, Session.runCompiled, program_apply, program_apply]
  generalize statements budget c.program.statements (m.learn c.locals) = o at h ⊢
  generalize statements budget c'.program.statements (m'.learn c'.locals) = o' at h ⊢
  cases h with
  | ok _ hm _ => exact ⟨rfl, hm.output⟩
  | @error stop _ _ houtput => cases stop <;> exact ⟨rfl, houtput⟩

/-- A fresh machine that has learnt the distances is renamed to itself. -/
theorem renamed_initial (r : Renaming) (limit : Nat) (output : Output) :
    ((Machine.initial limit output).learn r.locals).Renamed r [none] none
      ((Machine.initial limit output).learn r.locals) where
  store := Store.Renamed.empty.addFrame none (by simp)
  globals := rfl
  current := rfl
  locals := rfl
  callDepth := rfl
  maxCallDepth := rfl
  output := rfl
  depth := rfl
  outside := rfl
  outermost := rfl
  distances id := by
    rw [getElem?_learn]
    show r.locals[id]?.or (∅ : Locals)[id]? = r.locals[id]?
    rw [Std.TreeMap.getElem?_emptyc, Option.or_none]

/-- **Renaming a local variable changes nothing.**  Let a program be renamed, in some of
its block and function scopes, to a name that is no keyword and does not occur in it.  The
renamed program has the same distances.  On a fresh machine with any limit on calls, it ends
in the same way, with the same error if there is one, and prints the same. -/
theorem renaming_sound (supply : Supply) (source : String) (c : Compiled) (x y : String)
    (p' : Program) (hcompile : (compile supply source).result = .ok c)
    (hy : IsDeclarable y) (hrenamed : Program.Renamed ⟨c.locals, x, y⟩ c.program p') :
    p'.resolve = .ok c.locals ∧
    ∀ budget limit output,
      let before := Session.runCompiled budget (Machine.initial limit output) c
      let after := Session.runCompiled budget (Machine.initial limit output) ⟨p', c.locals⟩
      after.1 = before.1 ∧ after.2.output = before.2.output := by
  obtain ⟨tokens, -, -, -, -, hresolve⟩ := compile_eq_ok hcompile
  rcases hrenamed.eq_or_isProper hy (orderly_of_compile hcompile) with rfl | hproper
  · exact ⟨hresolve, fun budget limit output => ⟨rfl, rfl⟩⟩
  · have hsettles : Renaming.Settles ⟨c.locals, x, y⟩ c.program.occurrences := fun o ho =>
      have haddressed := (addressed_of_compile hcompile).1 o ho
      ⟨haddressed.1, haddressed.2.1⟩
    refine ⟨?_, fun budget limit output => ?_⟩
    · rw [hrenamed.resolve_eq hproper hsettles, hresolve]
    · have hagree := agree_statements hproper budget (renamed_initial _ limit output) hrenamed
        fun before s rest m₁ hsplit hbefore k e m error hreach hmisses =>
          Compiled.Begins.locals_eq_none hcompile
            ⟨before, s, rest, m₁, hsplit, hbefore, hreach⟩ hmisses
      exact hagree.runCompiled

/-- Of two variables with the same name, the outer one can be renamed. -/
theorem renaming_sound_outer :
    ∃ c p', (compile .initial "{ var a; { var a; print a; } print a; }").result = .ok c ∧
      IsDeclarable "b" ∧ Program.Renamed ⟨c.locals, "a", "b"⟩ c.program p' ∧ p' ≠ c.program ∧
      p'.resolve = .ok c.locals ∧
      ∀ budget limit output,
        let before := Session.runCompiled budget (Machine.initial limit output) c
        let after := Session.runCompiled budget (Machine.initial limit output) ⟨p', c.locals⟩
        after.1 = before.1 ∧ after.2.output = before.2.output := by
  -- the program with a name for the outer variable, which stands at two places
  let named (outer : String) : Program :=
    ⟨[.block [.var outer none ⟨2, 6, 1⟩,
      .block [.var "a" none ⟨11, 6, 1⟩, .print (.variable ⟨0, ⟨24, 1, 1⟩⟩ "a") ⟨18, 8, 1⟩]
        ⟨9, 19, 1⟩,
      .print (.variable ⟨1, ⟨35, 1, 1⟩⟩ outer) ⟨29, 8, 1⟩] ⟨0, 39, 1⟩]⟩
  let locals : Locals := ((∅ : Locals).insert 0 0).insert 1 0
  have hcompile : (compile .initial "{ var a; { var a; print a; } print a; }").result =
      .ok ⟨named "a", locals⟩ := rfl
  have hdeclarable : IsDeclarable "b" := rfl
  have hrenamed : Program.Renamed ⟨locals, "a", "b"⟩ (named "a") (named "b") := by
    have hne : "a" ≠ "b" := by decide
    refine .cons (.block (.inr ⟨rfl, rfl, none, _, List.mem_cons_self ..⟩) ?_) .nil
    refine .cons (.var hne .none) (.cons (.block (.inl rfl) ?_)
      (.cons (.print (.variable hne)) .nil))
    exact .cons (.var hne .none) (.cons (.print (.variable hne)) .nil)
  refine ⟨⟨named "a", locals⟩, named "b", hcompile, hdeclarable, hrenamed, by simp [named], ?_⟩
  exact renaming_sound .initial _ _ "a" "b" _ hcompile hdeclarable hrenamed

end Lox
