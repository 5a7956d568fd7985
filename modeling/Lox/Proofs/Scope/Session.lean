import Lox.Proofs.Run.Moment
import Lox.Proofs.Scope.Carried
import Lox.Proofs.Scope.Resolving
import Lox.Proofs.Syntax.Numbering
import Mathlib.Data.List.Induction

/-!
# Sessions stay rooted

The programs of a session are run on one machine, so that functions of one program can
be called by later ones, and the distances of all programs are kept together.  They do
not get mixed up, since no two expressions of a session have the same number.  Hence
every task that is begun in the course of a session is ready (`Session.Begins.ready`).
-/

namespace Lox

open Run

/-! ## Distances of several programs -/

/-- What is learnt replaces what was known before. -/
theorem getElem?_learn (m : Machine) (locals : Locals) (id : Nat) :
    (m.learn locals).locals[id]? = locals[id]?.or m.locals[id]? := by
  rw [Machine.learn]
  cases h : locals[id]? with
  | none =>
    rw [Option.none_or]
    refine Std.TreeMap.getElem?_insertMany_list_of_contains_eq_false ?_
    rw [List.contains_eq_any_beq, List.any_eq_false]
    intro key hkey
    obtain ⟨⟨id', distance⟩, hmem, rfl⟩ := List.mem_map.1 hkey
    rw [Std.TreeMap.mem_toList_iff_getElem?_eq_some] at hmem
    intro heq
    rw [eq_of_beq heq, hmem] at h
    cases h
  | some distance =>
    rw [Option.some_or]
    exact Std.TreeMap.getElem?_insertMany_list_of_mem Std.ReflCmp.compare_self
      Std.TreeMap.distinct_keys_toList (Std.TreeMap.mem_toList_iff_getElem?_eq_some.2 h)

/-- The distances of a compiled text are those that the places give, and its numbers are
taken from the supply. -/
theorem addressed_of_compile {supply : Supply} {source : String} {c : Compiled}
    (h : (compile supply source).result = .ok c) :
    (∀ o ∈ c.program.occurrences, o.IsAddressed c.locals ∧ o.IsLegal ∧
      supply.node ≤ o.id ∧ o.id < (compile supply source).supply.node) ∧
    supply.node ≤ (compile supply source).supply.node ∧
    ∀ id, id < supply.node ∨ (compile supply source).supply.node ≤ id →
      c.locals[id]? = none := by
  obtain ⟨tokens, -, hprogram, -, hsupply, hresolve⟩ := compile_eq_ok h
  obtain ⟨hlocals, hlegal⟩ := Program.resolve_eq_ok hresolve
  have hids := c.program.map_id_occurrences
  have hnodup : (c.program.occurrences.map Occurrence.id).Nodup := by
    rw [hids, hprogram]
    exact Parsed.nodup_ids supply tokens
  have hrange {id : Nat} (hid : id ∈ c.program.occurrences.map Occurrence.id) :
      supply.node ≤ id ∧ id < (compile supply source).supply.node := by
    rw [hids, hprogram] at hid
    rw [hsupply]
    exact Parsed.id_mem_range hid
  refine ⟨fun o ho => ⟨?_, hlegal o ho, hrange (List.mem_map_of_mem ho)⟩, ?_, fun id hid => ?_⟩
  · rw [hlocals]
    exact isAddressed_foldl_addTo hnodup (fun _ _ => by simp) o ho
  · rw [hsupply]
    exact Parsed.supply_le .expression supply tokens
  · rw [hlocals, getElem?_foldl_addTo_of_not_mem]
    · simp
    · intro hmem
      have := hrange hmem
      omega

/-! ## Programs -/

theorem Stmt.mem_occurrencesAll_nil {s : Stmt} {ss : List Stmt} (hs : s ∈ ss)
    {o : Occurrence} (ho : o ∈ s.occurrences []) : o ∈ Stmt.occurrencesAll [] ss := by
  induction ss with
  | nil => cases hs
  | cons first ss ih =>
    rw [Stmt.occurrencesAll, List.mem_append, Stmt.leave_nil]
    rcases List.mem_cons.1 hs with rfl | hs
    · exact .inl ho
    · exact .inr (ih hs)

theorem Stmt.Orderly.of_mem {s : Stmt} {ss : List Stmt} (h : Stmt.OrderlyAll ss)
    (hs : s ∈ ss) : s.Orderly := by
  induction ss with
  | nil => cases hs
  | cons first ss ih =>
    rw [Stmt.OrderlyAll] at h
    rcases List.mem_cons.1 hs with rfl | hs
    · exact h.1
    · exact ih h.2 hs

theorem statements_append (budget : Nat) (ss ss' : List Stmt) :
    statements budget (ss ++ ss') =
      (statements budget ss >>= fun _ => statements budget ss') := by
  induction ss with
  | nil => rfl
  | cons s ss ih =>
    rw [List.cons_append, statements, ih, statements, bind_assoc]

/-- A program that starts on a rooted machine, in the global frame. -/
structure Compiled.Starts (history : History) (known : Occurrence → Prop) (budget : Nat)
    (c : Compiled) (m : Machine) : Prop where
  /-- What the program does belongs to the history. -/
  begins : ∀ n t m', c.Begins budget m n t m' → history.begins n t m'
  /-- The program is orderly. -/
  orderly : c.program.Orderly
  /-- The occurrences of the program are known. -/
  occurrences : ∀ o ∈ c.program.occurrences, known o
  /-- The machine that knows the distances of the program is rooted. -/
  rooted : (m.learn c.locals).Rooted history known
  /-- Names are bound in the global frame. -/
  current : m.current = history.globals

namespace Compiled.Starts

variable {history : History} {known : Occurrence → Prop} {budget : Nat} {c : Compiled}
  {m m₁ : Machine}

/-- A statement of the program is ready when its turn comes. -/
theorem ready (h : c.Starts history known budget m) {done : List Stmt}
    (hdone : statements budget done (m.learn c.locals) = .ok () m₁) {s : Stmt}
    (hs : s ∈ c.program.statements) : Task.Ready history known m₁ (.execute s) := by
  have hsteady : (m.learn c.locals).Steady m₁ := (keeps_statements budget done).of_ok hdone
  refine ⟨.of_mem h.orderly hs, [], ?_, fun o ho => ?_⟩
  · exact hsteady.current.trans h.current
  · exact h.occurrences o (Stmt.mem_occurrencesAll_nil hs ho)

theorem rooted_statements (hclosed : history.Closed) (h : c.Starts history known budget m)
    (todo done rest : List Stmt) (hstatements : c.program.statements = done ++ todo ++ rest)
    (hdone : statements budget done (m.learn c.locals) = .ok () m₁)
    (hm₁ : m₁.Rooted history known) :
    EndsRooted history known (statements budget todo) m₁ (fun _ _ => True) := by
  induction todo generalizing done m₁ with
  | nil => exact .pure hm₁.store trivial
  | cons s todo ih =>
    have hs : s ∈ c.program.statements := by
      rw [hstatements]
      simp
    have hbegins : history.begins budget (.execute s) m₁ :=
      h.begins _ _ _ ⟨done, s, todo ++ rest, m₁, by simp [hstatements], hdone, .refl⟩
    have hready := h.ready hdone hs
    refine .bind (History.carriesOut hclosed budget _ _ hbegins hm₁ hready) ?_
    intro flow m₂ hflow _ _
    obtain ⟨hm₂, -, -⟩ := History.CarriesOut.of_ok (History.carriesOut hclosed budget)
      hbegins hm₁ hready hflow
    refine ih (done ++ [s]) (by simp [hstatements]) ?_ hm₂
    rw [statements_append, bind_of_ok hdone, statements, bind_of_ok hflow]
    rfl

/-- Every task that is begun in the course of the program is ready. -/
theorem reached (hclosed : history.Closed) (h : c.Starts history known budget m) {n : Nat}
    {t : Task} {m' : Machine} (hbegins : c.Begins budget m n t m') :
    m'.Rooted history known ∧ t.Ready history known m' := by
  obtain ⟨before, s, rest, m₁, hstatements, hbefore, hreach⟩ := hbegins
  have hends := h.rooted_statements hclosed before [] (s :: rest)
    (by simpa using hstatements) rfl h.rooted
  rw [EndsRooted, hbefore] at hends
  have hsteady : (m.learn c.locals).Steady m₁ := (keeps_statements budget before).of_ok hbefore
  have hm₁ : m₁.Rooted history known := by
    refine ⟨hends.1, fun o ho => ?_⟩
    rw [hsteady.locals]
    exact h.rooted.locals o ho
  have hs : s ∈ c.program.statements := by simp [hstatements]
  have hbegun : history.begins budget (.execute s) m₁ :=
    h.begins _ _ _ ⟨before, s, rest, m₁, hstatements, hbefore, .refl⟩
  exact (hreach.ready hclosed hbegun hm₁ (h.ready hbefore hs)).2

/-- The program leaves a rooted machine. -/
theorem runCompiled (hclosed : history.Closed) (h : c.Starts history known budget m) :
    (Session.runCompiled budget m c).2.Rooted history known := by
  have hends := h.rooted_statements hclosed c.program.statements [] [] (by simp) rfl h.rooted
  have hsteady := keeps_statements budget c.program.statements (m.learn c.locals)
  rw [runCompiled_snd]
  refine ⟨?_, fun o ho => ?_⟩
  · rw [EndsRooted] at hends
    rw [endState]
    split at hends
    · next heq => rw [heq]; exact hends.1
    · next heq => rw [heq]; exact hends
  · rw [hsteady.locals]
    exact h.rooted.locals o ho

end Compiled.Starts

/-! ## Sessions -/

namespace Session

/-- The history of a session. -/
def history (budget : Nat) (session : Session) (sources : List String) : History where
  begins := session.Begins budget sources
  globals := session.machine.globals

/-- The occurrence is part of a program that is run in the course of the source texts. -/
def Knows (budget : Nat) (session : Session) (sources : List String) (o : Occurrence) : Prop :=
  ∃ c m, session.Runs budget sources c m ∧ o ∈ c.program.occurrences

variable {budget : Nat} {session : Session} {sources : List String}

theorem closed_history : (session.history budget sources).Closed :=
  fun _ _ _ _ _ hbegins henter => Begins.step hbegins henter

theorem afterAll_concat (budget : Nat) (session : Session) (sources : List String)
    (source : String) :
    session.afterAll budget (sources ++ [source]) =
      ((session.afterAll budget sources).step budget source).2 := by
  simp [afterAll]

/-- What is run in the course of some texts is run in the course of more texts. -/
theorem Runs.append {c : Compiled} {m : Machine} (h : session.Runs budget sources c m)
    (more : List String) : session.Runs budget (sources ++ more) c m := by
  obtain ⟨before, source, rest, rfl, hrest⟩ := h
  exact ⟨before, source, rest ++ more, by simp, hrest⟩

theorem Runs.compile_eq_ok {c : Compiled} {m : Machine} (h : session.Runs budget sources c m) :
    ∃ supply source, (compile supply source).result = .ok c := by
  obtain ⟨before, source, rest, -, hcompile, -⟩ := h
  exact ⟨_, source, hcompile⟩

/-- A text runs on the machine that the texts before it leave. -/
theorem runs_concat {source : String} {c : Compiled} {m : Machine} :
    session.Runs budget (sources ++ [source]) c m ↔
      session.Runs budget sources c m ∨
      (compile (session.afterAll budget sources).supply source).result = .ok c ∧
        m = (session.afterAll budget sources).machine := by
  constructor
  · rintro ⟨before, source', rest, heq, hcompile, hm⟩
    rcases List.eq_nil_or_concat rest with rfl | ⟨rest, last, rfl⟩
    · obtain ⟨rfl, hsource⟩ := List.append_inj' heq rfl
      cases hsource
      exact .inr ⟨hcompile, hm⟩
    · left
      refine ⟨before, source', rest, ?_, hcompile, hm⟩
      have hsplit : sources ++ [source] = (before ++ source' :: rest) ++ [last] := by
        simpa using heq
      exact (List.append_inj' hsplit rfl).1
  · rintro (h | ⟨hcompile, hm⟩)
    · exact h.append _
    · exact ⟨sources, source, [], rfl, hcompile, hm⟩

/-- Between texts, the machine is rooted, and the numbers of the supply are new. -/
structure Rooted (history : History) (known : Occurrence → Prop) (session : Session) :
    Prop where
  /-- The machine is rooted. -/
  machine : session.machine.Rooted history known
  /-- Names are bound in the global frame. -/
  current : session.machine.current = history.globals
  /-- What is known has numbers that are in use. -/
  used : ∀ o, known o → o.id < session.supply.node
  /-- No distances are noted for numbers that are not in use. -/
  unused : ∀ id, session.supply.node ≤ id → session.machine.locals[id]? = none

theorem Rooted.supply_le {history : History} {known : Occurrence → Prop} {session : Session}
    (h : session.Rooted history known) {supply : Supply}
    (hle : session.supply.node ≤ supply.node) :
    Rooted history known { session with supply := supply } where
  machine := h.machine
  current := h.current
  used o ho := Nat.lt_of_lt_of_le (h.used o ho) hle
  unused id hid := h.unused id (Nat.le_trans hle hid)

/-- A program that is run when the session is rooted starts on a rooted machine. -/
theorem Rooted.starts {history : History} {known known' : Occurrence → Prop}
    {session : Session} (h : session.Rooted history known) {source : String} {c : Compiled}
    (hcompile : (compile session.supply source).result = .ok c)
    (hbegins : ∀ n t m, c.Begins budget session.machine n t m → history.begins n t m)
    (hknown : ∀ o, known' o ↔ known o ∨ o ∈ c.program.occurrences) :
    c.Starts history known' budget session.machine := by
  obtain ⟨haddressed, -, hnone⟩ := addressed_of_compile hcompile
  refine ⟨hbegins, orderly_of_compile hcompile, fun o ho => (hknown o).2 (.inr ho),
    ⟨h.machine.store.mono fun o ho => (hknown o).2 (.inl ho), fun o ho => ?_⟩, h.current⟩
  rw [Occurrence.IsAddressed, getElem?_learn]
  rcases (hknown o).1 ho with hold | hnew
  · rw [hnone o.id (.inl (h.used o hold)), Option.none_or]
    exact h.machine.locals o hold
  · obtain ⟨hdistance, -, hle, -⟩ := haddressed o hnew
    rw [h.unused o.id hle, Option.or_none]
    exact hdistance

/-- Running one more text keeps the session rooted. -/
theorem Rooted.step {history : History} {known known' : Occurrence → Prop}
    {session : Session} (hclosed : history.Closed) (h : session.Rooted history known)
    {source : String}
    (hbegins : ∀ c, (compile session.supply source).result = .ok c →
      ∀ n t m, c.Begins budget session.machine n t m → history.begins n t m)
    (hknown : ∀ o, known' o ↔ known o ∨
      ∃ c, (compile session.supply source).result = .ok c ∧ o ∈ c.program.occurrences) :
    (session.step budget source).2.Rooted history known' := by
  cases hcompile : (compile session.supply source).result with
  | error errors =>
    -- nothing is run, and nothing more is known
    have heq : known' = known := by
      funext o
      simpa [hcompile] using hknown o
    rw [step_of_error hcompile, heq]
    exact h.supply_le (supply_le_compile .expression _ _)
  | ok c =>
    have hknown' (o : Occurrence) : known' o ↔ known o ∨ o ∈ c.program.occurrences := by
      simpa [hcompile] using hknown o
    have hstarts := h.starts hcompile (hbegins c hcompile) hknown'
    obtain ⟨haddressed, hle, hnone⟩ := addressed_of_compile hcompile
    have hsteady := keeps_statements budget c.program.statements (session.machine.learn c.locals)
    rw [← runCompiled_snd] at hsteady
    rw [step_of_ok hcompile]
    refine ⟨hstarts.runCompiled hclosed, hsteady.current.trans h.current, fun o ho => ?_,
      fun id hid => ?_⟩
    · rcases (hknown' o).1 ho with hold | hnew
      · exact Nat.lt_of_lt_of_le (h.used o hold) hle
      · exact (haddressed o hnew).2.2.2
    · show (runCompiled budget session.machine c).2.locals[id]? = none
      rw [hsteady.locals, getElem?_learn, hnone id (.inr hid), Option.none_or]
      exact h.unused id (Nat.le_trans hle hid)

theorem rooted_initial (history : History) (limit : Nat) (output : Output)
    (hglobals : history.globals = (Machine.initial limit output).globals) :
    (Session.initial limit output).Rooted history (fun _ => False) where
  machine := ⟨Store.Rooted.addFrame .empty none, fun _ ho => ho.elim⟩
  current := hglobals.symm
  used _ ho := ho.elim
  unused _ _ := Std.TreeMap.getElem?_emptyc

/-- After any texts of a session, the session is rooted. -/
theorem rooted_afterAll (limit : Nat) (output : Output) {before rest : List String}
    (hsources : sources = before ++ rest) :
    ((Session.initial limit output).afterAll budget before).Rooted
      ((Session.initial limit output).history budget sources)
      ((Session.initial limit output).Knows budget before) := by
  induction before using List.reverseRecOn generalizing rest with
  | nil =>
    have hknows : (Session.initial limit output).Knows budget [] = fun _ => False := by
      funext o
      simp [Knows, Runs]
    rw [hknows]
    exact rooted_initial _ limit output rfl
  | append_singleton before source ih =>
    rw [afterAll_concat]
    have hbefore : sources = before ++ source :: rest := by simpa using hsources
    refine (ih hbefore).step closed_history ?_ fun o => ?_
    · intro c hcompile n t m hbegins
      exact ⟨c, _, ⟨before, source, rest, by simpa using hsources, hcompile, rfl⟩, hbegins⟩
    · constructor
      · rintro ⟨c, m, hruns, ho⟩
        rcases runs_concat.1 hruns with hruns | ⟨hcompile, -⟩
        · exact .inl ⟨c, m, hruns, ho⟩
        · exact .inr ⟨c, hcompile, ho⟩
      · rintro (⟨c, m, hruns, ho⟩ | ⟨c, hcompile, ho⟩)
        · exact ⟨c, m, hruns.append _, ho⟩
        · exact ⟨c, _, runs_concat.2 (.inr ⟨hcompile, rfl⟩), ho⟩

/-- Every task that is begun in the course of a session is ready. -/
theorem Begins.ready {limit : Nat} {output : Output} {n : Nat} {t : Task} {m : Machine}
    (h : (Session.initial limit output).Begins budget sources n t m) :
    let history := (Session.initial limit output).history budget sources
    let known := (Session.initial limit output).Knows budget sources
    ∃ known' : Occurrence → Prop, (∀ o, known' o → known o) ∧
      m.Rooted history known' ∧ t.Ready history known' m := by
  obtain ⟨c, m₀, hruns, hbegins⟩ := h
  obtain ⟨before, source, rest, hsources, hcompile, rfl⟩ := hruns
  set start := Session.initial limit output
  have hrooted : (start.afterAll budget before).Rooted (start.history budget sources)
      (start.Knows budget before) := rooted_afterAll limit output hsources
  refine ⟨fun o => start.Knows budget before o ∨ o ∈ c.program.occurrences, ?_, ?_⟩
  · rintro o (⟨c', m', hruns', ho⟩ | ho)
    · rw [hsources]
      exact ⟨c', m', hruns'.append _, ho⟩
    · exact ⟨c, _, ⟨before, source, rest, hsources, hcompile, rfl⟩, ho⟩
  · refine (hrooted.starts hcompile ?_ fun o => Iff.rfl).reached closed_history hbegins
    intro n t m hbegins
    exact ⟨c, _, ⟨before, source, rest, hsources, hcompile, rfl⟩, hbegins⟩

end Session

end Lox
