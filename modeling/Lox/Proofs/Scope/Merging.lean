import Lox.Proofs.Matching.Shift
import Lox.Proofs.Scope.Session
import Lox.Proofs.Syntax.Rising
import Mathlib.Data.List.Pairwise

/-!
# Distances of many programs on one machine

Texts that are compiled one after another get numbers of their own, whether or not they compile.
Their programs can therefore be run on one machine in any order, and more than once: the machine
keeps the distances of all of them in one table, and no entry ever changes
(`numbers_identify`).

**The table.** After some programs were run, the table holds for each of their numbers what the
program itself notes for it, and nothing for any other number (`locals_runAll`).
-/

namespace Lox

open Run

/-! ## Numbers of texts compiled one after another -/

/-- The programs of the texts that compile.  Each text takes its numbers from what the texts
before it have left. -/
def compileAll (supply : Supply) : List String → List Compiled
  | [] => []
  | source :: sources =>
    let compilation := compile supply source
    match compilation.result with
    | .ok c => c :: compileAll compilation.supply sources
    | .error _ => compileAll compilation.supply sources

/-- Distances are noted for numbers of the program only. -/
theorem mem_ids_of_locals {supply : Supply} {source : String} {c : Compiled} {id : Nat}
    (h : (compile supply source).result = .ok c) (hid : c.locals[id]? ≠ none) :
    id ∈ c.program.ids := by
  obtain ⟨tokens, -, -, -, -, hresolve⟩ := compile_eq_ok h
  by_contra hmem
  rw [← c.program.map_id_occurrences] at hmem
  rw [(Program.resolve_eq_ok hresolve).1, getElem?_foldl_addTo_of_not_mem hmem] at hid
  exact hid Std.TreeMap.getElem?_emptyc

section

variable {supply : Supply} {sources : List String} {c c' : Compiled}

theorem exists_of_mem_compileAll (h : c ∈ compileAll supply sources) :
    ∃ supply' source, supply.node ≤ supply'.node ∧ (compile supply' source).result = .ok c := by
  induction sources generalizing supply with
  | nil => cases h
  | cons source sources ih =>
    have hlater : c ∈ compileAll (compile supply source).supply sources →
        ∃ supply' source, supply.node ≤ supply'.node ∧
          (compile supply' source).result = .ok c := by
      intro h
      obtain ⟨supply', source', hle, hcompile⟩ := ih h
      exact ⟨supply', source', Nat.le_trans (supply_le_compile .expression supply source) hle,
        hcompile⟩
    rw [compileAll] at h
    split at h
    · next c₁ hcompile =>
      rcases List.mem_cons.1 h with rfl | h
      · exact ⟨supply, source, Nat.le_refl _, hcompile⟩
      · exact hlater h
    · exact hlater h

/-- No number is in two of the programs. -/
theorem pairwise_disjoint_compileAll (supply : Supply) (sources : List String) :
    (compileAll supply sources).Pairwise fun c c' => c.program.ids.Disjoint c'.program.ids := by
  induction sources generalizing supply with
  | nil => exact .nil
  | cons source sources ih =>
    rw [compileAll]
    split
    · next c hcompile =>
      refine .cons (fun c' hc' id hid hid' => ?_) (ih _)
      obtain ⟨supply', source', hle, hcompile'⟩ := exists_of_mem_compileAll hc'
      have hlt := (number_mem_range_of_compile (k := .expression) hcompile hid).2
      have hge := (number_mem_range_of_compile (k := .expression) hcompile' hid').1
      exact Nat.not_lt.2 (Nat.le_trans hle hge) hlt
    · exact ih _

/-- A number tells the program that it is in. -/
theorem eq_of_mem_ids (hc : c ∈ compileAll supply sources) (hc' : c' ∈ compileAll supply sources)
    {id : Nat} (hid : id ∈ c.program.ids) (hid' : id ∈ c'.program.ids) : c = c' := by
  by_contra hne
  have : Std.Symm fun c c' : Compiled => c.program.ids.Disjoint c'.program.ids :=
    ⟨fun _ _ h _ hid hid' => h hid' hid⟩
  exact (pairwise_disjoint_compileAll supply sources).forall hc hc' hne hid hid'

theorem mem_ids_of_mem_compileAll (hc : c ∈ compileAll supply sources) {id : Nat}
    (hid : c.locals[id]? ≠ none) : id ∈ c.program.ids := by
  obtain ⟨supply', source, -, hcompile⟩ := exists_of_mem_compileAll hc
  exact mem_ids_of_locals hcompile hid

/-! ## The table of a machine -/

theorem runAll_concat (budget : Nat) (m : Machine) (cs : List Compiled) (c : Compiled) :
    m.runAll budget (cs ++ [c]) = (Session.runCompiled budget (m.runAll budget cs) c).2 := by
  simp [Machine.runAll]

theorem locals_runCompiled (budget : Nat) (m : Machine) (c : Compiled) :
    (Session.runCompiled budget m c).2.locals = (m.learn c.locals).locals := by
  rw [runCompiled_snd]
  exact (keeps_statements budget c.program.statements (m.learn c.locals)).locals

/-- The table holds what the programs that were run note for their own numbers. -/
structure Machine.Holds (cs : List Compiled) (m : Machine) : Prop where
  /-- The distances of each program are its own. -/
  own : ∀ c ∈ cs, ∀ id ∈ c.program.ids, m.locals[id]? = c.locals[id]?
  /-- Nothing is held for other numbers. -/
  other : ∀ id, (∀ c ∈ cs, id ∉ c.program.ids) → m.locals[id]? = none

theorem Machine.Holds.of_locals_eq {cs : List Compiled} {m m' : Machine} (h : m.Holds cs)
    (heq : m'.locals = m.locals) : m'.Holds cs :=
  ⟨fun c hc id hid => heq ▸ h.own c hc id hid, fun id hid => heq ▸ h.other id hid⟩

/-- One more program of the same texts, or one of them again, only adds to the table. -/
theorem Machine.Holds.learn {cs : List Compiled} {m : Machine} (h : m.Holds cs)
    (hcs : ∀ c' ∈ cs ++ [c], c' ∈ compileAll supply sources) :
    (m.learn c.locals).Holds (cs ++ [c]) := by
  have hc : c ∈ compileAll supply sources := hcs c (by simp)
  constructor
  · intro c' hc' id hid
    rw [getElem?_learn]
    by_cases hid' : id ∈ c.program.ids
    · obtain rfl := eq_of_mem_ids (hcs c' hc') hc hid hid'
      cases hlocal : c'.locals[id]? with
      | some distance => rfl
      | none =>
        rw [Option.none_or]
        by_cases hold : c' ∈ cs
        · rw [h.own c' hold id hid, hlocal]
        · refine h.other id fun c₁ hc₁ hid₁ => hold ?_
          rwa [eq_of_mem_ids (hcs c' hc') (hcs c₁ (List.mem_append_left _ hc₁)) hid hid₁]
    · have hnone : c.locals[id]? = none := by
        by_contra hsome
        exact hid' (mem_ids_of_mem_compileAll hc hsome)
      have hold : c' ∈ cs := by
        rcases List.mem_append.1 hc' with hold | hlast
        · exact hold
        · rw [List.mem_singleton.1 hlast] at hid
          exact absurd hid hid'
      rw [hnone, Option.none_or, h.own c' hold id hid]
  · intro id hid
    have hnone : c.locals[id]? = none := by
      by_contra hsome
      exact hid c (by simp) (mem_ids_of_mem_compileAll hc hsome)
    rw [getElem?_learn, hnone, Option.none_or]
    exact h.other id fun c' hc' => hid c' (List.mem_append_left _ hc')

theorem locals_runAll (limit : Nat) (output : Output) (budget : Nat) {cs : List Compiled}
    (hcs : ∀ c ∈ cs, c ∈ compileAll supply sources) :
    ((Machine.initial limit output).runAll budget cs).Holds cs := by
  induction cs using List.reverseRecOn with
  | nil => exact ⟨by simp, fun _ _ => Std.TreeMap.getElem?_emptyc⟩
  | append_singleton cs c ih =>
    rw [runAll_concat]
    have hold := ih fun c' hc' => hcs c' (List.mem_append_left _ hc')
    exact (hold.learn hcs).of_locals_eq (locals_runCompiled _ _ _)

/-! ## Moments of a program -/

theorem Entry.locals {t t' : Task} {m m' : Machine} (h : Entry t m t' m') :
    m'.locals = m.locals := by
  cases h with
  | after hsteady _ => exact hsteady.locals
  | _ => rfl

/-- While a program runs, the table stays as it was when the program began. -/
theorem Compiled.Begins.locals {budget n : Nat} {m m' : Machine} {t : Task}
    (h : c.Begins budget m n t m') : m'.locals = (m.learn c.locals).locals := by
  obtain ⟨before, s, rest, m₁, -, hbefore, hreach⟩ := h
  induction hreach with
  | refl => exact ((keeps_statements budget before).of_ok hbefore).locals
  | step _ henter ih => exact henter.entry.locals.trans ih

/-! ## Sessions -/

/-- A session runs the programs of its texts in order. -/
theorem Session.machine_afterAll (budget : Nat) (session : Session) (sources : List String) :
    (session.afterAll budget sources).machine =
      session.machine.runAll budget (compileAll session.supply sources) := by
  induction sources generalizing session with
  | nil => rfl
  | cons source sources ih =>
    rw [afterAll, List.foldl_cons]
    refine (ih _).trans ?_
    cases hcompile : (compile session.supply source).result with
    | error errors =>
      rw [step_of_error hcompile, compileAll]
      simp only [hcompile]
    | ok c =>
      rw [step_of_ok hcompile, compileAll]
      simp only [hcompile]
      rfl

/-- **Numbers identify expressions.**  Reading gives every expression a number of its own, above
those in its operands, and does not look at the number that it begins with.  Hence, when programs of
texts compiled one after another are run on one machine in any order, what is learnt with one more
program changes no entry of the table, and at every moment the table holds for each expression of
the programs run so far what its own program notes. -/
theorem numbers_identify (supply : Supply) (limit : Nat) (output : Output) (budget : Nat)
    (sources : List String) (before : List Compiled) (c : Compiled)
    (hcompiled : ∀ c' ∈ before ++ [c], c' ∈ compileAll supply sources) :
    (∀ (start : Supply) (tokens : List Token),
      let parsed := Parsed.ofTokens start tokens
      parsed.program.ids.Nodup ∧
        (∀ i ∈ parsed.program.ids, start.node ≤ i ∧ i < parsed.supply.node) ∧
        (∀ o ∈ parsed.program.occurrences, ∀ operand ∈ o.expr.operands, ∀ i ∈ operand.ids, i < o.id) ∧
        ∀ d, Parsed.ofTokens (start.shift d) tokens = parsed.shift d) ∧
    let m := (Machine.initial limit output).runAll budget before
    (∀ (id distance : Nat), m.locals[id]? = some distance →
      (m.learn c.locals).locals[id]? = some distance) ∧
    (c ∉ before → ∀ id : Nat, c.locals[id]? ≠ none → m.locals[id]? = none) ∧
    ∀ n t m', c.Begins budget m n t m' → ∀ c' ∈ before ++ [c], ∀ id ∈ c'.program.ids,
      m'.locals[id]? = c'.locals[id]? := by
  have hbefore := fun c' hc' => hcompiled c' (List.mem_append_left _ hc')
  have hc := hcompiled c (List.mem_append_right _ (List.mem_singleton_self c))
  have hold := locals_runAll limit output budget hbefore
  have hnew := hold.learn hcompiled
  refine ⟨fun start tokens => ⟨Parsed.nodup_ids start tokens, fun i hi => Parsed.id_mem_range hi,
    fun o ho => Parsed.isAboveOperands ho, Parsed.ofTokens_shift start tokens⟩, ?_, ?_, ?_⟩
  · intro id distance hid
    obtain ⟨c', hc', hmem⟩ : ∃ c' ∈ before, id ∈ c'.program.ids := by
      by_contra hnone
      rw [hold.other id fun c' hc' hmem => hnone ⟨c', hc', hmem⟩] at hid
      cases hid
    rw [hnew.own c' (List.mem_append_left _ hc') id hmem, ← hold.own c' hc' id hmem, hid]
  · intro hfresh id hid
    have hmem := mem_ids_of_mem_compileAll hc hid
    exact hold.other id fun c' hc' hmem' =>
      hfresh (eq_of_mem_ids (hbefore c' hc') hc hmem' hmem ▸ hc')
  · intro n t m' hbegins
    exact (hnew.of_locals_eq hbegins.locals).own

/-- The second of three texts does not compile, and the third one has a local name. -/
theorem numbers_identify_block :
    let sources := ["fun f(x) \x7b return x; \x7d", "print 1 +;", "\x7b var a = f; print a; \x7d"]
    ∃ c c', compileAll .initial sources = [c, c'] ∧ c' ∉ [c] ∧
      (∃ id ∈ c'.program.ids, c'.locals[id]? = some 0) ∧
      let m := (Machine.initial 9 .capturing).runAll 20 [c]
      (∀ id : Nat, c'.locals[id]? ≠ none → m.locals[id]? = none) ∧
      ∀ n t m', c'.Begins 20 m n t m' → ∀ id ∈ c.program.ids,
        m'.locals[id]? = c.locals[id]? := by
  intro sources
  have hids : (compileAll .initial sources).map (fun c => c.program.ids) = [[0], [2, 3]] := by
    decide +kernel
  have hlocals : (compileAll .initial sources).map (fun c => c.locals[3]?) = [none, some 0] := by
    decide +kernel
  obtain ⟨c, others, hall, hc, hothers⟩ := List.map_eq_cons_iff.1 hids
  obtain ⟨c', rfl, hc'⟩ := List.map_eq_singleton_iff.1 hothers
  rw [hall] at hlocals
  have hne : c' ∉ [c] := by
    intro hmem
    rw [List.mem_singleton.1 hmem, hc] at hc'
    cases hc'
  obtain ⟨-, -, hfresh, hkept⟩ := numbers_identify .initial 9 .capturing 20 sources [c] c'
    (by simp [hall])
  refine ⟨c, c', hall, hne, ⟨3, by simp [hc'], by simpa using (List.cons.inj hlocals).2⟩,
    hfresh hne, fun n t m' hbegins => hkept n t m' hbegins c (by simp)⟩

end

end Lox
