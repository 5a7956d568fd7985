import Lox.Proofs.Matching.Bare
import Lox.Proofs.Matching.Compiling
import Lox.Proofs.Matching.Stores
import Lox.Proofs.Scope.Session
import Lox.Proofs.Syntax.Complete
import Lox.Proofs.Token.Joining
import Mathlib.Data.List.Nodup

/-!
# Compiling texts behind one another

If two texts compile, so does the text with one behind the other and a line feed between
them.  Its program consists of the statements of both, at other places and with other
numbers, and each name has the distance that it has in its own text (`compile_joined`).

**Numbers.** The numbers of the two programs, in the order of the trees, correspond to those
of the whole one.
-/

namespace Lox

/-! ## Reading -/

/-- The same words are matching tokens, wherever they stand. -/
theorem matches_of_map_word {tokens tokens' : List Token}
    (h : tokens'.map Token.word = tokens.map Token.word) :
    List.Forall₂ (Token.Matches .loose) tokens tokens' := by
  rw [← List.forall₂_eq_eq_eq, List.forall₂_map_left_iff, List.forall₂_map_right_iff] at h
  refine h.flip.imp fun t t' hword => ?_
  simp only [Token.word, Prod.mk.injEq] at hword
  obtain ⟨hkind, hlexeme, hliteral⟩ := hword
  exact ⟨hkind, hlexeme, hliteral, trivial⟩

/-- The words of a derived program are read as this program. -/
theorem Parsed.complete_words {tokens whole : List Token} {tree : Program}
    (h : Grammar.Derives tokens tree) (hwhole : whole.map Token.word = tokens.map Token.word)
    (supply : Supply) :
    (ofTokens supply whole).errors = [] ∧ (ofTokens supply whole).program.bare = tree := by
  obtain ⟨hnone, hbare⟩ := Parsed.complete h supply
  have hne : tokens ≠ [] := by
    obtain ⟨-, -⟩ := h
    simp
  have hsupply : supply.Matches .loose supply := ⟨fun _ => trivial, fun _ => trivial⟩
  obtain ⟨hprogram, hmatches, -⟩ := Parsed.ofTokens_matches (fun _ _ _ _ _ _ => trivial) hsupply
    (matches_of_map_word hwhole) hne
  constructor
  · rw [hnone] at hmatches
    exact List.forall₂_nil_left_iff.1 hmatches
  · rw [← hbare]
    exact congrArg Program.mk hprogram.bareAll_eq

theorem Grammar.Items.append {ts us : List Token} {ss ss' : List Stmt} (h : Items ts ss)
    (h' : Items us ss') : Items (ts ++ us) (ss ++ ss') := by
  induction ss generalizing ts with
  | nil =>
    cases h
    exact h'
  | cons s ss ih =>
    cases h with
    | cons hfirst hothers =>
      rw [List.append_assoc]
      exact .cons hfirst (ih hothers)

/-- The tokens of one program before those of another one make up a program. -/
theorem Grammar.Derives.append {tokens tokens' : List Token} {p p' : Program}
    (h : Derives tokens p) (h' : Derives tokens' p') :
    Derives (tokens.dropLast ++ tokens') ⟨p.statements ++ p'.statements⟩ := by
  obtain ⟨hitems, -⟩ := h
  obtain ⟨hitems', hlast⟩ := h'
  rw [List.dropLast_concat, ← List.append_assoc]
  exact .mk (hitems.append hitems') hlast

/-- The words of two programs without errors are read as the statements of both. -/
theorem Parsed.ofTokens_joined {supply supply' : Supply} {tokens tokens' whole : List Token}
    (htokens : EndsOnce tokens) (herrors : (ofTokens supply tokens).errors = [])
    (htokens' : EndsOnce tokens') (herrors' : (ofTokens supply' tokens').errors = [])
    (hwhole : whole.map Token.word = (tokens.dropLast ++ tokens').map Token.word)
    (supply'' : Supply) :
    (ofTokens supply'' whole).errors = [] ∧
      Stmt.bareAll (ofTokens supply'' whole).program.statements =
        Stmt.bareAll (ofTokens supply tokens).program.statements ++
          Stmt.bareAll (ofTokens supply' tokens').program.statements := by
  have hderives := (Parsed.derives htokens herrors).append (Parsed.derives htokens' herrors')
  obtain ⟨hnone, hbare⟩ := Parsed.complete_words hderives hwhole supply''
  exact ⟨hnone, congrArg Program.statements hbare⟩

/-! ## Numbers in order -/

/-- Numbers of two programs correspond if they stand at the same place in the order of the
trees, and all places do. -/
def Matching.aligned (ss ss' : List Stmt) : Matching where
  node i i' := (i, i') ∈ (Stmt.idsAll ss).zip (Stmt.idsAll ss')
  function i i' := (i, i') ∈ (Stmt.functionIdsAll ss).zip (Stmt.functionIdsAll ss')
  span _ _ := True

/-- Numbers of two lists correspond one to one if no number stands twice in either. -/
theorem eq_iff_of_mem_zip {is is' : List Nat} (his : is.Nodup) (his' : is'.Nodup)
    {i i' j j' : Nat} (hi : (i, i') ∈ is.zip is') (hj : (j, j') ∈ is.zip is') :
    i' = j' ↔ i = j := by
  obtain ⟨k, hk, heq⟩ := List.mem_iff_getElem.1 hi
  obtain ⟨l, hl, heq'⟩ := List.mem_iff_getElem.1 hj
  rw [List.getElem_zip, Prod.mk.injEq] at heq heq'
  obtain ⟨rfl, rfl⟩ := heq
  obtain ⟨rfl, rfl⟩ := heq'
  rw [List.Nodup.getElem_inj_iff his, List.Nodup.getElem_inj_iff his']

/-- Programs with the same bare tree match number by number. -/
theorem Stmt.matchesAll_aligned {ss ss' : List Stmt} (h : Stmt.bareAll ss = Stmt.bareAll ss') :
    Stmt.MatchesAll (.aligned ss ss') ss ss' := by
  have hlength := Stmt.length_numbersAll_bare ss
  rw [h] at hlength
  obtain ⟨hnodes, hfunctions⟩ := Stmt.length_numbersAll_bare ss'
  exact Stmt.matchesAll_of_bare (fun _ _ => trivial) ss ss' h
    (List.forall₂_iff_zip.2 ⟨hlength.1.symm.trans hnodes, fun hmem => hmem⟩)
    (List.forall₂_iff_zip.2 ⟨hlength.2.symm.trans hfunctions, fun hmem => hmem⟩)

theorem Stmt.numbersAll_append (k : Numbered) (ss ss' : List Stmt) :
    Stmt.numbersAll k (ss ++ ss') = Stmt.numbersAll k ss ++ Stmt.numbersAll k ss' := by
  cases k with
  | expression =>
    show Stmt.idsAll (ss ++ ss') = Stmt.idsAll ss ++ Stmt.idsAll ss'
    induction ss with
    | nil => rfl
    | cons s ss ih => rw [List.cons_append, Stmt.idsAll, Stmt.idsAll, ih, List.append_assoc]
  | function =>
    show Stmt.functionIdsAll (ss ++ ss') = Stmt.functionIdsAll ss ++ Stmt.functionIdsAll ss'
    induction ss with
    | nil => rfl
    | cons s ss ih =>
      rw [List.cons_append, Stmt.functionIdsAll, Stmt.functionIdsAll, ih, List.append_assoc]

/-! ## Compiling -/

/-- The program consists of the statements of two others, one behind the other, and a name
has the distance that it has in its own program. -/
structure Compiled.Joins (c c' both : Compiled) : Prop where
  /-- The statements are those of both. -/
  statements : both.program.statements = c.program.statements ++ c'.program.statements
  /-- So are the distances. -/
  locals : ∀ i : Nat, both.locals[i]? = c'.locals[i]?.or c.locals[i]?
  /-- The second program does not give distances to names of the first one. -/
  apart : ∀ i ∈ c.program.ids, c'.locals[i]? = none

section

variable {supply : Supply} {source source' : String} {c c' : Compiled}

/-- Programs that are compiled one after the other can be put together. -/
theorem exists_joins (h : (compile supply source).result = .ok c)
    (h' : (compile (compile supply source).supply source').result = .ok c') :
    ∃ both : Compiled, c.Joins c' both ∧ both.program.resolve = .ok both.locals := by
  obtain ⟨-, -, -, -, -, hresolve⟩ := compile_eq_ok h
  obtain ⟨-, -, -, -, -, hresolve'⟩ := compile_eq_ok h'
  obtain ⟨-, -, hnone⟩ := addressed_of_compile h
  obtain ⟨-, -, hnone'⟩ := addressed_of_compile h'
  have hnew : ∀ i ∈ Stmt.idsAll c'.program.statements, c.locals[i]? = none := fun i hi =>
    hnone i (.inr (number_mem_range_of_compile (k := .expression) h' hi).1)
  obtain ⟨locals, hboth, hlocals⟩ := Program.resolve_append hresolve hresolve' hnew
  refine ⟨⟨⟨c.program.statements ++ c'.program.statements⟩, locals⟩, ⟨rfl, hlocals, ?_⟩, hboth⟩
  exact fun i hi => hnone' i (.inl (number_mem_range_of_compile (k := .expression) h hi).2)

/-- No two expressions, and no two functions, of the two programs have the same number. -/
theorem Compiled.Joins.nodup_numbers {both : Compiled} (hjoins : c.Joins c' both)
    (h : (compile supply source).result = .ok c)
    (h' : (compile (compile supply source).supply source').result = .ok c') (k : Numbered) :
    (both.program.numbers k).Nodup := by
  rw [Program.numbers, hjoins.statements, Stmt.numbersAll_append, List.nodup_append]
  refine ⟨nodup_numbers_of_compile k h, nodup_numbers_of_compile k h', ?_⟩
  intro i hi j hj
  have hlt := (number_mem_range_of_compile h hi).2
  have hle := (number_mem_range_of_compile h' hj).1
  omega

/-- Two texts that compile do so one behind the other.  The program matches both of theirs,
one behind the other, number by number. -/
theorem compile_joined (h : (compile supply source).result = .ok c)
    (h' : (compile (compile supply source).supply source').result = .ok c')
    (hfirst : ¬ ['#', '!'] <+: source'.toList) (supply' : Supply) :
    ∃ both whole : Compiled, ∃ μ : Matching, c.Joins c' both ∧
      (compile supply' (source ++ "\n" ++ source')).result = .ok whole ∧
      μ.IsOneToOne ∧ μ.IsInjective ∧ both.Matches μ whole := by
  obtain ⟨both, hjoins, hresolve⟩ := exists_joins h h'
  obtain ⟨tokens, hscan, hprogram, herrors, -⟩ := compile_eq_ok h
  obtain ⟨tokens', hscan', hprogram', herrors', -⟩ := compile_eq_ok h'
  obtain ⟨words, hwords, hmap⟩ := scan_joined hscan hscan' hfirst
  obtain ⟨hnone, hbare⟩ := Parsed.ofTokens_joined (endsOnce_of_scan hscan) herrors
    (endsOnce_of_scan hscan') herrors' hmap supply'
  have hnodup (k : Numbered) := Parsed.nodup_numbers k supply' words
  have hcompile : (compile supply' (source ++ "\n" ++ source')).result =
      (Parsed.ofTokens supply' words).compile := by
    rw [compile, hwords]
  generalize Parsed.ofTokens supply' words = parsed at hnone hbare hnodup hcompile
  rw [← hprogram, ← hprogram', ← Stmt.bareAll_append, ← hjoins.statements] at hbare
  let μ := Matching.aligned both.program.statements parsed.program.statements
  have hone : μ.IsOneToOne := fun _ _ _ _ =>
    eq_iff_of_mem_zip (hjoins.nodup_numbers h h' .expression) (hnodup .expression)
  have hinjective : μ.IsInjective := fun _ _ _ _ =>
    eq_iff_of_mem_zip (hjoins.nodup_numbers h h' .function) (hnodup .function)
  have hmatches := Stmt.matchesAll_aligned hbare.symm
  have hresolved := Program.resolved hone hmatches
  rw [hresolve] at hresolved
  rw [hcompile, Parsed.compile, hnone]
  generalize parsed.program.resolve = r at hresolved
  cases hresolved with
  | @ok _ locals' hlocals =>
    exact ⟨both, ⟨parsed.program, locals'⟩, μ, hjoins, rfl, hone, hinjective, hmatches, hlocals⟩

end

end Lox
