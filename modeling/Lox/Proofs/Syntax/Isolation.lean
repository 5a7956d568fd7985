import Lox.Proofs.Matching.Reading
import Lox.Proofs.Syntax.Boundary
import Lox.Proofs.Syntax.Locality
import Lox.Proofs.Syntax.Malformed
import Lox.Proofs.Syntax.ProgressStatement
import Lox.Proofs.Syntax.Resuming

/-!
# Malformed statements are isolated

A malformed statement between two statements, at any depth, is skipped: the statements around it
are read as without it, and all errors are at its tokens (`malformed_isolated`).

**The error.** A declaration that fails when it is read by itself fails in the same way in front
of other tokens, since it never gets to the end of the malformed statement
(`Malformed.declaration_eq_error`).

**Going on.** Behind the token that the error is at, everything up to the semicolon is skipped,
because nothing there is a boundary (`Skippable.synchronize`).
-/

namespace Lox

namespace Parse

open Grammar

/-! ## Skipping the rest of a statement -/

/-- From a token of a skippable statement on, the rest of it is skipped. -/
theorem Skippable.synchronize {faulty before after us : List Token} {t : Token} {p : Parser}
    (h : Skippable faulty) (hcut : faulty = before ++ t :: after)
    (hp : p.rest = t :: after ++ us) (hus : us ≠ []) :
    ∃ q, Parse.synchronize p = .ok () q ∧ q.rest = us ∧ q.errors = p.errors := by
  have hlive : ∀ t' ∈ t :: after, t'.kind ≠ .eof := fun t' ht' =>
    h.live t' (hcut ▸ List.mem_append_right before ht')
  obtain ⟨next, vs, hnext⟩ : ∃ next vs, after ++ us = next :: vs :=
    List.exists_cons_of_ne_nil (by simp [hus])
  have hp' : p.rest = t :: next :: vs := by rw [hp, List.cons_append, hnext]
  obtain ⟨q, hrun, hrest, herrors⟩ := synchronize_rest hp' (hlive t List.mem_cons_self)
  refine ⟨q, hrun, hrest.trans ?_, herrors⟩
  rw [← hnext]
  rcases h.cases_cut hcut with ⟨hkind, rfl⟩ | ⟨hkind, body, semicolon, rfl, hsemicolon, hothers⟩
  · exact resume_of_semicolon hkind us
  · have hskip : ∀ t' ∈ body, isSkipped t'.kind = true := by
      intro t' ht'
      refine isSkipped_iff.2 ⟨hothers t' ht', hlive t' (by simp [ht']), h.others t' ?_⟩
      rw [hcut]
      exact mem_tail (by simp [ht'])
    rw [List.append_assoc, List.singleton_append]
    exact resume_skips hkind hskip hsemicolon hus

/-! ## The error -/

/-- The budget makes no difference, if it is enough. -/
theorem Malformed.fails_with {faulty : List Token} {n : Nat} (h : Malformed faulty)
    (hn : 20 * faulty.length + 18 ≤ n) :
    ∃ last e p, last.kind = .eof ∧
      declaration n (Parser.start .initial (faulty ++ [last])) = .error e p := by
  obtain ⟨last, e, p, hlast, hfails⟩ := h.fails
  have hclosed : Closed (faulty ++ [last]) := ⟨faulty, last, rfl, hlast⟩
  have hne : faulty ++ [last] ≠ [] := by simp
  have hstart := Parser.standsAt_start .initial hne
  have hleft := hstart.length_eq
  rw [List.length_append, List.length_singleton] at hleft
  have hzero : ∀ r p, ¬ (progress (faulty ++ [last])).ready 0 r p :=
    fun r p h => Nat.not_lt_zero _ h.2.2
  have hready : (progress (faulty ++ [last])).ready (20 * faulty.length + 18) .declaration
      (Parser.start .initial (faulty ++ [last])) := by
    refine ⟨⟨0, hstart⟩, False.elim, ?_⟩
    simp only [Rule.rank]
    omega
  have hrun {m : Nat} (hm : 20 * faulty.length + 18 ≤ m) :
      declaration m (Parser.start .initial (faulty ++ [last])) =
        declaration (20 * faulty.length + 18) (Parser.start .initial (faulty ++ [last])) :=
    (Reading.progress_kept hclosed).run_eq (r := .declaration) hzero hready hm
  have hbudget : 20 * faulty.length + 18 ≤ budget (faulty ++ [last]) := by
    simp only [budget, List.length_append, List.length_singleton]
    omega
  exact ⟨last, e, p, hlast, by rw [hrun hn, ← hrun hbudget, hfails]⟩

/-- Neither numbers nor what was read before make a difference, nor does what follows. -/
theorem Malformed.fails_anywhere {faulty : List Token} {n : Nat} (h : Malformed faulty)
    (hlive : ∀ t ∈ faulty, t.kind ≠ .eof) (hn : 20 * faulty.length + 18 ≤ n) :
    ∃ last, ∀ p : Parser, p.rest = faulty ++ [last] → p.errors = #[] →
      ∃ e q, Halts faulty last e q ∧ ∀ us es,
        declaration n (p.replaceLast us es) = .error e (q.replaceLast us es) := by
  obtain ⟨last, e₀, q₀, hlast, hfails⟩ := h.fails_with hn
  have hkept := Reading.within_kept ⟨h.toStatementLike, hlive⟩ hlast
  refine ⟨last, fun p hp hnone => ?_⟩
  obtain ⟨first, others, rfl⟩ := h.exists_cons
  obtain ⟨hcurrent, hlater⟩ := List.cons.inj hp
  have hsame : ∀ t : Token, t.Matches .loose t := fun t => ⟨rfl, rfl, rfl, trivial⟩
  have hmatches : (Parser.start .initial (first :: others ++ [last])).Matches .loose p := by
    refine ⟨trivial, ?_, ?_, ⟨fun _ => trivial, fun _ => trivial⟩, ?_⟩
    · rw [hcurrent]
      exact hsame first
    · rw [hlater]
      exact List.forall₂_same.2 fun t _ => hsame t
    · rw [hnone]
      exact .nil
  have hready : (within (first :: others) last).ready n .declaration p := by
    refine ⟨⟨⟨[], first, others, rfl, hp⟩, ?_⟩, id, False.elim⟩
    simp [BlamesOnly, hnone]
  have hends := (stmtsAlike (fun _ _ _ _ _ _ => trivial) n).declaration _ _ hmatches
  rw [hfails] at hends
  cases hrun : declaration n p with
  | ok s q =>
    rw [hrun] at hends
    cases hends
  | error e q =>
    have hhalts := hkept.stops_of_error (r := .declaration) hready hrun
    refine ⟨e, q, hhalts, fun us es => ?_⟩
    have hleft : 0 < (endState (declaration n) p).left := by
      obtain ⟨before, t, after, -, hrest⟩ := hhalts.1.rest
      rw [endState_of_error hrun, Parser.left, (List.cons.inj hrest).2]
      simp
    have hreplaced : declaration n (p.replaceLast us es) =
        onState (Parser.replaceLast us es) (declaration n p) :=
      hkept.run_replaceLast (r := .declaration) (fun _ _ => id) hready hleft
    rw [hreplaced, hrun]
    rfl

/-- In front of any tokens, a malformed statement fails at one of its own. -/
theorem Malformed.declaration_eq_error {faulty us : List Token} {n : Nat} {p : Parser}
    (h : Malformed faulty) (hlive : ∀ t ∈ faulty, t.kind ≠ .eof)
    (hn : 20 * faulty.length + 18 ≤ n) (hp : p.rest = faulty ++ us) :
    ∃ fault q before t after es, declaration n p = .error (.parse fault t) q ∧
      faulty = before ++ t :: after ∧ q.rest = t :: after ++ us ∧
      q.errors.toList = p.errors.toList ++ es ∧ ∀ e ∈ es, ∃ fault, ∃ t ∈ faulty,
        e = .parse fault t := by
  obtain ⟨last, hfails⟩ := h.fails_anywhere hlive hn
  obtain ⟨first, others, rfl⟩ := h.exists_cons
  obtain ⟨hcurrent, hlater⟩ := List.cons.inj hp
  let alone : Parser := { p with later := others ++ [last], errors := #[] }
  have halone : alone.rest = first :: others ++ [last] := by
    rw [Parser.rest, hcurrent, List.cons_append]
  have hreplace : alone.replaceLast us p.errors = p := by
    rw [Parser.replaceLast, List.dropLast_concat, Array.append_empty, ← List.append_eq, ← hlater]
  obtain ⟨e, q, ⟨⟨⟨before, t, after, hcut, hrest⟩, hblames⟩, fault, rfl⟩, hrun⟩ :=
    hfails alone halone rfl
  obtain ⟨hat, hbehind⟩ := List.cons.inj hrest
  have hrun' := hrun us p.errors
  rw [hreplace, hat] at hrun'
  refine ⟨fault, q.replaceLast us p.errors, before, t, after, q.errors.toList, hrun', hcut, ?_, ?_,
    ?_⟩
  · simp [Parser.rest, Parser.replaceLast, hbehind, hat]
  · simp [Parser.replaceLast]
  · exact fun e he => hblames e (Array.mem_def.2 he)

/-! ## Insertion -/

/-- A malformed statement is skipped, and the error is noted. -/
theorem Malformed.skipped {faulty us : List Token} {n : Nat} {p : Parser} (h : Malformed faulty)
    (hlive : ∀ t ∈ faulty, t.kind ≠ .eof) (hn : 20 * faulty.length + 18 ≤ n)
    (hp : p.rest = faulty ++ us) (hus : us ≠ []) :
    ∃ q es, blockItems (n + 1) p = blockItems n q ∧ statements (n + 1) p = statements n q ∧
      q.rest = us ∧ q.errors.toList = p.errors.toList ++ es ∧ Blames faulty es := by
  obtain ⟨fault, q, before, t, after, es, hrun, hcut, hrest, herrors, hes⟩ :=
    h.declaration_eq_error hlive hn hp
  have hfaulty : Skippable faulty := ⟨h.toStatementLike, hlive⟩
  let noted : Parser := { q with errors := q.errors.push (.parse fault t) }
  obtain ⟨q', hskip, hrest', herrors'⟩ := hfaulty.synchronize hcut (p := noted) hrest hus
  have hmem : t ∈ faulty := by simp [hcut]
  have hlive : p.kind ≠ .eof ∧ p.kind ≠ .rightBrace := by
    obtain ⟨first, others, rfl⟩ := h.exists_cons
    rw [Parser.kind_eq hp]
    exact ⟨hlive first (by simp), (h.braceless first (by simp)).2⟩
  have hbrace : q.kind ≠ .rightBrace := by
    rw [Parser.kind_eq hrest]
    exact (h.braceless t hmem).2
  refine ⟨q', es ++ [.parse fault t], blockItems_of_error hlive hrun hbrace hskip,
    statements_of_error hlive.1 hrun hskip, hrest', ?_, ?_, ?_⟩
  · rw [herrors', Array.toList_push, herrors, List.append_assoc]
  · intro e he
    rcases List.mem_append.1 he with he | he
    · exact hes e he
    · exact ⟨fault, t, hmem, List.mem_singleton.1 he⟩
  · simp

theorem Malformed.insertable {faulty : List Token} (h : Malformed faulty)
    (hlive : ∀ t ∈ faulty, t.kind ≠ .eof) : Insertable faulty faulty := by
  constructor
  · rintro ⟨t, ts, rfl, ht⟩
    exact (h.first t ts rfl).1 ht
  · intro ts ss hitems n p us hn hp
    rw [List.append_assoc] at hp
    rw [List.length_append] at hn
    have hpos : 0 < faulty.length := by
      obtain ⟨first, others, rfl⟩ := h.exists_cons
      simp
    obtain ⟨m, rfl⟩ : ∃ m, n = m + 1 := ⟨n - 1, by omega⟩
    have hskip (hus : us ≠ []) := h.skipped (n := m) hlive (by omega) hp (by simp [hus])
    constructor
    · intro hat
      obtain ⟨q, es, hblock, -, hrest, herrors, hes⟩ := hskip hat.ne_nil
      have hgo := (accepted_of_items hitems m q us (by omega) hrest).1 hat
      simpa using Answers.of_noted hblock herrors hes hgo
    · intro hat
      obtain ⟨q, es, -, hprogram, hrest, herrors, hes⟩ := hskip hat.ne_nil
      have hgo := (accepted_of_items hitems m q us (by omega) hrest).2 hat
      simpa using Answers.of_noted hprogram herrors hes hgo

end Parse

open Parse Grammar

/-- A malformed statement at a boundary of a program is skipped: the program is read as without
it, there are errors, and all of them are at its tokens. -/
theorem malformed_isolated {before after faulty : List Token} {last : Token}
    {statements : List Stmt} (haround : ItemsAround before after statements)
    (hfaulty : Malformed faulty) (htokens : EndsOnce (before ++ faulty ++ after ++ [last]))
    (supply : Supply) :
    let whole := Parsed.ofTokens supply (before ++ after ++ [last])
    let parsed := Parsed.ofTokens supply (before ++ faulty ++ after ++ [last])
    whole.errors = [] ∧ parsed.program.bare = whole.program.bare ∧
      parsed.errors ≠ [] ∧ ∀ e ∈ parsed.errors, ∃ fault, ∃ t ∈ faulty, e = .parse fault t := by
  intro whole parsed
  obtain ⟨ts, stop, hts, hlast, hothers⟩ := htokens
  obtain ⟨rfl, hstop⟩ := List.append_inj' hts rfl
  obtain rfl : last = stop := List.singleton_inj.1 hstop
  have hlive : ∀ t ∈ faulty, t.kind ≠ .eof := fun t ht => hothers t (by simp [ht])
  have hnothing : Insertable [] [] := ⟨by simp [At], fun ts ss h => accepted_of_items h⟩
  have hwhole := accepted_of_itemsAround hnothing haround
  rw [List.append_nil] at hwhole
  obtain ⟨hprogram, hnone⟩ := Parsed.of_accepted hwhole hlast supply
  obtain ⟨hprogram', herrors⟩ := Parsed.of_accepted
    (accepted_of_itemsAround (hfaulty.insertable hlive) haround) hlast supply
  refine ⟨hnone.eq_nil, hprogram'.trans hprogram.symm, herrors.ne_nil ?_, herrors.mem⟩
  obtain ⟨first, others, rfl⟩ := hfaulty.exists_cons
  simp

/-- At the end of a method body: in the text `class A { m() { print a; print (b; } }` the second
print statement is malformed, and the class is read as if it were not there. -/
theorem malformed_isolated_in_method :
    let token (kind : Token.Kind) (text : String) : Token := ⟨kind, text, none, .blank⟩
    let name (text : String) : Token := token .identifier text
    let before : List Token :=
      [token .class "class", name "A", token .leftBrace "\x7b", name "m", token .leftParen "(",
        token .rightParen ")", token .leftBrace "\x7b", token .print "print", name "a",
        token .semicolon ";"]
    let faulty : List Token :=
      [token .print "print", token .leftParen "(", name "b", token .semicolon ";"]
    let after : List Token := [token .rightBrace "\x7d", token .rightBrace "\x7d"]
    let last : Token := token .eof ""
    let method : FunctionDecl := .mk 0 "m" [] [.print (.variable .blank "a") .blank] .blank
    let parsed := Parsed.ofTokens .initial (before ++ faulty ++ after ++ [last])
    ItemsAround before after [.class "A" [method] .blank] ∧ Malformed faulty ∧
      EndsOnce (before ++ faulty ++ after ++ [last]) ∧
      parsed.program.bare
        = (Parsed.ofTokens .initial (before ++ after ++ [last])).program.bare ∧
      ∀ e ∈ parsed.errors, ∃ fault, ∃ t ∈ faulty, e = .parse fault t := by
  intro token name before faulty after last method parsed
  have hvalue : Reads .assignment [name "a"] (.variable .blank "a") := .of_name rfl
  have hprint : Declares (before.drop 7) (.print (.variable .blank "a") .blank) :=
    .statement (.print rfl hvalue rfl)
  have hmethod : DefinesAround (before.drop 3) (after.take 1) method :=
    .mk rfl rfl .none rfl rfl (.later hprint (.here .nil)) rfl
  have haround : ItemsAround before after [.class "A" [method] .blank] :=
    .inside (.class rfl rfl rfl (.first hmethod .nil) rfl) .nil
  have hfaulty : Malformed faulty :=
    { semicolon := ⟨faulty.take 3, token .semicolon ";", rfl, rfl, by decide⟩
      braceless := by decide
      first := by
        intro t ts hcons
        obtain ⟨rfl, -⟩ := List.cons.inj hcons
        decide
      others := by decide
      fails := ⟨last, _, _, rfl, rfl⟩ }
  have htokens : EndsOnce (before ++ faulty ++ after ++ [last]) :=
    ⟨before ++ faulty ++ after, last, rfl, rfl, by decide⟩
  obtain ⟨-, hprogram, -, herrors⟩ := malformed_isolated haround hfaulty htokens .initial
  exact ⟨haround, hfaulty, htokens, hprogram, herrors⟩

end Lox
