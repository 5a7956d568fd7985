import Lox.Proofs.Echo.Closing
import Lox.Proofs.Echo.Statements

/-!
# Echoed lines compile

What is run for a line that compiles does so as well, if there is a statement in the line
(`Echo.compile_wrap_iff`).  The first statement is printed then, and resolved as it is in the
line itself.  A line that is only a comment, or skipped as a whole, is taken for an expression,
and there is nothing to print.
-/

namespace Lox

open Piece Grammar

/-! ## Compiling the same tree -/

/-- Programs with the same bare tree are both resolved, if no number stands twice in them. -/
theorem Program.exists_resolve_of_bare {p p' : Program} {locals : Locals}
    (hbare : Stmt.bareAll p.statements = Stmt.bareAll p'.statements)
    (hnodup : (p.numbers .expression).Nodup) (hnodup' : (p'.numbers .expression).Nodup)
    (hresolve : p.resolve = .ok locals) : ∃ locals', p'.resolve = .ok locals' := by
  have hone : (Matching.aligned p.statements p'.statements).IsOneToOne := fun _ _ _ _ =>
    eq_iff_of_mem_zip hnodup hnodup'
  have hresolved := Program.resolved hone (Stmt.matchesAll_aligned hbare)
  rw [hresolve] at hresolved
  generalize p'.resolve = r at hresolved
  cases hresolved with
  | ok _ => exact ⟨_, rfl⟩

/-- A text that is read as a program that can be resolved compiles. -/
theorem exists_compile_of_bare {p : Program} {locals : Locals} {source : String}
    {tokens : List Token} {supply : Supply} (hresolve : p.resolve = .ok locals)
    (hnodup : (p.numbers .expression).Nodup) (hscan : scan source = .ok tokens)
    (hread : (Parsed.ofTokens supply tokens).errors = [] ∧
      (Parsed.ofTokens supply tokens).program.bare = p.bare) :
    ∃ c, (compile supply source).result = .ok c := by
  obtain ⟨hnone, hbare⟩ := hread
  have hnodup' := Parsed.nodup_numbers .expression supply tokens
  obtain ⟨locals', hresolve'⟩ := Program.exists_resolve_of_bare
    (congrArg Program.statements hbare.symm) hnodup hnodup' hresolve
  refine ⟨⟨(Parsed.ofTokens supply tokens).program, locals'⟩, ?_⟩
  simp [compile, hscan, Parsed.compile, hresolve', hnone]

/-- With `print` in front of its first statement, an expression, a program is resolved in the
same way. -/
theorem Program.resolve_printed {statements : List Stmt} {value : Expr} {others : List Stmt}
    (h : Stmt.bareAll statements = .expression value .blank :: others) :
    ∃ printed : Program, printed.bare = ⟨.print value .blank :: others⟩ ∧
      printed.resolve = Program.resolve ⟨statements⟩ ∧
      ∀ k, printed.numbers k = Program.numbers k ⟨statements⟩ := by
  cases statements with
  | nil => cases h
  | cons s ss =>
    obtain ⟨hs, rfl⟩ := List.cons.inj h
    cases s with
    | expression value' span =>
      cases hs
      exact ⟨⟨.print value' span :: ss⟩, rfl, rfl, fun k => by cases k <;> rfl⟩
    | ifElse _ _ otherwise _ => cases otherwise <;> cases hs
    | _ => cases hs

namespace Echo

variable {line : List Char} {pieces : List Piece} {ts : List Token}

/-! ## The wrapped line -/

/-- One semicolon at the end does not change the tokens of a line that is taken for an
expression. -/
theorem scanned_semicolon (h : Scanned line pieces ts) (hne : line ≠ [])
    (htrim : trim line = line) (hbrace : line.getLast? ≠ some '\x7d')
    (hterminated : ts ≠ [] → Terminated ts) :
    ∃ pieces', Scanned (dropSemicolon line ++ [';']) pieces' ts := by
  obtain ⟨-, hend⟩ := not_isBlank_of_trim htrim
  rw [dropSemicolon]
  split
  · next hlast =>
    rw [List.dropLast_append_getLast? _ hlast]
    exact ⟨pieces, h⟩
  · next hlast =>
    rcases h.last_piece hne hend with ⟨front, text, rfl⟩ | ⟨others, last, rfl, hcloses⟩
    · exact ⟨_, h.append_semicolon⟩
    · -- the last token ends a statement, and the line would end as it does
      exfalso
      rcases (hterminated (by simp)).kind List.getLast?_concat with hkind | hkind
      · exact hlast ((hcloses _ _ closes_semicolon).2 hkind)
      · exact hbrace ((hcloses _ _ closes_rightBrace).2 hkind)

/-- The word alone is no program. -/
theorem not_compile_print {source : String} {whole : List Token} (hscan : scan source = .ok whole)
    (hwhole : whole.map Token.word = [Token.printWord].map Token.word ++ [(.eof, "", none)])
    {supply : Supply} {c : Compiled} : (compile supply source).result ≠ .ok c := by
  intro h
  obtain ⟨tokens, hscan', -, herrors, -⟩ := compile_eq_ok h
  rw [hscan] at hscan'
  cases hscan'
  have hderives := Parsed.derives (endsOnce_of_scan hscan) herrors
  obtain ⟨word, others, rfl, hword, hothers⟩ := List.map_eq_cons_iff.1 hwhole
  obtain ⟨stop, rfl, -⟩ := List.map_eq_singleton_iff.1 hothers
  rw [show [word, stop] = [word] ++ [stop] from rfl] at hderives
  have hkind : word.kind = .print := congrArg Prod.fst hword
  rcases (hderives.items.terminated (by simp)).kind List.getLast?_singleton with hlast | hlast <;>
    rw [hlast] at hkind <;> cases hkind

/-- A line that is skipped as a whole is not scanned behind the word. -/
theorem not_compile_hash {text : List Char} {supply : Supply} {c : Compiled}
    (hsingle : '\n' ∉ text) (hhash : text.head? = some '#') :
    (compile supply (String.ofList ("print ".toList ++ text))).result ≠ .ok c := by
  intro h
  obtain ⟨tokens, hscan, -⟩ := compile_eq_ok h
  have hsingle' : '\n' ∉ "print ".toList ++ text := by
    rw [List.mem_append, not_or]
    exact ⟨by decide, hsingle⟩
  obtain ⟨ts, stop, -, -, ⟨-, hskipped⟩ | ⟨pieces, hscanned⟩⟩ := exists_scanned hsingle' hscan
  · obtain ⟨others, hothers⟩ := hskipped
    cases (List.cons.inj hothers).1
  · obtain ⟨others, rfl⟩ := List.head?_eq_some_iff.1 hhash
    have hsplits := splits_ofText ('#' :: others)
    obtain ⟨piece, hpiece, hbad⟩ := hsplits.exists_isBad_of_hash
    obtain ⟨behind, hprinted, hmarks⟩ := hsplits.printed
    have hmark : piece ∈ behind.filter isMark := by
      rw [hmarks]
      exact List.mem_filter.2 ⟨hpiece, by simp [isMark, hbad]⟩
    refine hscanned.not_isBad piece ?_ hbad
    rw [hscanned.splits.unique hprinted]
    exact List.mem_cons_of_mem _ (List.mem_of_mem_filter hmark)

/-- The value of the first expression of a line is printed. -/
theorem exists_compile_printed {p : Program} {locals : Locals} {first : Token}
    (hscanned : Scanned line pieces (first :: ts)) (hne : line ≠ []) (hsingle : '\n' ∉ line)
    (htrim : trim line = line) (hbare : isBareExpression line = true)
    (hitems : Items (first :: ts) p.bare.statements) (hresolve : p.resolve = .ok locals)
    (hnodup : (p.numbers .expression).Nodup) (supply : Supply) :
    ∃ c, (compile supply
      (String.ofList ("print ".toList ++ (dropSemicolon line ++ [';'])))).result = .ok c := by
  obtain ⟨hstart, -⟩ := not_isBlank_of_trim htrim
  obtain ⟨hbrace, hopening, hleft, -⟩ :=
    (hscanned.isBareExpression_iff hsingle hstart).1 hbare
  have hterminated := hitems.terminated (by simp)
  obtain ⟨pieces', hwrapped⟩ := scanned_semicolon hscanned hne htrim hbrace fun _ => hterminated
  have hword : Token.printWord.kind = .print := rfl
  obtain ⟨value, others, hstatements, hitems'⟩ := hitems.printed hopening hleft hword
  obtain ⟨printed, htree, hsame, hnumbers⟩ := Program.resolve_printed hstatements
  obtain ⟨behind, hbehind⟩ := hwrapped.printed
  obtain ⟨tokens, hscan, hread⟩ := hbehind.exists_read hitems'
  rw [← htree] at hread
  rw [← hnumbers] at hnodup
  exact exists_compile_of_bare (hsame.trans hresolve) hnodup hscan (hread supply)

/-- There is no value to print in a line without tokens. -/
theorem not_compile_wrapped (hline : ['#', '!'] <+: line ∨ ∃ pieces, Scanned line pieces [])
    (hne : line ≠ []) (hsingle : '\n' ∉ line) (htrim : trim line = line)
    (hbrace : line.getLast? ≠ some '\x7d') {supply : Supply} {c : Compiled} :
    (compile supply
      (String.ofList ("print ".toList ++ (dropSemicolon line ++ [';'])))).result ≠ .ok c := by
  rcases hline with ⟨others, rfl⟩ | ⟨pieces, hscanned⟩
  · have hdropped : '\n' ∉ dropSemicolon (['#', '!'] ++ others) := by
      rw [dropSemicolon]
      split
      · exact fun hmem => hsingle (List.mem_of_mem_dropLast hmem)
      · exact hsingle
    refine not_compile_hash ?_ ?_
    · rw [List.mem_append, not_or]
      exact ⟨hdropped, by decide⟩
    · rw [dropSemicolon]
      split <;> rfl
  · obtain ⟨pieces', hwrapped⟩ := scanned_semicolon hscanned hne htrim hbrace (absurd rfl)
    obtain ⟨behind, hbehind⟩ := hwrapped.printed
    obtain ⟨whole, hscan, hwhole⟩ := hbehind.scans
    exact not_compile_print hscan hwhole

/-- What is run for a line that compiles does so as well, unless the line is taken for an
expression and has no statement. -/
theorem compile_wrap_iff {supply supply' : Supply} {c : Compiled} (hne : line ≠ [])
    (hsingle : '\n' ∉ line) (htrim : trim line = line)
    (h : (compile supply (String.ofList line)).result = .ok c) :
    (∃ c', (compile supply' (String.ofList (wrap line))).result = .ok c') ↔
      (isBareExpression line = true → c.program.statements ≠ []) := by
  obtain ⟨tokens, hscan, hprogram, herrors, -, hresolve⟩ := compile_eq_ok h
  have hnodup := nodup_numbers_of_compile .expression h
  have hderives : Derives tokens c.program.bare :=
    hprogram ▸ Parsed.derives (endsOnce_of_scan hscan) herrors
  by_cases hbare : isBareExpression line = true
  · rw [wrap, if_pos hbare, List.append_assoc]
    have hbrace : line.getLast? ≠ some '\x7d' := by
      intro hlast
      simp [Echo.isBareExpression, hlast] at hbare
    obtain ⟨ts, stop, rfl, -, hcases⟩ := exists_scanned hsingle hscan
    have hitems := hderives.items
    have hstatements : c.program.statements = [] ↔ ts = [] := by
      rw [hitems.eq_nil_iff, Program.bare]
      cases c.program.statements <;> simp [Stmt.bareAll]
    cases ts with
    | nil =>
      refine iff_of_false ?_ fun hsome => hsome hbare (hstatements.2 rfl)
      rintro ⟨c', hc'⟩
      exact not_compile_wrapped (hcases.imp_left And.right) hne hsingle htrim hbrace hc'
    | cons first ts =>
      obtain ⟨hnil, -⟩ | ⟨pieces, hscanned⟩ := hcases
      · cases hnil
      · refine iff_of_true ?_ fun _ hnone => ?_
        · exact exists_compile_printed hscanned hne hsingle htrim hbare hitems hresolve hnodup
            supply'
        · cases hstatements.1 hnone
  · refine iff_of_true ?_ fun hbare' => absurd hbare' hbare
    rw [wrap, if_neg hbare]
    exact exists_compile_of_bare hresolve hnodup hscan
      (Parsed.complete_words hderives rfl supply')

/-- The comment takes the semicolon, and the call is printed. -/
theorem compile_wrap_iff_call :
    let line := "f(); // twice".toList
    ∃ c : Compiled, line ≠ [] ∧ '\n' ∉ line ∧ trim line = line ∧
      (compile .initial (String.ofList line)).result = .ok c ∧ c.program.statements ≠ [] ∧
      ∃ c', (compile .initial (String.ofList (wrap line))).result = .ok c' := by
  intro line
  have hread : (compile .initial (String.ofList line)).result.toOption.any
      fun c => !c.program.statements.isEmpty := by decide +kernel
  generalize hcompile : (compile .initial (String.ofList line)).result = answer at hread
  cases answer with
  | error errors => cases hread
  | ok c =>
    have hsome : c.program.statements ≠ [] := by
      intro hnone
      simp [Except.toOption, hnone] at hread
    have hsingle : '\n' ∉ line := by decide
    exact ⟨c, by decide, hsingle, rfl, rfl, hsome,
      (compile_wrap_iff (by decide) hsingle rfl hcompile).2 fun _ => hsome⟩

/-- A line that is only a comment compiles, but what is run for it does not. -/
theorem compile_wrap_only_comment :
    let line := "// hello".toList
    line ≠ [] ∧ '\n' ∉ line ∧ trim line = line ∧
      (∃ c, (compile .initial (String.ofList line)).result = .ok c) ∧
      ¬ ∃ c, (compile .initial (String.ofList (wrap line))).result = .ok c := by
  intro line
  have hread : (compile .initial (String.ofList line)).result.toOption.isSome := by decide +kernel
  have hwrapped : (compile .initial (String.ofList (wrap line))).result.toOption.isNone := by
    decide +kernel
  refine ⟨by decide, by decide, rfl, ?_, ?_⟩
  · generalize (compile .initial (String.ofList line)).result = answer at hread
    cases answer with
    | error errors => cases hread
    | ok c => exact ⟨c, rfl⟩
  · rintro ⟨c, hc⟩
    rw [hc] at hwrapped
    cases hwrapped

end Echo

end Lox
