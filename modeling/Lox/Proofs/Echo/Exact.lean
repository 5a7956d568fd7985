import Lox.Proofs.Echo.Closing
import Lox.Proofs.Echo.Equals
import Lox.Proofs.Echo.Statements

/-!
# Echoed expressions

The echo knows nothing of tokens.  Still, for a line without comments and backslashes, it prints
the value of an expression that writes nothing, and takes assignments and lines that begin as
statements do as they are (`Echo.wrap_exact`).

**The semicolon.** It may stand at the end of the line or not.  The tokens of the line differ
from those that are read in this semicolon at most (`Echo.Ends`).
-/

namespace Lox

open Piece Grammar Parse

namespace Echo

/-- A line without surrounding white space, comments and backslashes. -/
structure Plain (line : List Char) : Prop where
  /-- It is a single line. -/
  single : '\n' ∉ line
  /-- There is no white space around it. -/
  trimmed : trim line = line
  /-- There is no backslash in it. -/
  backslash : '\\' ∉ line
  /-- There is no comment in it. -/
  comments : ∀ text, .comment text ∉ (Cutting.ofSource line).pieces

/-- A line and its tokens, or both with a semicolon behind them. -/
inductive Ends (line : List Char) (tokens : List Token) : List Char → List Token → Prop
  | same : Ends line tokens line tokens
  | semicolon {t : Token} (ht : t.kind = .semicolon) :
      Ends line tokens (line ++ [';']) (tokens ++ [t])

end Echo

variable {line source : List Char} {pieces : List Piece} {tokens ts : List Token} {first : Token}

/-! ## Tokens of plain lines -/

/-- A line that is skipped has no tokens but the last one. -/
theorem scan_skipped (hsingle : '\n' ∉ line) (hfirst : ['#', '!'] <+: line) :
    ∃ stop, scan (String.ofList line) = .ok [stop] ∧ stop.kind = .eof := by
  obtain ⟨others, rfl⟩ := hfirst
  have hcut : (⟨'#' :: '!' :: others, []⟩ : Cutting).IsOf
      (String.ofList (['#', '!'] ++ others)) := by
    constructor
    · rw [String.toList_ofList]
      exact .last fun hmem => hsingle (List.mem_append_right _ hmem)
    · exact .nil
  exact ⟨_, hcut.scan_eq_ok.2 ⟨by simp, rfl⟩, rfl⟩

theorem Scanned.not_skipped (h : Scanned line pieces tokens) : ¬ ['#', '!'] <+: line := by
  rintro ⟨rest, rfl⟩
  obtain ⟨piece, hpiece, hbad⟩ := h.splits.exists_isBad_of_hash
  exact h.not_isBad piece hpiece hbad

namespace Echo

/-- A plain line is skipped, or its tokens are those that are read, up to the semicolon. -/
theorem Plain.exists_ends (h : Plain line) (hsource : source = line ∨ source = line ++ [';'])
    (hscan : scan (String.ofList source) = .ok tokens) :
    ∃ ts stop, tokens = ts ++ [stop] ∧ stop.kind = .eof ∧
      (ts = [] ∧ ['#', '!'] <+: line ∨ ∃ us pieces whole, Scanned line pieces us ∧
        (∀ text, .comment text ∉ pieces) ∧ Scanned source whole ts ∧ Ends line us source ts) := by
  have hsingle : '\n' ∉ source := by
    rcases hsource with rfl | rfl
    · exact h.single
    · simp [h.single]
  obtain ⟨ts, stop, rfl, hstop, hcases⟩ := exists_scanned hsingle hscan
  refine ⟨ts, stop, rfl, hstop, ?_⟩
  have hpieces (hfirst : ¬ ['#', '!'] <+: line) (text : List Char) :
      .comment text ∉ ofText line := by
    have hcomments := h.comments text
    rwa [Cutting.ofSource, (Skips.none hfirst).splitShebang_eq] at hcomments
  rcases hcases with ⟨hnil, hskipped⟩ | ⟨whole, hwhole⟩
  · refine .inl ⟨hnil, ?_⟩
    rcases hsource with rfl | rfl
    · exact hskipped
    · rcases List.prefix_concat_iff.1 hskipped with hshort | hpart
      · exact absurd (congrArg List.getLast? hshort) (by simp)
      · exact hpart
  · right
    -- a line that is not skipped is cut as its text is, so that the comments are among the pieces
    rcases hsource with rfl | rfl
    · have hcomments := hpieces hwhole.not_skipped
      rw [← hwhole.splits.unique (splits_ofText source)] at hcomments
      exact ⟨ts, whole, whole, hwhole, hcomments, hwhole, .same⟩
    · have hcomments := hpieces fun hfirst =>
        hwhole.not_skipped (hfirst.trans (List.prefix_append _ _))
      obtain ⟨us, t, rfl, ht, hline⟩ := hwhole.of_append_semicolon hcomments
      exact ⟨us, _, whole, hline, hcomments, hwhole, .semicolon ht⟩

/-- The last token of a plain line is a semicolon or a closing brace if the last character is. -/
theorem Plain.last_token (h : Plain line) (hscanned : Scanned line pieces tokens)
    (hcomments : ∀ text, .comment text ∉ pieces) {c : Char} {kind : Token.Kind}
    (hc : closes c kind = true) (hne : tokens ≠ []) :
    line.getLast? = some c ↔ (tokens.getLast hne).kind = kind := by
  obtain ⟨-, hend⟩ := not_isBlank_of_trim h.trimmed
  have hline : line ≠ [] := by
    rintro rfl
    have hmarks := hscanned.marks
    rw [hscanned.splits.unique .nil] at hmarks
    exact hne (List.map_eq_nil_iff.1 hmarks.symm)
  rcases hscanned.last_piece hline hend with ⟨front, text, rfl⟩ | ⟨others, last, rfl, hlast⟩
  · exact absurd (by simp) (hcomments text)
  · rw [List.getLast_concat]
    exact hlast c kind hc

/-! ## Expressions -/

/-- A line whose tokens are neither equals signs nor closing braces is taken for an expression,
unless it begins as a statement does. -/
theorem Plain.isBareExpression (h : Plain line) (hscanned : Scanned line pieces (first :: ts))
    (hcomments : ∀ text, .comment text ∉ pieces) (hnamed : EqualsNamed false (first :: ts))
    (hfirst : isOpening first.kind = false ∧ first.kind ≠ .leftBrace)
    (hkinds : ∀ t ∈ first :: ts, t.kind ≠ .equal ∧ t.kind ≠ .rightBrace) :
    Echo.isBareExpression line = true := by
  obtain ⟨hstart, -⟩ := not_isBlank_of_trim h.trimmed
  refine (hscanned.isBareExpression_iff h.single hstart).2 ⟨?_, hfirst.1, hfirst.2, ?_⟩
  · rw [ne_eq, h.last_token hscanned hcomments closes_rightBrace (List.cons_ne_nil _ _)]
    exact (hkinds _ (List.getLast_mem _)).2
  · rw [← Bool.not_eq_true, hscanned.isAssignment_iff hcomments h.backslash hnamed]
    rintro ⟨t, ht, hequal⟩
    exact (hkinds t ht).1 hequal

/-- An expression that writes nothing is printed, with a semicolon behind it. -/
theorem Plain.wrap_eq (h : Plain line) (hscanned : Scanned line pieces tokens)
    (hcomments : ∀ text, .comment text ∉ pieces) (hnamed : EqualsNamed false tokens)
    {us : List Token} {semicolon : Token} {e : Expr}
    (hends : Ends line tokens source (us ++ [semicolon])) (hreads : Reads .assignment us e)
    (hsemicolon : semicolon.kind = .semicolon) (hwrites : e.writes = false) :
    wrap line = "print ".toList ++ source := by
  obtain ⟨first, others, rfl, hbegins⟩ := begins_of_reads hreads
  have hfirst : isOpening first.kind = false ∧ first.kind ≠ .leftBrace := by
    generalize first.kind = kind at hbegins
    cases kind <;> first | (exact ⟨rfl, by decide⟩) | cases hbegins
  have hkinds : ∀ t ∈ first :: others, t.kind ≠ .equal ∧ t.kind ≠ .rightBrace := by
    intro t ht
    obtain ⟨-, -, hboundary⟩ := isSkipped_iff.1 (isSkipped_of_reads hreads t ht)
    refine ⟨hreads.not_equal hwrites t ht, fun hkind => ?_⟩
    rw [hkind] at hboundary
    cases hboundary
  generalize hts : first :: others ++ [semicolon] = ts at hends
  cases hends with
  | same =>
    subst hts
    have hall : ∀ t ∈ first :: (others ++ [semicolon]), t.kind ≠ .equal ∧ t.kind ≠ .rightBrace :=
      List.forall_mem_append.2 ⟨hkinds, by simp [hsemicolon]⟩
    have hbare := h.isBareExpression hscanned hcomments hnamed hfirst hall
    have hlast : line.getLast? = some ';' := by
      rw [h.last_token hscanned hcomments closes_semicolon (by simp)]
      simpa using hsemicolon
    rw [wrap, if_pos hbare, dropSemicolon, if_pos hlast, List.append_assoc,
      List.dropLast_append_getLast? _ hlast]
  | semicolon ht =>
    obtain ⟨rfl, -⟩ := List.append_inj' hts rfl
    have hbare := h.isBareExpression hscanned hcomments hnamed hfirst hkinds
    have hlast : line.getLast? ≠ some ';' := by
      rw [ne_eq, h.last_token hscanned hcomments closes_semicolon (by simp)]
      exact (isSkipped_iff.1 (isSkipped_of_reads hreads _ (List.getLast_mem _))).1
    rw [wrap, if_pos hbare, dropSemicolon, if_neg hlast, List.append_assoc]

/-! ## Other lines -/

theorem Ends.named {ss : List Stmt} (h : Ends line tokens source ts) (hitems : Items ts ss) :
    EqualsNamed false tokens := by
  cases h with
  | same => exact hitems.named
  | semicolon _ => exact hitems.named.of_append

/-- A line is run as it stands if it begins as a statement does or has an equals sign. -/
theorem Plain.wrap_self (h : Plain line) (hscanned : Scanned line pieces tokens)
    (hcomments : ∀ text, .comment text ∉ pieces) (hnamed : EqualsNamed false tokens)
    {words : List Token}
    (hwords : words.map Token.word = tokens.map Token.word ++ [(.eof, "", none)])
    (hstands : (∃ t ∈ words.head?, startsStatement t.kind = true) ∨
      ∃ t ∈ words, t.kind = .equal) :
    wrap line = line := by
  obtain ⟨hstart, -⟩ := not_isBlank_of_trim h.trimmed
  rw [wrap, if_neg]
  intro hbare
  rcases hstands with ⟨word, hword, hkind⟩ | ⟨word, hword, hkind⟩
  · obtain ⟨others, rfl⟩ := List.head?_eq_some_iff.1 hword
    cases tokens with
    | nil =>
      obtain ⟨hlast, -⟩ := List.cons.inj hwords
      rw [show word.kind = .eof from congrArg Prod.fst hlast] at hkind
      cases hkind
    | cons first ts =>
      obtain ⟨hfirst, -⟩ := List.cons.inj hwords
      rw [show word.kind = first.kind from congrArg Prod.fst hfirst] at hkind
      obtain ⟨-, hopening, -⟩ := (hscanned.isBareExpression_iff h.single hstart).1 hbare
      rw [isOpening_of_startsStatement hkind] at hopening
      cases hopening
  · have hmem : word.word ∈ tokens.map Token.word ++ [(.eof, "", none)] :=
      hwords ▸ List.mem_map_of_mem hword
    rcases List.mem_append.1 hmem with hmem | hlast
    · obtain ⟨t, ht, hsame⟩ := List.mem_map.1 hmem
      have hequal : t.kind = .equal := (congrArg Prod.fst hsame).trans hkind
      have hassignment :=
        (hscanned.isAssignment_iff hcomments h.backslash hnamed).2 ⟨t, ht, hequal⟩
      simp [Echo.isBareExpression, hassignment] at hbare
    · have heof : word.kind = .eof := congrArg Prod.fst (List.mem_singleton.1 hlast)
      rw [hkind] at heof
      cases heof

/-! ## The echo -/

/-- The echo prints the expressions that write nothing.  If a plain line, or the line with a
semicolon behind it, is read as such an expression, what is run is read as the statement that
prints it.  A line that begins with a brace or a keyword of statements, or has an equals sign
among its tokens, is run as it stands. -/
theorem wrap_exact {supply : Supply} (hline : Plain line)
    (hsource : source = line ∨ source = line ++ [';'])
    (hscan : scan (String.ofList source) = .ok tokens)
    (herrors : (Parsed.ofTokens supply tokens).errors = []) :
    (∀ e : Expr, e.writes = false →
      (Parsed.ofTokens supply tokens).program.bare = ⟨[.expression e .blank]⟩ →
        ∃ printed, scan (String.ofList (wrap line)) = .ok printed ∧ ∀ supply' : Supply,
          (Parsed.ofTokens supply' printed).errors = [] ∧
            (Parsed.ofTokens supply' printed).program.bare = ⟨[.print e .blank]⟩) ∧
      ∃ words, scan (String.ofList line) = .ok words ∧
        (line.head? = some '\x7b' ∨ (∃ t ∈ words.head?, startsStatement t.kind = true) ∨
          (∃ t ∈ words, t.kind = .equal) → wrap line = line) := by
  have hderives := Parsed.derives (endsOnce_of_scan hscan) herrors
  generalize (Parsed.ofTokens supply tokens).program.bare = tree at hderives
  obtain ⟨ts, stop, rfl, hstop, hcases⟩ := hline.exists_ends hsource hscan
  have hitems := hderives.items
  have hbrace (hhead : line.head? = some '\x7b') : wrap line = line := by
    rw [wrap, if_neg (by simp [Echo.isBareExpression, hhead])]
  rcases hcases with ⟨rfl, hskipped⟩ | ⟨us, pieces, whole, hscanned, hcomments, hwhole, hends⟩
  · constructor
    · rintro e - rfl
      obtain ⟨us, semicolon, hnil, -⟩ := hitems.of_expression
      simp at hnil
    · obtain ⟨last, hwords, hlast⟩ := scan_skipped hline.single hskipped
      refine ⟨[last], hwords, ?_⟩
      rintro (hhead | ⟨t, ht, hkind⟩ | ⟨t, ht, hkind⟩)
      · exact hbrace hhead
      · cases ht
        rw [hlast] at hkind
        cases hkind
      · rw [List.mem_singleton.1 ht, hlast] at hkind
        cases hkind
  · have hnamed := hends.named hitems
    constructor
    · rintro e hwrites rfl
      obtain ⟨us', semicolon, rfl, hreads, hsemicolon⟩ := hitems.of_expression
      rw [hline.wrap_eq hscanned hcomments hnamed hends hreads hsemicolon hwrites]
      have hprint : Items (Token.printWord :: us' ++ [semicolon]) [.print e .blank] := by
        have hword : Token.printWord.kind = .print := rfl
        simpa using Items.cons (.statement (.print hword hreads hsemicolon)) .nil
      obtain ⟨pieces', hprinted⟩ := hwhole.printed
      exact hprinted.exists_read hprint
    · obtain ⟨words, hwords, hmap⟩ := hscanned.scans
      refine ⟨words, hwords, ?_⟩
      rintro (hhead | hstands)
      · exact hbrace hhead
      · exact hline.wrap_self hscanned hcomments hnamed hmap hstands

/-- A string that holds an equals sign and a brace, and an operator that ends in an equals sign. -/
theorem wrap_exact_comparison :
    let line := "\"a=\x7d\" <= b".toList
    let e : Expr := .binary .blank .lessEqual (.literal .blank (.text "a=\x7d"))
      (.variable .blank "b") .blank
    ∃ tokens printed, Plain line ∧ scan (String.ofList (line ++ [';'])) = .ok tokens ∧
      (Parsed.ofTokens .initial tokens).errors = [] ∧ e.writes = false ∧
      (Parsed.ofTokens .initial tokens).program.bare = ⟨[.expression e .blank]⟩ ∧
      scan (String.ofList (wrap line)) = .ok printed ∧
      (Parsed.ofTokens .initial printed).errors = [] ∧
      (Parsed.ofTokens .initial printed).program.bare = ⟨[.print e .blank]⟩ := by
  intro line e
  have hline : Plain line := by
    refine ⟨by decide, rfl, by decide, ?_⟩
    intro text hmem
    have hpieces : (Cutting.ofSource line).pieces.any fun
      | .comment _ => true
      | _ => false := List.any_eq_true.2 ⟨_, hmem, rfl⟩
    revert hpieces
    decide
  have hread : (scan (String.ofList (line ++ [';']))).toOption.map (fun tokens =>
      ((Parsed.ofTokens .initial tokens).errors, (Parsed.ofTokens .initial tokens).program.bare)) =
        some ([], ⟨[.expression e .blank]⟩) := by
    subst line e
    rfl
  generalize hscan : scan (String.ofList (line ++ [';'])) = answer at hread
  cases answer with
  | error errors => cases hread
  | ok tokens =>
    obtain ⟨herrors, hbare⟩ := Prod.mk.inj (Option.some.inj hread)
    obtain ⟨hprints, -⟩ := wrap_exact hline (.inr rfl) hscan herrors
    obtain ⟨printed, hprinted, hprogram⟩ := hprints e rfl hbare
    obtain ⟨hnone, hprint⟩ := hprogram .initial
    exact ⟨tokens, printed, hline, rfl, herrors, rfl, hbare, hprinted, hnone, hprint⟩

end Echo

end Lox
