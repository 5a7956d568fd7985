import Lox.Proofs.Syntax.Complete
import Lox.Proofs.Syntax.Contract
import Lox.Proofs.Syntax.Resuming

/-!
# Forgotten semicolons

If the semicolon of a statement is forgotten in front of a boundary, such as a keyword that begins
another statement, there is an error at that token.  It is skipped then, and reading goes on at
the next boundary, which may be inside of the other statement.  So this is the only error exactly
if the tokens that are left from there on are a program (`forgotten_semicolon`).

**Simple statements.** There is no boundary inside of a variable declaration, a print or a return
statement.  Such a statement is left out as a whole, and there is no other error
(`forgotten_semicolon_before_simple`).
-/

namespace Lox

/-- What is asked for where the semicolon of the statement is missing. -/
def Stmt.closing? : Stmt → Option Missing
  | .var .. => some .declarationEnd
  | .print .. => some .printEnd
  | .expression .. => some .expressionEnd
  | _ => none

/-- A statement that ends with a semicolon, and has no other statement inside. -/
def Stmt.isSimple : Stmt → Bool
  | .var .. | .print .. | .expression .. | .return .. => true
  | _ => false

namespace Parse

open Grammar

/-! ## Refusals -/

/-- The action gives up with an error, leaves the given tokens, and notes no other error. -/
def Refuses {α : Type} (x : Parse α) (p : Parser) (e : CompileError) (us : List Token) : Prop :=
  ∃ q, x p = .error e q ∧ q.rest = us ∧ q.errors = p.errors

section Refusals

variable {α β : Type} {p : Parser} {e : CompileError} {us : List Token}

theorem Refuses.of_eq {x y : Parse α} {p₁ : Parser} (heq : x p = y p₁)
    (herrors : p₁.errors = p.errors) (h : Refuses y p₁ e us) : Refuses x p e us := by
  obtain ⟨q, hrun, hrest, hq⟩ := h
  exact ⟨q, heq.trans hrun, hrest, hq.trans herrors⟩

/-- A sequence gives up if its second action does, after the first one has answered. -/
theorem Answers.bind_refuses {x : Parse α} {f : α → Parse β} {P : α → Prop} {ts : List Token}
    (hx : Answers [] x p P ts) (hf : ∀ a p₁, P a → p₁.rest = ts → Refuses (f a) p₁ e us) :
    Refuses (x >>= f) p e us := by
  obtain ⟨a, p₁, es, hrun, ha, hrest, herrors, hes⟩ := hx
  rw [hes.eq_nil, List.append_nil] at herrors
  exact (hf a p₁ ha hrest).of_eq (bind_of_ok hrun) (Array.toList_inj.1 herrors)

theorem refuses_expect {kind : Token.Kind} {missing : Missing} {t : Token} {ts : List Token}
    {f : Unit → Parse β} (hp : p.rest = t :: ts) (ht : t.kind ≠ kind) :
    Refuses (expect kind missing >>= f) p (.parse (.expected missing) t) (t :: ts) := by
  refine ⟨p, bind_of_error ?_, hp, rfl⟩
  rw [expect_apply, if_neg (by rwa [Parser.kind_eq hp]), Parser.current_eq hp]

end Refusals

/-! ## Statements without their semicolon -/

section Shortened

variable {ts us : List Token} {first : Token} {n : Nat} {p : Parser}

theorem strength?_of_isBoundary {kind : Token.Kind} (h : isBoundary kind = true) :
    strength? kind = none := by
  cases kind <;> first | rfl | cases h

theorem ne_of_isBoundary {kind kind' : Token.Kind} (h : isBoundary kind = true)
    (h' : isBoundary kind' = false) : kind ≠ kind' := by
  rintro rfl
  rw [h] at h'
  cases h'

variable (hfirst : isBoundary first.kind = true)

include hfirst

theorem refuses_semicolon {α : Type} {value : Expr} {missing : Missing} {f : Expr → Unit → Parse α}
    (hvalue : Reads .assignment ts value) (hn : 20 * ts.length ≤ n)
    (hp : p.rest = ts ++ first :: us) :
    Refuses (expression n >>= fun value => expect .semicolon missing >>= f value) p
      (.parse (.expected missing) first) (first :: us) :=
  (answers_expression hvalue hn hp (strength?_of_isBoundary hfirst)).bind_refuses
    fun _ _ _ hp₁ => refuses_expect hp₁ (ne_of_isBoundary hfirst rfl)

theorem refuses_expressionStatement {value : Expr} (hvalue : Reads .assignment ts value)
    (hn : 20 * ts.length + 2 ≤ n) (hp : p.rest = ts ++ first :: us) :
    Refuses (declaration n) p (.parse (.expected .expressionEnd) first) (first :: us) := by
  obtain ⟨m, rfl⟩ : ∃ m, n = m + 2 := ⟨n - 2, by omega⟩
  obtain ⟨t, ts, rfl, ht⟩ := begins_of_reads hvalue
  have hstep : declaration (m + 2) p = expressionStatement m p := by
    rw [declaration_eq_statement hp (beginsStatement_of_begins ht),
      statement_eq_expressionStatement hp ht]
  exact (refuses_semicolon hfirst hvalue (by omega) hp).of_eq hstep rfl

theorem refuses_printStatement {word : Token} {value : Expr} (hword : word.kind = .print)
    (hvalue : Reads .assignment ts value) (hn : 20 * ts.length + 2 ≤ n)
    (hp : p.rest = word :: ts ++ first :: us) :
    Refuses (declaration n) p (.parse (.expected .printEnd) first) (first :: us) := by
  obtain ⟨m, rfl⟩ : ∃ m, n = m + 2 := ⟨n - 2, by omega⟩
  have hstep : declaration (m + 2) p = printStatement m p := by
    rw [declaration_eq_statement hp (by rw [hword]; rfl), statement, bind_of_ok (peek_apply p),
      Parser.kind_eq hp, hword]
  refine Refuses.of_eq hstep rfl ?_
  refine .of_eq (bind_of_ok (here_apply p)) rfl ?_
  refine (Answers.advance hp (by simp) (by simp [hword])).bind_refuses fun _ p₁ _ hp₁ => ?_
  exact refuses_semicolon hfirst hvalue (by omega) hp₁

theorem refuses_varDeclaration {semicolon : Token} {s : Stmt}
    (h : VarDeclaration (ts ++ [semicolon]) s) (hn : 20 * ts.length + 2 ≤ n)
    (hp : p.rest = ts ++ first :: us) :
    Refuses (declaration n) p (.parse (.expected .declarationEnd) first) (first :: us) := by
  obtain ⟨m, rfl⟩ : ∃ m, n = m + 1 := ⟨n - 1, by omega⟩
  generalize hts : ts ++ [semicolon] = all at h
  have hstep {word : Token} {vs : List Token} (hp : p.rest = word :: vs)
      (hword : word.kind = .var) : declaration (m + 1) p = varDeclaration m p := by
    rw [declaration, bind_of_ok (peek_apply p), Parser.kind_eq hp, hword]
  cases h with
  | @bare word name semicolon' hword hname =>
    obtain ⟨rfl, -⟩ := List.append_inj'
      (show ts ++ [semicolon] = [word, name] ++ [semicolon'] from hts) rfl
    refine .of_eq (hstep hp hword) rfl (.of_eq (bind_of_ok (here_apply p)) rfl ?_)
    refine (Answers.advance hp (by simp) (by simp [hword])).bind_refuses fun _ p₁ _ hp₁ => ?_
    refine (Answers.expectName hp₁ (by simp) hname).bind_refuses fun _ p₂ _ hp₂ => ?_
    have hequal : ¬ At .equal (first :: us) := fun hat =>
      ne_of_isBoundary hfirst rfl (At.cons_iff.1 hat)
    refine (Answers.refuse hp₂ hequal).bind_refuses fun more p₃ hmore hp₃ => ?_
    subst hmore
    exact refuses_expect hp₃ (ne_of_isBoundary hfirst rfl)
  | @initialized word name equals semicolon' vs value hword hname hequals hvalue =>
    obtain ⟨rfl, -⟩ := List.append_inj'
      (show ts ++ [semicolon] = (word :: name :: equals :: vs) ++ [semicolon'] from hts) rfl
    simp only [List.length_cons] at hn
    refine .of_eq (hstep hp hword) rfl (.of_eq (bind_of_ok (here_apply p)) rfl ?_)
    refine (Answers.advance hp (by simp) (by simp [hword])).bind_refuses fun _ p₁ _ hp₁ => ?_
    refine (Answers.expectName hp₁ (by simp) hname).bind_refuses fun _ p₂ _ hp₂ => ?_
    refine (Answers.accept hp₂ (by simp) hequals (by decide)).bind_refuses
      fun more p₃ hmore hp₃ => ?_
    subst hmore
    dsimp only
    rw [if_pos rfl, bind_map_left]
    exact refuses_semicolon hfirst hvalue (by omega) hp₃

/-- A variable declaration, a print statement or an expression statement without its semicolon is
refused in front of a boundary. -/
theorem refuses_shortened {semicolon : Token} {s : Stmt} {missing : Missing}
    (h : Declares (ts ++ [semicolon]) s) (hmissing : s.closing? = some missing)
    (hn : 20 * ts.length + 2 ≤ n) (hp : p.rest = ts ++ first :: us) :
    Refuses (declaration n) p (.parse (.expected missing) first) (first :: us) := by
  generalize hts : ts ++ [semicolon] = all at h
  cases h with
  | «class» => cases hmissing
  | function => cases hmissing
  | var hvar =>
    obtain rfl : Missing.declarationEnd = missing := by
      cases hvar <;> exact Option.some.inj hmissing
    subst hts
    exact refuses_varDeclaration hfirst hvar hn hp
  | statement hstates =>
    cases hstates with
    | expression hexpression =>
      obtain ⟨hvalue, -⟩ := hexpression
      obtain ⟨rfl, -⟩ := List.append_inj' hts rfl
      cases hmissing
      exact refuses_expressionStatement hfirst hvalue hn hp
    | @print word semicolon' vs value hword hvalue =>
      obtain ⟨rfl, -⟩ := List.append_inj'
        (show ts ++ [semicolon] = (word :: vs) ++ [semicolon'] from hts) rfl
      cases hmissing
      simp only [List.length_cons] at hn
      exact refuses_printStatement hfirst hword hvalue (by omega) hp
    | «return» | block | ifThen | ifElse | «while» => cases hmissing
    | @«for» _ _ _ _ _ _ _ _ initializer _ increment =>
      cases initializer <;> cases increment <;> cases hmissing

end Shortened

/-! ## Simple statements -/

theorem isSkipped_of_begins {kind : Token.Kind} (h : begins .assignment kind = true) :
    isSkipped kind = true := by
  cases kind <;> first | rfl | cases h

theorem isSkipped_of_strength? {kind : Token.Kind} {k : Nat} (h : strength? kind = some k) :
    isSkipped kind = true := by
  cases kind <;> first | rfl | cases h

mutual
/-- No statement begins inside of an expression or ends there. -/
theorem isSkipped_of_reads {c : Category} {ts : List Token} {e : Expr} :
    Reads c ts e → ∀ t ∈ ts, isSkipped t.kind = true
  | .of _ hinner => isSkipped_of_reads hinner
  | .assign hname hequals hvalue => by
    simp only [List.forall_mem_cons, hname, hequals]
    exact ⟨rfl, rfl, isSkipped_of_reads hvalue⟩
  | .set hobject hdot hname hequals hvalue => by
    simp only [List.forall_mem_append, List.forall_mem_cons, hdot, hname, hequals]
    exact ⟨isSkipped_of_reads hobject, rfl, rfl, rfl, isSkipped_of_reads hvalue⟩
  | .operator hleft hsign _ hright => by
    simp only [List.forall_mem_append, List.forall_mem_cons]
    exact ⟨isSkipped_of_reads hleft, isSkipped_of_strength? (strength?_of_binarySign hsign),
      isSkipped_of_reads hright⟩
  | .unary hsign hoperand => by
    rw [List.forall_mem_cons]
    refine ⟨?_, isSkipped_of_reads hoperand⟩
    generalize Token.kind _ = kind at hsign
    cases hsign <;> rfl
  | .bareNew hword hcallee => by
    rw [List.forall_mem_cons, hword]
    exact ⟨rfl, isSkipped_of_readsClass hcallee⟩
  | .new hword hcallee harguments => by
    rw [List.forall_mem_append, List.forall_mem_cons, hword]
    exact ⟨⟨rfl, isSkipped_of_readsClass hcallee⟩, isSkipped_of_arguments harguments⟩
  | .call hcallee harguments => by
    rw [List.forall_mem_append]
    exact ⟨isSkipped_of_reads hcallee, isSkipped_of_arguments harguments⟩
  | .get hobject hdot hname => by
    simp only [List.forall_mem_append, List.forall_mem_cons, hdot, hname]
    exact ⟨isSkipped_of_reads hobject, rfl, rfl, by simp⟩
  | .literal hvalue => by
    rw [List.forall_mem_singleton]
    exact isSkipped_of_begins (begins_of_written _ hvalue)
  | .this hkind | .name hkind => by
    rw [List.forall_mem_singleton, hkind]
    rfl
  | .grouping hleft hinner hright => by
    simp only [List.forall_mem_append, List.forall_mem_cons, hleft, hright]
    exact ⟨⟨rfl, isSkipped_of_reads hinner⟩, rfl, by simp⟩

theorem isSkipped_of_readsClass {ts : List Token} {e : Expr} :
    ReadsClass ts e → ∀ t ∈ ts, isSkipped t.kind = true
  | .primary h => isSkipped_of_reads h
  | .get hobject hdot hname => by
    simp only [List.forall_mem_append, List.forall_mem_cons, hdot, hname]
    exact ⟨isSkipped_of_readsClass hobject, rfl, rfl, by simp⟩

theorem isSkipped_of_arguments {ts : List Token} {es : List Expr} :
    Arguments ts es → ∀ t ∈ ts, isSkipped t.kind = true
  | .none hleft hright => by
    simp only [List.forall_mem_cons, hleft, hright]
    exact ⟨rfl, rfl, by simp⟩
  | .some hleft hvalues _ hright => by
    simp only [List.forall_mem_append, List.forall_mem_cons, hleft, hright]
    exact ⟨⟨rfl, isSkipped_of_values hvalues⟩, rfl, by simp⟩

theorem isSkipped_of_values {ts : List Token} {es : List Expr} :
    Values ts es → ∀ t ∈ ts, isSkipped t.kind = true
  | .one hvalue => isSkipped_of_reads hvalue
  | .more hvalue hcomma hvalues => by
    simp only [List.forall_mem_append, List.forall_mem_cons, hcomma]
    exact ⟨isSkipped_of_reads hvalue, rfl, isSkipped_of_values hvalues⟩
end

/-- A simple statement is skipped from behind its first token on. -/
theorem resume_of_simple {first : Token} {second us : List Token} {s : Stmt}
    (h : Declares (first :: second) s) (hsimple : s.isSimple = true)
    (hfirst : isBoundary first.kind = true) (hus : us ≠ []) :
    resume first (second ++ us) = us := by
  suffices hcut : ∃ ts semicolon, second = ts ++ [semicolon] ∧
      (∀ t ∈ ts, isSkipped t.kind = true) ∧ semicolon.kind = .semicolon by
    obtain ⟨ts, semicolon, rfl, hts, hsemicolon⟩ := hcut
    rw [List.append_assoc, List.singleton_append]
    exact resume_skips (ne_of_isBoundary hfirst rfl) hts hsemicolon hus
  generalize hall : first :: second = all at h
  cases h with
  | «class» | function => cases hsimple
  | var hvar =>
    cases hvar with
    | @bare word name semicolon _ hname hsemicolon =>
      obtain ⟨-, rfl⟩ := List.cons.inj hall
      exact ⟨[name], semicolon, rfl, by simp [hname, isSkipped, isBoundary], hsemicolon⟩
    | @initialized word name equals semicolon ts _ _ hname hequals hvalue hsemicolon =>
      obtain ⟨-, rfl⟩ := List.cons.inj hall
      refine ⟨name :: equals :: ts, semicolon, rfl, ?_, hsemicolon⟩
      simp only [List.forall_mem_cons, hname, hequals]
      exact ⟨rfl, rfl, isSkipped_of_reads hvalue⟩
  | statement hstates =>
    cases hstates with
    | expression hexpression =>
      obtain ⟨t, ts, rfl, ht⟩ := begins_of_expressionStatement hexpression
      obtain ⟨rfl, -⟩ := List.cons.inj hall
      exact absurd hfirst (by simp [(isSkipped_iff.1 (isSkipped_of_begins ht)).2.2])
    | print _ hvalue hsemicolon =>
      obtain ⟨-, rfl⟩ := List.cons.inj hall
      exact ⟨_, _, rfl, isSkipped_of_reads hvalue, hsemicolon⟩
    | «return» _ hvalue hsemicolon =>
      obtain ⟨-, rfl⟩ := List.cons.inj hall
      refine ⟨_, _, rfl, ?_, hsemicolon⟩
      cases hvalue with
      | none => simp
      | some hvalue => exact isSkipped_of_reads hvalue
    | block | ifThen | ifElse | «while» => cases hsimple
    | @«for» _ _ _ _ _ _ _ _ initializer _ increment =>
      cases initializer <;> cases increment <;> cases hsimple

/-! ## What is read then -/

/-- Statements that are followed by other tokens are read first. -/
theorem statements_of_items {ts us : List Token} {ss : List Stmt} {n : Nat} {p : Parser}
    (hus : us ≠ []) (helse : ¬ At .else us) (h : Items ts ss) (hn : 20 * ts.length + 1 ≤ n)
    (hp : p.rest = ts ++ us) :
    ∃ ss' q m, statements n p = ((ss' ++ ·) <$> statements m) q ∧ Stmt.bareAll ss' = ss ∧
      q.rest = us ∧ q.errors = p.errors ∧ n ≤ m + ts.length := by
  induction ss generalizing ts n p with
  | nil =>
    cases h
    exact ⟨[], p, n, by simp, rfl, hp, rfl, Nat.le_refl n⟩
  | cons s ss ih =>
    obtain _ | ⟨hfirst, hothers⟩ := h
    next ts vs =>
    rw [List.length_append] at hn
    rw [List.append_assoc] at hp
    obtain ⟨m, rfl⟩ : ∃ m, n = m + 1 := ⟨n - 1, by omega⟩
    have hnotElse : ¬ At .else (vs ++ us) := At.not_append (not_at_of_items hothers rfl) helse
    obtain ⟨s', p₁, es, hrun, hs, hrest, herrors, hes⟩ :=
      accepted_of_declares hfirst m p (vs ++ us) (by omega) hp (by simp [hus]) hnotElse
    rw [hes.eq_nil, List.append_nil] at herrors
    obtain ⟨t, ts, rfl, ht⟩ := begins_of_declares hfirst
    have hlive : p.kind ≠ .eof := by
      rw [Parser.kind_eq hp]
      intro heof
      rw [heof] at ht
      cases ht
    simp only [List.length_cons] at hn
    obtain ⟨ss', q, k, hothers', hss', hq, herrors', hk⟩ := ih hothers (n := m) (by omega) hrest
    refine ⟨s' :: ss', q, k, ?_, ?_, hq, herrors'.trans (Array.toList_inj.1 herrors), ?_⟩
    · rw [statements_of_ok hlive hrun, map_of_eq _ hothers', Functor.map_map]
      rfl
    · rw [Stmt.bareAll, hs, hss']
    · simp only [List.length_append, List.length_cons]
      omega

/-- Behind the statements before, the error is noted, and reading goes on with what is left. -/
theorem statements_forgotten {before shortened us : List Token} {first next semicolon : Token}
    {ss : List Stmt} {s : Stmt} {missing : Missing} {n : Nat} {p : Parser}
    (hbefore : Items before ss) (hs : Declares (shortened ++ [semicolon]) s)
    (hmissing : s.closing? = some missing) (hfirst : isBoundary first.kind = true)
    (hn : 20 * (before.length + shortened.length) + 3 ≤ n)
    (hp : p.rest = before ++ (shortened ++ first :: next :: us)) :
    ∃ ss' q m, statements n p = ((ss' ++ ·) <$> statements m) q ∧ Stmt.bareAll ss' = ss ∧
      q.rest = resume first (next :: us) ∧
      q.errors = p.errors.push (.parse (.expected missing) first) ∧ n ≤ m + before.length + 1 := by
  have hbegins {kind : Token.Kind} (hdeclaration : beginsDeclaration kind = false)
      (hboundary : isBoundary kind = false) : ¬ At kind (shortened ++ first :: next :: us) := by
    obtain ⟨t, ts, hcons, ht⟩ := begins_of_declares hs
    cases shortened with
    | nil => exact fun hat => ne_of_isBoundary hfirst hboundary (At.cons_iff.1 hat)
    | cons t' shortened =>
      obtain ⟨rfl, -⟩ := List.cons.inj hcons
      intro hat
      rw [At.cons_iff.1 hat, hdeclaration] at ht
      cases ht
  obtain ⟨ss', p₁, k, hrun, hss', hrest, herrors, hk⟩ :=
    statements_of_items (by simp) (hbegins rfl rfl) hbefore (n := n) (by omega) hp
  obtain ⟨m, rfl⟩ : ∃ m, k = m + 1 := ⟨k - 1, by omega⟩
  obtain ⟨p₂, hdeclaration, hrest₂, herrors₂⟩ :=
    refuses_shortened hfirst hs hmissing (n := m) (by omega) hrest
  obtain ⟨q, hskip, hq, hnoted⟩ := synchronize_rest
    (p := { p₂ with errors := p₂.errors.push (.parse (.expected missing) first) }) hrest₂
    (ne_of_isBoundary hfirst rfl)
  have hlive : p₁.kind ≠ .eof := by
    intro heof
    have hat : At .eof p₁.rest := At.cons_iff.2 heof
    rw [hrest] at hat
    exact hbegins rfl rfl hat
  refine ⟨ss', q, m, ?_, hss', hq, ?_, by omega⟩
  · rw [hrun]
    exact map_of_eq _ (statements_of_error hlive hdeclaration hskip)
  · rw [hnoted, herrors₂, herrors]

/-- Errors stay noted. -/
theorem errors_prefix (n : Nat) (p : Parser) :
    p.errors.toList <+: (endState (statements n) p).errors.toList := by
  refine Rule.kept_by_moves (I := fun q => p.errors.toList <+: q.errors.toList) (fun m q hq => ?_)
    .statements (List.prefix_refl _)
  cases m with
  | advance =>
    rw [Move.after, Parser.errors_advance]
    exact hq
  | note error =>
    rw [Move.after, Array.toList_push]
    exact hq.trans (List.prefix_append _ _)
  | look | before | lookBack | remaining | freshNode | freshFunction => exact hq

end Parse

open Parse Grammar

section

variable {before shortened others : List Token} {semicolon first last : Token}
  {statements : List Stmt} {s : Stmt} {missing : Missing}

/-- Reading goes on with the tokens that are left, after the statements before and the error. -/
theorem Parsed.runs_forgotten (hbefore : Items before statements)
    (hs : Declares (shortened ++ [semicolon]) s) (hmissing : s.closing? = some missing)
    (hfirst : isBoundary first.kind = true) (others : List Token) (last : Token)
    (supply : Supply) :
    let tokens := before ++ shortened ++ first :: others ++ [last]
    ∃ ss q m, Parse.statements (budget tokens) (Parser.start supply tokens) =
        ((ss ++ ·) <$> Parse.statements m) q ∧ Stmt.bareAll ss = statements ∧
      q.rest = resume first (others ++ [last]) ∧
      q.errors = #[.parse (.expected missing) first] ∧ 20 * others.length + 20 ≤ m := by
  intro tokens
  obtain ⟨next, us, hnext⟩ : ∃ next us, others ++ [last] = next :: us :=
    List.exists_cons_of_ne_nil (by simp)
  have hcut : tokens = before ++ (shortened ++ first :: next :: us) := by
    rw [← hnext]
    simp [tokens]
  have hrest : (Parser.start supply tokens).rest =
      before ++ (shortened ++ first :: next :: us) := by
    rw [Parser.rest_start supply (by simp [tokens]), hcut]
  have hlength := congrArg List.length hcut
  have hmore := congrArg List.length hnext
  simp only [List.length_append, List.length_cons, List.length_nil] at hlength hmore
  obtain ⟨ss, q, m, hrun, hss, hq, herrors, hm⟩ := statements_forgotten hbefore hs hmissing hfirst
    (n := budget tokens) (by simp only [budget]; omega) hrest
  rw [Parser.errors_start] at herrors
  refine ⟨ss, q, m, hrun, hss, hnext ▸ hq, herrors, ?_⟩
  simp only [budget] at hm
  omega

/-- If the tokens that are left are a program, it is read after the statements before, and there
is no other error. -/
theorem Parsed.of_forgotten (hbefore : Items before statements)
    (hs : Declares (shortened ++ [semicolon]) s) (hmissing : s.closing? = some missing)
    (hfirst : isBoundary first.kind = true) {tail : List Stmt}
    (htail : Derives (resume first (others ++ [last])) ⟨tail⟩) (supply : Supply) :
    let parsed := Parsed.ofTokens supply (before ++ shortened ++ first :: others ++ [last])
    parsed.errors = [.parse (.expected missing) first] ∧
      parsed.program.bare = ⟨statements ++ tail⟩ := by
  obtain ⟨ss, q, m, hrun, hss, hq, herrors, hm⟩ :=
    Parsed.runs_forgotten hbefore hs hmissing hfirst others last supply
  have hlength := (resume_suffix first (others ++ [last])).length_le
  obtain ⟨ts, stop, hleft, hitems, hstop⟩ : ∃ ts stop,
      resume first (others ++ [last]) = ts ++ [stop] ∧ Items ts tail ∧ stop.kind = .eof := by
    generalize resume first (others ++ [last]) = us at htail
    obtain ⟨hitems, hstop⟩ := htail
    exact ⟨_, _, rfl, hitems, hstop⟩
  rw [hleft] at hq hlength
  simp only [List.length_append, List.length_cons, List.length_nil] at hlength
  obtain ⟨body, q', es, hbody, hbare, -, herrors', hes⟩ :=
    (accepted_of_items hitems m q [stop] (by omega) hq).2 (At.cons_iff.2 hstop)
  rw [hes.eq_nil, List.append_nil, herrors] at herrors'
  intro parsed
  have hparsed : parsed = ⟨⟨ss ++ body⟩, q'.errors.toList, q'.supply⟩ := by
    simp only [parsed, Parsed.ofTokens, hrun, map_of_ok hbody]
  rw [hparsed]
  refine ⟨herrors', ?_⟩
  rw [Program.bare, Stmt.bareAll_append, hss, hbare]

/-- If the semicolon of a variable declaration, of a print or of an expression statement is
forgotten in front of a boundary, there is an error there.  It is the only one exactly if the
tokens from where reading goes on are a program, and then that program is read. -/
theorem forgotten_semicolon (hbefore : Items before statements)
    (hs : Declares (shortened ++ [semicolon]) s) (hmissing : s.closing? = some missing)
    (hfirst : isBoundary first.kind = true)
    (htokens : EndsOnce (before ++ shortened ++ first :: others ++ [last])) (supply : Supply) :
    let parsed := Parsed.ofTokens supply (before ++ shortened ++ first :: others ++ [last])
    let error : CompileError := .parse (.expected missing) first
    let left := resume first (others ++ [last])
    parsed.errors.head? = some error ∧
      (parsed.errors = [error] ↔ ∃ tail, Derives left ⟨tail⟩) ∧
      ∀ tail, Derives left ⟨tail⟩ → parsed.program.bare = ⟨statements ++ tail⟩ := by
  intro parsed error left
  obtain ⟨ss, q, m, hrun, hss, hq, herrors, -⟩ :=
    Parsed.runs_forgotten hbefore hs hmissing hfirst others last supply
  have hends : EndsOnce q.rest := by
    rw [hq]
    refine htokens.of_suffix ((resume_suffix first _).trans ?_) (resume_ne_nil (by simp))
    exact ⟨before ++ shortened ++ [first], by simp⟩
  obtain ⟨more, hmore⟩ : [error] <+: (endState (Parse.statements m) q).errors.toList := by
    have hprefix := errors_prefix m q
    rwa [herrors] at hprefix
  have hback (tail : List Stmt) (h : Derives left ⟨tail⟩) :=
    Parsed.of_forgotten hbefore hs hmissing hfirst h supply
  suffices hforth : parsed.errors.head? = some error ∧
      (parsed.errors = [error] → ∃ tail, Derives left ⟨tail⟩) from
    ⟨hforth.1, ⟨hforth.2, fun ⟨tail, h⟩ => (hback tail h).1⟩, fun tail h => (hback tail h).2⟩
  cases h : Parse.statements m q with
  | error e q' =>
    have hparsed : parsed = ⟨⟨[]⟩, q'.errors.toList ++ [e], q'.supply⟩ := by
      simp only [parsed, Parsed.ofTokens, hrun, map_of_error h]
    rw [endState_of_error h] at hmore
    rw [hparsed, ← hmore]
    exact ⟨by simp, fun hone => by simp at hone⟩
  | ok body q' =>
    have hparsed : parsed = ⟨⟨ss ++ body⟩, q'.errors.toList, q'.supply⟩ := by
      simp only [parsed, Parsed.ofTokens, hrun, map_of_ok h]
    rw [endState_of_ok h] at hmore
    rw [hparsed]
    refine ⟨by simp [← hmore], fun hone => ⟨Stmt.bareAll body, ?_⟩⟩
    have hsize : q'.errors.size = q.errors.size := by
      rw [herrors]
      exact congrArg List.length hone
    have hderives := derives_of_statements h hends hsize
    rwa [hq] at hderives

/-- In the text `var a; print a return a; print b;` a semicolon is forgotten in front of `return`:
there is an error at that keyword and no other one, and `return a;` is left out. -/
theorem forgotten_semicolon_before_return :
    let token (kind : Token.Kind) (text : String) : Token := ⟨kind, text, none, .blank⟩
    let name (text : String) : Token := token .identifier text
    let semicolon : Token := token .semicolon ";"
    let before : List Token := [token .var "var", name "a", semicolon]
    let shortened : List Token := [token .print "print", name "a"]
    let first : Token := token .return "return"
    let others : List Token := [name "a", semicolon, token .print "print", name "b", semicolon]
    let last : Token := token .eof ""
    let declared : Stmt := .var "a" none .blank
    let printed (text : String) : Stmt := .print (.variable .blank text) .blank
    let parsed := Parsed.ofTokens .initial (before ++ shortened ++ first :: others ++ [last])
    Items before [declared] ∧ Declares (shortened ++ [semicolon]) (printed "a") ∧
      (printed "a").closing? = some .printEnd ∧ isBoundary first.kind = true ∧
      EndsOnce (before ++ shortened ++ first :: others ++ [last]) ∧
      parsed.errors = [.parse (.expected .printEnd) first] ∧
      parsed.program.bare = ⟨[declared, printed "b"]⟩ := by
  intro token name semicolon before shortened first others last declared printed parsed
  have hprint (text : String) :
      Declares ([token .print "print", name text] ++ [semicolon]) (printed text) :=
    .statement (.print rfl (.of_name rfl) rfl)
  have hbefore : Items before [declared] := .cons (.var (.bare rfl rfl rfl)) .nil
  have htokens : EndsOnce (before ++ shortened ++ first :: others ++ [last]) :=
    ⟨before ++ shortened ++ first :: others, last, rfl, rfl, by decide⟩
  have hleft : Derives (resume first (others ++ [last])) ⟨[printed "b"]⟩ :=
    .mk (.cons (hprint "b") .nil) rfl
  obtain ⟨-, honly, hprogram⟩ := forgotten_semicolon hbefore (hprint "a") rfl rfl htokens .initial
  exact ⟨hbefore, hprint "a", rfl, rfl, htokens, honly.2 ⟨_, hleft⟩, hprogram _ hleft⟩

/-- In the text `print a fun f() { return a; }` a semicolon is forgotten in front of `fun`.  Only
that keyword and the head of the function are skipped, and so there is another error, at the brace
that closes its body. -/
theorem forgotten_semicolon_before_function :
    let token (kind : Token.Kind) (text : String) : Token := ⟨kind, text, none, .blank⟩
    let name (text : String) : Token := token .identifier text
    let semicolon : Token := token .semicolon ";"
    let shortened : List Token := [token .print "print", name "a"]
    let first : Token := token .fun "fun"
    let others : List Token :=
      [name "f", token .leftParen "(", token .rightParen ")", token .leftBrace "\x7b",
        token .return "return", name "a", semicolon, token .rightBrace "\x7d"]
    let last : Token := token .eof ""
    let value : Expr := .variable .blank "a"
    let decl : FunctionDecl := .mk 0 "f" [] [.return (some value) .blank] .blank
    let parsed := Parsed.ofTokens .initial (shortened ++ first :: others ++ [last])
    Declares (shortened ++ [semicolon]) (.print value .blank) ∧
      Items (first :: others) [.function decl .blank] ∧ isBoundary first.kind = true ∧
      EndsOnce (shortened ++ first :: others ++ [last]) ∧
      parsed.errors.map (fun e => (e.location, e.message)) =
        [("at 'fun'", "expected ';' after value"), ("at '\x7d'", "expected expression")] := by
  intro token name semicolon shortened first others last value decl parsed
  have hvalue : Reads .assignment [name "a"] value := .of_name rfl
  have hprint : Declares (shortened ++ [semicolon]) (.print value .blank) :=
    .statement (.print rfl hvalue rfl)
  have hreturn : States false ([token .return "return", name "a"] ++ [semicolon])
      (.return (some value) .blank) := .return rfl (.some hvalue) rfl
  have hdecl : Defines others decl :=
    .mk rfl rfl .none rfl rfl (.cons (.statement hreturn) .nil) rfl
  have htokens : EndsOnce (shortened ++ first :: others ++ [last]) :=
    ⟨shortened ++ first :: others, last, rfl, rfl, by decide⟩
  exact ⟨hprint, .cons (.function rfl hdecl) .nil, rfl, htokens, by decide +kernel⟩

/-- If the semicolon is forgotten in front of a variable declaration, a print or a return
statement, that statement is left out, and there is no other error. -/
theorem forgotten_semicolon_before_simple {second : List Token} {d : Stmt} {tail : List Stmt}
    (hbefore : Items before statements) (hs : Declares (shortened ++ [semicolon]) s)
    (hmissing : s.closing? = some missing) (hsecond : Declares (first :: second) d)
    (hsimple : d.isSimple = true) (hfirst : isBoundary first.kind = true)
    (hothers : Items others tail) (hlast : last.kind = .eof) (supply : Supply) :
    let parsed :=
      Parsed.ofTokens supply (before ++ shortened ++ first :: (second ++ others) ++ [last])
    parsed.errors = [.parse (.expected missing) first] ∧
      parsed.program.bare = ⟨statements ++ tail⟩ := by
  have hleft : resume first (second ++ others ++ [last]) = others ++ [last] := by
    rw [List.append_assoc]
    exact resume_of_simple hsecond hsimple hfirst (by simp)
  refine Parsed.of_forgotten hbefore hs hmissing hfirst ?_ supply
  rw [hleft]
  exact .mk hothers hlast

end

end Lox
