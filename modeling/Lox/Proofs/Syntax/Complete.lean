import Lox.Proofs.Syntax.CompleteExpression
import Lox.Proofs.Syntax.Sound

/-!
# Programs of the grammar are read

If the grammar derives a tree for a list of tokens, that list is read without error, and
the tree that is read is the derived one (`Parsed.complete`).  Together with soundness,
reading and the grammar agree (`program_read_iff_derived`).

**Budget.** Reading a list of tokens needs a budget of twenty for each token.  Every
statement says how much of it may have been used up on the way to its action.
-/

namespace Lox

namespace Parse

open Grammar

/-! ## Parts of statements -/

/-- An expression in front of a token that cannot go on with it. -/
theorem answers_expression {ts us : List Token} {e : Expr} {n : Nat} {p : Parser}
    {t : Token} (h : Reads .assignment ts e) (hn : 20 * ts.length ≤ n)
    (hp : p.rest = ts ++ t :: us) (ht : strength? t.kind = none) :
    Answers [] (expression n) p (fun e' => e'.bare = e) (t :: us) :=
  accepted_of_reads h n p (t :: us) hn hp (by simp) (.of_kind ht)

theorem answers_expressionStatement {ts us : List Token} {s : Stmt} {n : Nat}
    {p : Parser} (h : ExpressionStatement ts s) (hn : 20 * ts.length ≤ n + 20)
    (hp : p.rest = ts ++ us) (hus : us ≠ []) :
    Answers [] (expressionStatement n) p (fun s' => s'.bare = s) us := by
  obtain ⟨hvalue, hsemicolon⟩ := h
  next ts semicolon value =>
  simp only [List.length_append, List.length_cons, List.length_nil] at hn
  have hp' : p.rest = ts ++ semicolon :: us := by simpa using hp
  refine (answers_expression hvalue (by omega) hp' (by rw [hsemicolon]; rfl)).bind
    fun e p₁ he hp₁ => ?_
  refine .expect_bind hp₁ hus hsemicolon (by decide) fun p₂ hp₂ => ?_
  refine .before_bind fun span => .pure ?_ hp₂
  rw [Stmt.bare, he]

theorem answers_varDeclaration {ts us : List Token} {s : Stmt} {n : Nat} {p : Parser}
    (h : VarDeclaration ts s) (hn : 20 * ts.length ≤ n + 20) (hp : p.rest = ts ++ us)
    (hus : us ≠ []) : Answers [] (varDeclaration n) p (fun s' => s'.bare = s) us := by
  cases h with
  | @bare word name semicolon hword hname hsemicolon =>
    have hp' : p.rest = word :: name :: semicolon :: us := hp
    refine .here_bind fun start => .advance_bind hp' (by simp) (by simp [hword])
      fun p₁ hp₁ => ?_
    refine .expectName_bind hp₁ (by simp) hname fun p₂ hp₂ => ?_
    refine .refuse_bind hp₂ (by rw [At.cons_iff, hsemicolon]; decide) ?_
    dsimp only
    rw [if_neg Bool.false_ne_true, pure_bind]
    refine .expect_bind hp₂ hus hsemicolon (by decide) fun p₃ hp₃ => ?_
    exact .spanFrom_bind fun span => .pure rfl hp₃
  | @initialized word name equals semicolon ts value hword hname hequals hvalue hsemicolon =>
    simp only [List.length_append, List.length_cons, List.length_nil] at hn
    have hp' : p.rest = word :: name :: equals :: (ts ++ semicolon :: us) := by
      simpa using hp
    refine .here_bind fun start => .advance_bind hp' (by simp) (by simp [hword])
      fun p₁ hp₁ => ?_
    refine .expectName_bind hp₁ (by simp) hname fun p₂ hp₂ => ?_
    refine .accept_bind hp₂ (by simp) hequals (by decide) fun p₃ hp₃ => ?_
    have hexpression :=
      answers_expression hvalue (n := n) (by omega) hp₃ (by rw [hsemicolon]; rfl)
    refine (hexpression.map (P := fun o => o.map Expr.bare = some value)
      fun e he => by rw [Option.map_some, he]).bind fun o p₄ ho hp₄ => ?_
    refine .expect_bind hp₄ hus hsemicolon (by decide) fun p₅ hp₅ => ?_
    refine .spanFrom_bind fun span => .pure ?_ hp₅
    rw [Stmt.bare, ho]

theorem answers_printStatement {word semicolon : Token} {ts us : List Token}
    {value : Expr} {n : Nat} {p : Parser} (hword : word.kind = .print)
    (hvalue : Reads .assignment ts value) (hsemicolon : semicolon.kind = .semicolon)
    (hn : 20 * ts.length ≤ n) (hp : p.rest = word :: ts ++ [semicolon] ++ us)
    (hus : us ≠ []) :
    Answers [] (printStatement n) p (fun s => s.bare = .print value .blank) us := by
  have hp' : p.rest = word :: (ts ++ semicolon :: us) := by simpa using hp
  refine .here_bind fun start => .advance_bind hp' (by simp) (by simp [hword])
    fun p₁ hp₁ => ?_
  refine (answers_expression hvalue hn hp₁ (by rw [hsemicolon]; rfl)).bind
    fun e p₂ he hp₂ => ?_
  refine .expect_bind hp₂ hus hsemicolon (by decide) fun p₃ hp₃ => ?_
  refine .spanFrom_bind fun span => .pure ?_ hp₃
  rw [Stmt.bare, he]

/-- An expression that may be missing, in front of a token of a given kind. -/
theorem answers_maybe {β : Type} {kind : Token.Kind} {t : Token}
    {ts us vs blamed : List Token} {value : Option Expr} {n : Nat} {p : Parser}
    {f : Option Expr → Parse β} {P : β → Prop} (h : Maybe ts value) (hn : 20 * ts.length ≤ n)
    (hp : p.rest = ts ++ t :: us) (ht : t.kind = kind) (hkind : strength? kind = none)
    (hbegins : begins .assignment kind = false)
    (hf : ∀ value' p₁, value'.map Expr.bare = value → p₁.rest = t :: us →
      Answers blamed (f value') p₁ P vs) :
    Answers blamed
      (do
        let value ← if (← peek) = kind then pure none else some <$> expression n
        f value)
      p P vs := by
  cases h with
  | none =>
    refine .peek_bind hp ?_
    dsimp only
    rw [if_pos ht, pure_bind]
    exact hf none p rfl hp
  | some hvalue =>
    obtain ⟨first, others, rfl, hfirst⟩ := begins_of_reads hvalue
    have hne : first.kind ≠ kind := by
      intro heq
      rw [heq, hbegins] at hfirst
      cases hfirst
    refine .peek_bind hp ?_
    dsimp only
    rw [if_neg hne]
    have hexpression := answers_expression hvalue hn hp (ht ▸ hkind)
    refine (hexpression.map (P := fun o => o.map Expr.bare = some _)
      fun e he => by rw [Option.map_some, he]).bind fun o p₁ ho hp₁ => ?_
    exact hf o p₁ ho hp₁

theorem answers_returnStatement {word semicolon : Token} {ts us : List Token}
    {value : Option Expr} {n : Nat} {p : Parser} (hword : word.kind = .return)
    (hvalue : Maybe ts value) (hsemicolon : semicolon.kind = .semicolon)
    (hn : 20 * ts.length ≤ n) (hp : p.rest = word :: ts ++ [semicolon] ++ us)
    (hus : us ≠ []) :
    Answers [] (returnStatement n) p (fun s => s.bare = .return value .blank) us := by
  have hp' : p.rest = word :: (ts ++ semicolon :: us) := by simpa using hp
  refine .here_bind fun start => .advance_bind hp' (by simp) (by simp [hword])
    fun p₁ hp₁ => ?_
  refine answers_maybe hvalue hn hp₁ hsemicolon rfl rfl fun value' p₂ hvalue' hp₂ => ?_
  refine .expect_bind hp₂ hus hsemicolon (by decide) fun p₃ hp₃ => ?_
  refine .spanFrom_bind fun span => .pure ?_ hp₃
  rw [Stmt.bare, hvalue']

theorem answers_forInitializer {ts us : List Token} {initializer : Option Stmt}
    {n : Nat} {p : Parser} (h : LoopStart ts initializer) (hn : 20 * ts.length ≤ n + 20)
    (hp : p.rest = ts ++ us) (hus : us ≠ []) :
    Answers [] (forInitializer n) p (fun s => s.map Stmt.bare = initializer) us := by
  cases h with
  | none hsemicolon =>
    exact .accept_bind hp hus hsemicolon (by decide) fun p₁ hp₁ => .pure rfl hp₁
  | var hvar =>
    have hdeclaration := answers_varDeclaration hvar hn hp hus
    obtain ⟨word, ts, rfl, hword⟩ : ∃ word ts', ts = word :: ts' ∧ word.kind = .var := by
      cases hvar with
      | bare hword _ _ => exact ⟨_, _, rfl, hword⟩
      | initialized hword _ _ _ _ => exact ⟨_, _, rfl, hword⟩
    refine .refuse_bind hp (by rw [List.cons_append, At.cons_iff, hword]; decide) ?_
    refine .peek_bind hp ?_
    rw [if_pos hword]
    exact hdeclaration.map fun s hs => by rw [Option.map_some, hs]
  | expression hexpression =>
    have hstatement := answers_expressionStatement hexpression hn hp hus
    obtain ⟨first, ts, rfl, hfirst⟩ : Begins .assignment ts := by
      obtain ⟨hvalue, -⟩ := hexpression
      exact (begins_of_reads hvalue).append _
    have hbegins : Begins .assignment (first :: ts) := ⟨first, ts, rfl, hfirst⟩
    refine .refuse_bind hp ((hbegins.append us).not_at rfl) ?_
    refine .peek_bind hp ?_
    have hne : first.kind ≠ .var := by
      intro heq
      rw [heq] at hfirst
      cases hfirst
    rw [if_neg hne]
    exact hstatement.map fun s hs => by rw [Option.map_some, hs]

theorem answers_forCondition {ts us : List Token} {semicolon : Token}
    {value : Option Expr} {n : Nat} {p : Parser} (h : Maybe ts value)
    (hn : 20 * ts.length ≤ n) (hp : p.rest = ts ++ semicolon :: us)
    (hsemicolon : semicolon.kind = .semicolon) :
    Answers [] (forCondition n) p (fun e => e.bare = value.getD always) (semicolon :: us) := by
  cases h with
  | none =>
    refine .peek_bind hp ?_
    rw [if_pos hsemicolon]
    exact .here_bind fun span => .freshNode_bind fun node p₁ hp₁ => .pure rfl (hp₁.trans hp)
  | some hvalue =>
    have hexpression := answers_expression hvalue hn hp (by rw [hsemicolon]; rfl)
    obtain ⟨first, ts, rfl, hfirst⟩ := begins_of_reads hvalue
    have hne : first.kind ≠ .semicolon := by
      intro heq
      rw [heq] at hfirst
      cases hfirst
    refine .peek_bind hp ?_
    rw [if_neg hne]
    exact hexpression

theorem answers_parameterNames {ts us : List Token} {names : List String} {n count : Nat}
    {p : Parser} (h : Names ts names) (hn : ts.length ≤ n)
    (hcount : count + names.length ≤ 255) (hp : p.rest = ts ++ us) (hat : At .rightParen us) :
    Answers [] (parameterNames n count) p (fun names' => names' = names) us := by
  induction h generalizing n count p with
  | @one name hname =>
    obtain ⟨right, us, rfl, hright⟩ := hat
    simp only [List.length_cons, List.length_nil] at hn hcount
    have hp' : p.rest = name :: right :: us := hp
    obtain ⟨m, rfl⟩ : ∃ m, n = m + 1 := ⟨n - 1, by omega⟩
    rw [parameterNames, if_neg (by unfold maxArguments; omega)]
    refine .expectName_bind hp' (by simp) hname fun p₁ hp₁ => ?_
    refine .refuse_bind hp₁ ?_ (.pure rfl hp₁)
    rw [At.cons_iff, hright]
    decide
  | more hname hcomma hnames ih =>
    simp only [List.length_cons] at hn hcount
    obtain ⟨m, rfl⟩ : ∃ m, n = m + 1 := ⟨n - 1, by omega⟩
    rw [parameterNames, if_neg (by unfold maxArguments; omega)]
    refine .expectName_bind hp (by simp) hname fun p₁ hp₁ => ?_
    refine .accept_bind hp₁ (by simp [hat.ne_nil]) hcomma (by decide) fun p₂ hp₂ => ?_
    have hothers : Answers [] (parameterNames m (count + 1)) p₂ _ us :=
      ih (by omega) (by omega) hp₂
    refine hothers.bind fun names' p₃ hnames' hp₃ => .pure ?_ hp₃
    rw [hnames']

theorem answers_parameters {ts us : List Token} {right : Token} {params : List String}
    {n : Nat} {p : Parser} (h : Parameters ts params) (hn : ts.length ≤ n)
    (hp : p.rest = ts ++ right :: us) (hright : right.kind = .rightParen) (hus : us ≠ []) :
    Answers [] (parameters n) p (fun params' => params' = params) us := by
  cases h with
  | none =>
    refine .peek_bind hp ?_
    dsimp only
    rw [if_pos hright, pure_bind]
    exact .expect_bind hp hus hright (by decide) fun p₁ hp₁ => .pure rfl hp₁
  | some hnames hlength =>
    have hread := @answers_parameterNames _ _ _ n 0 p hnames hn (by omega) hp
      (At.cons_iff.2 hright)
    obtain ⟨first, ts, rfl, hfirst⟩ :
        ∃ first ts', ts = first :: ts' ∧ first.kind = .identifier := by
      cases hnames with
      | one hname => exact ⟨_, _, rfl, hname⟩
      | more hname _ _ => exact ⟨_, _, rfl, hname⟩
    refine .peek_bind hp ?_
    dsimp only
    rw [if_neg (by rw [hfirst]; decide)]
    refine hread.bind fun params' p₁ hparams hp₁ => ?_
    exact .expect_bind hp₁ hus hright (by decide) fun p₂ hp₂ => .pure hparams hp₂

/-! ## Statements -/

/-- The kinds of tokens with which a statement can begin that is no declaration. -/
def beginsStatement (kind : Token.Kind) : Bool :=
  match kind with
  | .print | .return | .leftBrace | .if | .while | .for => true
  | kind => begins .assignment kind

/-- The kinds of tokens with which a declaration or statement can begin. -/
def beginsDeclaration (kind : Token.Kind) : Bool :=
  match kind with
  | .class | .fun | .var => true
  | kind => beginsStatement kind

theorem begins_of_expressionStatement {ts : List Token} {s : Stmt}
    (h : ExpressionStatement ts s) : Begins .assignment ts := by
  obtain ⟨hvalue, -⟩ := h
  exact (begins_of_reads hvalue).append _

theorem beginsStatement_of_begins {kind : Token.Kind}
    (h : begins .assignment kind = true) : beginsStatement kind = true := by
  cases kind <;> first | rfl | cases h

theorem beginsDeclaration_of_beginsStatement {kind : Token.Kind}
    (h : beginsStatement kind = true) : beginsDeclaration kind = true := by
  cases kind <;> first | rfl | cases h

theorem begins_of_states {isOpen : Bool} {ts : List Token} {s : Stmt}
    (h : States isOpen ts s) : ∃ t us, ts = t :: us ∧ beginsStatement t.kind = true := by
  cases h with
  | expression hexpression =>
    obtain ⟨t, us, rfl, ht⟩ := begins_of_expressionStatement hexpression
    exact ⟨t, us, rfl, beginsStatement_of_begins ht⟩
  | print hword => exact ⟨_, _, rfl, by rw [hword]; rfl⟩
  | «return» hword => exact ⟨_, _, rfl, by rw [hword]; rfl⟩
  | block hleft => exact ⟨_, _, rfl, by rw [hleft]; rfl⟩
  | ifThen hword => exact ⟨_, _, rfl, by rw [hword]; rfl⟩
  | ifElse hword => exact ⟨_, _, rfl, by rw [hword]; rfl⟩
  | «while» hword => exact ⟨_, _, rfl, by rw [hword]; rfl⟩
  | «for» hword => exact ⟨_, _, rfl, by rw [hword]; rfl⟩

theorem begins_of_declares {ts : List Token} {s : Stmt} (h : Declares ts s) :
    ∃ t us, ts = t :: us ∧ beginsDeclaration t.kind = true := by
  cases h with
  | «class» hword => exact ⟨_, _, rfl, by rw [hword]; rfl⟩
  | function hword => exact ⟨_, _, rfl, by rw [hword]; rfl⟩
  | var hvar =>
    cases hvar with
    | bare hword => exact ⟨_, _, rfl, by rw [hword]; rfl⟩
    | initialized hword => exact ⟨_, _, rfl, by rw [hword]; rfl⟩
  | statement hstates =>
    obtain ⟨t, us, rfl, ht⟩ := begins_of_states hstates
    exact ⟨t, us, rfl, beginsDeclaration_of_beginsStatement ht⟩

/-- Given enough budget, a declaration or statement is read from these tokens, with errors at
those to be blamed. -/
def AcceptedDeclaration (blamed ts : List Token) (s : Stmt) : Prop :=
  ∀ (n : Nat) (p : Parser) (us : List Token), 20 * ts.length ≤ n → p.rest = ts ++ us →
    us ≠ [] → ¬ At .else us → Answers blamed (declaration n) p (fun s' => s'.bare = s) us

/-- Given enough budget, a statement is read from these tokens.  No `else` may follow
an open one. -/
def AcceptedStatement (blamed : List Token) (isOpen : Bool) (ts : List Token) (s : Stmt) :
    Prop :=
  ∀ (n : Nat) (p : Parser) (us : List Token), 20 * ts.length ≤ n + 1 →
    p.rest = ts ++ us → us ≠ [] → (isOpen = true → ¬ At .else us) →
      Answers blamed (statement n) p (fun s' => s'.bare = s) us

/-- Given enough budget, a function is read from these tokens. -/
def AcceptedFunction (blamed ts : List Token) (f : FunctionDecl) : Prop :=
  ∀ (n : Nat) (role : FunctionRole) (p : Parser) (us : List Token),
    20 * ts.length ≤ n → p.rest = ts ++ us → us ≠ [] →
      Answers blamed (function n role) p (fun f' => f'.bare = f) us

/-- Given enough budget, the statements of a block and those of a program are read from
these tokens. -/
def AcceptedItems (blamed ts : List Token) (ss : List Stmt) : Prop :=
  ∀ (n : Nat) (p : Parser) (us : List Token), 20 * ts.length + 20 ≤ n → p.rest = ts ++ us →
    (At .rightBrace us →
      Answers blamed (blockItems n) p (fun ss' => Stmt.bareAll ss' = ss) us) ∧
    (At .eof us → Answers blamed (statements n) p (fun ss' => Stmt.bareAll ss' = ss) us)

/-- Given enough budget, methods are read from these tokens. -/
def AcceptedMethods (blamed ts : List Token) (fs : List FunctionDecl) : Prop :=
  ∀ (n : Nat) (p : Parser) (us : List Token), 20 * ts.length + 1 ≤ n → p.rest = ts ++ us →
    At .rightBrace us →
      Answers blamed (methods n) p (fun fs' => FunctionDecl.bareAll fs' = fs) us

theorem declaration_eq_statement {p : Parser} {t : Token} {ts : List Token}
    (hp : p.rest = t :: ts) (ht : beginsStatement t.kind = true) (n : Nat) :
    declaration (n + 1) p = statement n p := by
  rw [declaration, bind_of_ok (peek_apply p), Parser.kind_eq hp]
  generalize t.kind = kind at ht
  cases kind <;> first | rfl | cases ht

theorem statement_eq_expressionStatement {p : Parser} {t : Token} {ts : List Token}
    (hp : p.rest = t :: ts) (ht : begins .assignment t.kind = true) (n : Nat) :
    statement (n + 1) p = expressionStatement n p := by
  rw [statement, bind_of_ok (peek_apply p), Parser.kind_eq hp]
  generalize t.kind = kind at ht
  cases kind <;> first | rfl | cases ht

/-- A token that begins a statement leads to the action that reads it. -/
theorem accepted_statement {blamed : List Token} {isOpen : Bool} {t : Token}
    {ts rest : List Token} {s : Stmt} {x : Nat → Parse Stmt} (hts : ts = t :: rest)
    (hstep : ∀ (n : Nat) (p : Parser) (us : List Token), p.rest = t :: us →
      statement (n + 1) p = x n p)
    (hx : ∀ (n : Nat) (p : Parser) (us : List Token), 20 * ts.length ≤ n + 2 →
      p.rest = ts ++ us → us ≠ [] → (isOpen = true → ¬ At .else us) →
        Answers blamed (x n) p (fun s' => s'.bare = s) us) :
    AcceptedStatement blamed isOpen ts s := by
  intro n p us hn hp hus helse
  have hp' : p.rest = t :: (rest ++ us) := by rw [hp, hts, List.cons_append]
  have hpos : 0 < ts.length := by simp [hts]
  obtain ⟨m, rfl⟩ : ∃ m, n = m + 1 := ⟨n - 1, by omega⟩
  exact .of_eq (hstep m p _ hp') rfl (hx m p us (by omega) hp hus helse)

theorem accepted_expressionStatement {ts : List Token} {s : Stmt}
    (h : ExpressionStatement ts s) : AcceptedStatement [] false ts s := by
  obtain ⟨t, ts, rfl, ht⟩ := begins_of_expressionStatement h
  refine accepted_statement (x := expressionStatement) rfl ?_ ?_
  · exact fun n p us hp => statement_eq_expressionStatement hp ht n
  · intro n p us hn hp hus _
    exact answers_expressionStatement h (by omega) hp hus

theorem accepted_print {word semicolon : Token} {ts : List Token} {value : Expr}
    (hword : word.kind = .print) (hvalue : Reads .assignment ts value)
    (hsemicolon : semicolon.kind = .semicolon) :
    AcceptedStatement [] false (word :: ts ++ [semicolon]) (.print value .blank) := by
  refine accepted_statement (x := printStatement) rfl ?_ ?_
  · intro n p us hp
    rw [statement, bind_of_ok (peek_apply p), Parser.kind_eq hp, hword]
  · intro n p us hn hp hus _
    simp only [List.length_append, List.length_cons, List.length_nil] at hn
    exact answers_printStatement hword hvalue hsemicolon (by omega) hp hus

theorem accepted_return {word semicolon : Token} {ts : List Token} {value : Option Expr}
    (hword : word.kind = .return) (hvalue : Maybe ts value)
    (hsemicolon : semicolon.kind = .semicolon) :
    AcceptedStatement [] false (word :: ts ++ [semicolon]) (.return value .blank) := by
  refine accepted_statement (x := returnStatement) rfl ?_ ?_
  · intro n p us hp
    rw [statement, bind_of_ok (peek_apply p), Parser.kind_eq hp, hword]
  · intro n p us hn hp hus _
    simp only [List.length_append, List.length_cons, List.length_nil] at hn
    exact answers_returnStatement hword hvalue hsemicolon (by omega) hp hus

/-- The statements of a block with its closing brace. -/
theorem answers_blockBody {ts us blamed : List Token} {right : Token} {body : List Stmt}
    {n : Nat} {p : Parser} (h : AcceptedItems blamed ts body) (hn : 20 * ts.length + 21 ≤ n)
    (hp : p.rest = ts ++ right :: us) (hright : right.kind = .rightBrace) (hus : us ≠ []) :
    Answers blamed (blockBody n) p (fun body' => Stmt.bareAll body' = body) us := by
  obtain ⟨m, rfl⟩ : ∃ m, n = m + 1 := ⟨n - 1, by omega⟩
  rw [blockBody]
  have hitems := (h m p (right :: us) (by omega) hp).1 (At.cons_iff.2 hright)
  refine hitems.bind_last fun body' p₁ hbody hp₁ => ?_
  exact .expect_bind hp₁ hus hright (by decide) fun p₂ hp₂ => .pure hbody hp₂

theorem accepted_block {left right : Token} {ts blamed : List Token} {body : List Stmt}
    (hleft : left.kind = .leftBrace) (hbody : AcceptedItems blamed ts body)
    (hright : right.kind = .rightBrace) :
    AcceptedStatement blamed false (left :: ts ++ [right]) (.block body .blank) := by
  refine accepted_statement (x := block) rfl ?_ ?_
  · intro n p us hp
    rw [statement, bind_of_ok (peek_apply p), Parser.kind_eq hp, hleft]
  · intro n p us hn hp hus _
    simp only [List.length_append, List.length_cons, List.length_nil] at hn
    have hp' : p.rest = left :: (ts ++ right :: us) := by simpa using hp
    obtain ⟨m, rfl⟩ : ∃ m, n = m + 1 := ⟨n - 1, by omega⟩
    rw [block]
    refine .here_bind fun start => .advance_bind hp' (by simp) (by simp [hleft])
      fun p₁ hp₁ => ?_
    refine (answers_blockBody hbody (by omega) hp₁ hright hus).bind_last
      fun body' p₂ hbody' hp₂ => ?_
    refine .spanFrom_bind fun span => .pure ?_ hp₂
    rw [Stmt.bare, hbody']

/-- The condition of a statement in its parentheses. -/
theorem answers_condition {β : Type} {word left right : Token} {ts us vs blamed : List Token}
    {condition : Expr} {n : Nat} {p : Parser} {start stop : Missing}
    {f : Span → Expr → Parse β} {P : β → Prop} (hword : word.kind ≠ .eof)
    (hleft : left.kind = .leftParen) (h : Reads .assignment ts condition)
    (hright : right.kind = .rightParen) (hn : 20 * ts.length ≤ n)
    (hp : p.rest = word :: left :: (ts ++ right :: us)) (hus : us ≠ [])
    (hf : ∀ span condition' p₁, condition'.bare = condition → p₁.rest = us →
      Answers blamed (f span condition') p₁ P vs) :
    Answers blamed
      (do
        let span ← here
        advance
        expect .leftParen start
        let condition ← expression n
        expect .rightParen stop
        f span condition)
      p P vs := by
  refine .here_bind fun span => .advance_bind hp (by simp) hword fun p₁ hp₁ => ?_
  refine .expect_bind hp₁ (by simp) hleft (by decide) fun p₂ hp₂ => ?_
  refine (answers_expression h hn hp₂ (by rw [hright]; rfl)).bind
    fun condition' p₃ hcondition hp₃ => ?_
  refine .expect_bind hp₃ hus hright (by decide) fun p₄ hp₄ => ?_
  exact hf span condition' p₄ hcondition hp₄

theorem accepted_ifThen {word left right : Token} {ts us blamed : List Token}
    {condition : Expr} {thenBranch : Stmt} {isOpen : Bool} (hword : word.kind = .if)
    (hleft : left.kind = .leftParen) (hcondition : Reads .assignment ts condition)
    (hright : right.kind = .rightParen) (hus : us ≠ [])
    (hthen : AcceptedStatement blamed isOpen us thenBranch) :
    AcceptedStatement blamed true (word :: left :: ts ++ right :: us)
      (.ifElse condition thenBranch none .blank) := by
  refine accepted_statement (x := ifStatement) rfl ?_ ?_
  · intro n p us hp
    rw [statement, bind_of_ok (peek_apply p), Parser.kind_eq hp, hword]
  · intro n p vs hn hp hvs helse
    simp only [List.length_append, List.length_cons] at hn
    have hp' : p.rest = word :: left :: (ts ++ right :: (us ++ vs)) := by simpa using hp
    obtain ⟨m, rfl⟩ : ∃ m, n = m + 1 := ⟨n - 1, by omega⟩
    rw [ifStatement]
    refine answers_condition (by simp [hword]) hleft hcondition hright (by omega) hp'
      (by simp [hus]) fun start condition' p₁ hcondition' hp₁ => ?_
    have hbranch := hthen m p₁ vs (by omega) hp₁ hvs fun _ => helse rfl
    refine hbranch.bind_last fun thenBranch' p₂ hthen' hp₂ => ?_
    refine .refuse_bind hp₂ (helse rfl) ?_
    dsimp only
    rw [if_neg Bool.false_ne_true, pure_bind]
    refine .spanFrom_bind fun span => .pure ?_ hp₂
    rw [Stmt.bare, hcondition', hthen']

theorem accepted_ifElse {word left right other : Token}
    {ts us vs blamed blamed' : List Token}
    {condition : Expr} {thenBranch elseBranch : Stmt} {isOpen : Bool}
    (hword : word.kind = .if) (hleft : left.kind = .leftParen)
    (hcondition : Reads .assignment ts condition) (hright : right.kind = .rightParen)
    (hthen : AcceptedStatement blamed false us thenBranch) (hother : other.kind = .else)
    (helse : AcceptedStatement blamed' isOpen vs elseBranch) :
    AcceptedStatement (blamed ++ blamed') isOpen (word :: left :: ts ++ right :: us ++ other :: vs)
      (.ifElse condition thenBranch (some elseBranch) .blank) := by
  refine accepted_statement (x := ifStatement) rfl ?_ ?_
  · intro n p us hp
    rw [statement, bind_of_ok (peek_apply p), Parser.kind_eq hp, hword]
  · intro n p ws hn hp hws hnotElse
    simp only [List.length_append, List.length_cons] at hn
    have hp' : p.rest = word :: left :: (ts ++ right :: (us ++ other :: (vs ++ ws))) := by
      simpa using hp
    obtain ⟨m, rfl⟩ : ∃ m, n = m + 1 := ⟨n - 1, by omega⟩
    rw [ifStatement]
    refine answers_condition (by simp [hword]) hleft hcondition hright (by omega) hp'
      (by simp) fun start condition' p₁ hcondition' hp₁ => ?_
    have hbranch := hthen m p₁ (other :: (vs ++ ws)) (by omega) hp₁ (by simp)
      fun hopen => by cases hopen
    refine hbranch.bind fun thenBranch' p₂ hthen' hp₂ => ?_
    refine .accept_bind hp₂ (by simp [hws]) hother (by decide) fun p₃ hp₃ => ?_
    have hbranch' := (helse m p₃ ws (by omega) hp₃ hws hnotElse).map
      (P := fun o => ∃ s, o = some s ∧ s.bare = elseBranch)
      fun s hs => ⟨s, rfl, hs⟩
    refine hbranch'.bind_last fun o p₄ ho hp₄ => ?_
    obtain ⟨elseBranch', rfl, helse'⟩ := ho
    refine .spanFrom_bind fun span => .pure ?_ hp₄
    rw [Stmt.bare, hcondition', hthen', helse']

theorem accepted_while {word left right : Token} {ts us blamed : List Token}
    {condition : Expr} {body : Stmt} {isOpen : Bool} (hword : word.kind = .while)
    (hleft : left.kind = .leftParen) (hcondition : Reads .assignment ts condition)
    (hright : right.kind = .rightParen) (hus : us ≠ [])
    (hbody : AcceptedStatement blamed isOpen us body) :
    AcceptedStatement blamed isOpen (word :: left :: ts ++ right :: us)
      (.while condition body .blank) := by
  refine accepted_statement (x := whileStatement) rfl ?_ ?_
  · intro n p us hp
    rw [statement, bind_of_ok (peek_apply p), Parser.kind_eq hp, hword]
  · intro n p vs hn hp hvs helse
    simp only [List.length_append, List.length_cons] at hn
    have hp' : p.rest = word :: left :: (ts ++ right :: (us ++ vs)) := by simpa using hp
    obtain ⟨m, rfl⟩ : ∃ m, n = m + 1 := ⟨n - 1, by omega⟩
    rw [whileStatement]
    refine answers_condition (by simp [hword]) hleft hcondition hright (by omega) hp'
      (by simp [hus]) fun start condition' p₁ hcondition' hp₁ => ?_
    refine (hbody m p₁ vs (by omega) hp₁ hvs helse).bind_last fun body' p₂ hbody' hp₂ => ?_
    refine .spanFrom_bind fun span => .pure ?_ hp₂
    rw [Stmt.bare, hcondition', hbody']

theorem accepted_for {word left semicolon right : Token} {ts us vs ws blamed : List Token}
    {initializer : Option Stmt} {condition increment : Option Expr} {body : Stmt}
    {isOpen : Bool} (hword : word.kind = .for) (hleft : left.kind = .leftParen)
    (hinitializer : LoopStart ts initializer) (hcondition : Maybe us condition)
    (hsemicolon : semicolon.kind = .semicolon) (hincrement : Maybe vs increment)
    (hright : right.kind = .rightParen) (hws : ws ≠ [])
    (hbody : AcceptedStatement blamed isOpen ws body) :
    AcceptedStatement blamed isOpen (word :: left :: ts ++ us ++ semicolon :: vs ++ right :: ws)
      (loopTree initializer (condition.getD always) increment body) := by
  refine accepted_statement (x := forStatement) rfl ?_ ?_
  · intro n p us hp
    rw [statement, bind_of_ok (peek_apply p), Parser.kind_eq hp, hword]
  · intro n p xs hn hp hxs helse
    simp only [List.length_append, List.length_cons] at hn
    have hp' : p.rest =
        word :: left :: (ts ++ (us ++ semicolon :: (vs ++ right :: (ws ++ xs)))) := by
      simpa using hp
    obtain ⟨m, rfl⟩ : ∃ m, n = m + 1 := ⟨n - 1, by omega⟩
    rw [forStatement]
    refine .here_bind fun start => .advance_bind hp' (by simp) (by simp [hword])
      fun p₁ hp₁ => ?_
    refine .expect_bind hp₁ (by simp) hleft (by decide) fun p₂ hp₂ => ?_
    refine (answers_forInitializer hinitializer (by omega) hp₂ (by simp)).bind
      fun initializer' p₃ hinitializer' hp₃ => ?_
    refine (answers_forCondition hcondition (by omega) hp₃ hsemicolon).bind
      fun condition' p₄ hcondition' hp₄ => ?_
    refine .expect_bind hp₄ (by simp) hsemicolon (by decide) fun p₅ hp₅ => ?_
    refine answers_maybe hincrement (by omega) hp₅ hright rfl rfl
      fun increment' p₆ hincrement' hp₆ => ?_
    refine .expect_bind hp₆ (by simp [hws]) hright (by decide) fun p₇ hp₇ => ?_
    refine (hbody m p₇ xs (by omega) hp₇ hxs helse).bind_last fun body' p₈ hbody' hp₈ => ?_
    refine .spanFrom_bind fun span => .pure ?_ hp₈
    rw [bare_forLoop, hinitializer', hcondition', hincrement', hbody']

/-! ## Declarations -/

theorem accepted_function {name left right leftBrace rightBrace : Token}
    {ts us blamed : List Token} {params : List String} {body : List Stmt}
    (hname : name.kind = .identifier) (hleft : left.kind = .leftParen)
    (hparams : Parameters ts params) (hright : right.kind = .rightParen)
    (hleftBrace : leftBrace.kind = .leftBrace) (hbody : AcceptedItems blamed us body)
    (hrightBrace : rightBrace.kind = .rightBrace) :
    AcceptedFunction blamed (name :: left :: ts ++ right :: leftBrace :: us ++ [rightBrace])
      (.mk 0 name.lexeme params body .blank) := by
  intro n role p vs hn hp hvs
  simp only [List.length_append, List.length_cons, List.length_nil] at hn
  have hp' : p.rest =
      name :: left :: (ts ++ right :: leftBrace :: (us ++ rightBrace :: vs)) := by
    simpa using hp
  obtain ⟨m, rfl⟩ : ∃ m, n = m + 1 := ⟨n - 1, by omega⟩
  rw [function]
  refine .here_bind fun start => .expectName_bind hp' (by simp) hname fun p₁ hp₁ => ?_
  refine .expect_bind hp₁ (by simp) hleft (by decide) fun p₂ hp₂ => ?_
  refine (answers_parameters hparams (by omega) hp₂ hright (by simp)).bind
    fun params' p₃ hparams' hp₃ => ?_
  refine .expect_bind hp₃ (by simp) hleftBrace (by decide) fun p₄ hp₄ => ?_
  refine (answers_blockBody hbody (by omega) hp₄ hrightBrace hvs).bind_last
    fun body' p₅ hbody' hp₅ => ?_
  refine .freshFunction_bind fun number p₆ hp₆ => .spanFrom_bind fun span => ?_
  refine .pure ?_ (hp₆.trans hp₅)
  rw [FunctionDecl.bare, hparams', hbody']

theorem acceptedMethods_nil : AcceptedMethods [] [] [] := by
  intro n p us hn hp hat
  obtain ⟨right, us, rfl, hright⟩ := hat
  obtain ⟨m, rfl⟩ : ∃ m, n = m + 1 := ⟨n - 1, by omega⟩
  rw [methods]
  refine .get_bind (.peek_bind hp ?_)
  rw [if_pos (by simp [hright])]
  exact .pure rfl hp

theorem acceptedMethods_cons {ts us blamed blamed' : List Token} {f : FunctionDecl}
    {fs : List FunctionDecl} (hts : ∃ t vs, ts = t :: vs ∧ t.kind = .identifier)
    (hf : AcceptedFunction blamed ts f) (hfs : AcceptedMethods blamed' us fs) :
    AcceptedMethods (blamed ++ blamed') (ts ++ us) (f :: fs) := by
  intro n p vs hn hp hat
  obtain ⟨t, ts, rfl, ht⟩ := hts
  simp only [List.length_append, List.length_cons] at hn
  have hp' : p.rest = t :: ts ++ (us ++ vs) := by simpa using hp
  have hkind : p.kind = .identifier := (Parser.kind_eq hp').trans ht
  obtain ⟨m, rfl⟩ : ∃ m, n = m + 1 := ⟨n - 1, by omega⟩
  rw [methods]
  refine .get_bind (.peek_bind hp' ?_)
  rw [if_neg (by simp [Parser.atEnd, hkind, ht])]
  have hmethod := hf m .method p (us ++ vs) (by simp only [List.length_cons]; omega) hp'
    (by simp [hat.ne_nil])
  refine hmethod.bind fun f' p₁ hf' hp₁ => ?_
  refine (hfs m p₁ vs (by omega) hp₁ hat).bind_last fun fs' p₂ hfs' hp₂ => .pure ?_ hp₂
  rw [FunctionDecl.bareAll, hf', hfs']

theorem acceptedItems_nil : AcceptedItems [] [] [] := by
  intro n p us hn hp
  obtain ⟨m, rfl⟩ : ∃ m, n = m + 1 := ⟨n - 1, by omega⟩
  constructor
  · rintro ⟨right, us, rfl, hright⟩
    rw [blockItems]
    refine .get_bind (.peek_bind hp ?_)
    rw [if_pos (by simp [hright])]
    exact .pure rfl hp
  · rintro ⟨last, us, rfl, hlast⟩
    have hkind : p.kind = .eof := (Parser.kind_eq hp).trans hlast
    rw [statements]
    refine .get_bind ?_
    rw [if_pos (by simp [Parser.atEnd, hkind])]
    exact .pure rfl hp

theorem acceptedItems_cons {ts us blamed blamed' : List Token} {s : Stmt} {ss : List Stmt}
    (hts : ∃ t vs, ts = t :: vs ∧ beginsDeclaration t.kind = true) (hus : ¬ At .else us)
    (hs : AcceptedDeclaration blamed ts s) (hss : AcceptedItems blamed' us ss) :
    AcceptedItems (blamed ++ blamed') (ts ++ us) (s :: ss) := by
  intro n p vs hn hp
  obtain ⟨t, ts, rfl, ht⟩ := hts
  simp only [List.length_append, List.length_cons] at hn
  have hp' : p.rest = t :: ts ++ (us ++ vs) := by simpa using hp
  have hkind : p.kind = t.kind := Parser.kind_eq hp'
  obtain ⟨m, rfl⟩ : ∃ m, n = m + 1 := ⟨n - 1, by omega⟩
  have hne {kind : Token.Kind} (h : beginsDeclaration kind = false) : t.kind ≠ kind := by
    intro heq
    rw [heq, h] at ht
    cases ht
  -- neither a brace nor the end nor another statement is an `else`
  have hfirst {kind : Token.Kind} (hat : At kind vs) (hkind : kind ≠ .else) :
      Answers blamed (declaration m) p (fun s' => s'.bare = s) (us ++ vs) := by
    refine hs m p (us ++ vs) (by simp only [List.length_cons]; omega) hp'
      (by simp [hat.ne_nil]) (At.not_append hus fun helse => hkind (hat.unique helse))
  constructor
  · intro hat
    rw [blockItems]
    refine .get_bind (.peek_bind hp' ?_)
    have hnotEnd : t.kind ≠ .eof := hne rfl
    have hnotBrace : t.kind ≠ .rightBrace := hne rfl
    rw [if_neg (by simp [Parser.atEnd, hkind, hnotEnd, hnotBrace])]
    refine (hfirst hat (by decide)).attempt.bind fun r p₁ hr hp₁ => ?_
    obtain ⟨s', rfl, hs'⟩ := hr
    refine ((hss m p₁ vs (by omega) hp₁).1 hat).bind_last fun ss' p₂ hss' hp₂ => .pure ?_ hp₂
    rw [Stmt.bareAll, hs', hss']
  · intro hat
    rw [statements]
    refine .get_bind ?_
    have hnotEnd : t.kind ≠ .eof := hne rfl
    rw [if_neg (by simp [Parser.atEnd, hkind, hnotEnd])]
    refine (hfirst hat (by decide)).attempt.bind fun r p₁ hr hp₁ => ?_
    obtain ⟨s', rfl, hs'⟩ := hr
    refine ((hss m p₁ vs (by omega) hp₁).2 hat).bind_last fun ss' p₂ hss' hp₂ => .pure ?_ hp₂
    rw [Stmt.bareAll, hs', hss']

theorem accepted_class {word name left right : Token} {ts blamed : List Token}
    {methods : List FunctionDecl} (hword : word.kind = .class)
    (hname : name.kind = .identifier) (hleft : left.kind = .leftBrace)
    (hmethods : AcceptedMethods blamed ts methods) (hright : right.kind = .rightBrace) :
    AcceptedDeclaration blamed (word :: name :: left :: ts ++ [right])
      (.class name.lexeme methods .blank) := by
  intro n p us hn hp hus _
  simp only [List.length_append, List.length_cons, List.length_nil] at hn
  have hp' : p.rest = word :: name :: left :: (ts ++ right :: us) := by simpa using hp
  obtain ⟨m, rfl⟩ : ∃ m, n = m + 2 := ⟨n - 2, by omega⟩
  rw [declaration]
  refine .peek_bind hp' ?_
  rw [hword]
  dsimp only
  rw [classDeclaration]
  refine .here_bind fun start => .advance_bind hp' (by simp) (by simp [hword])
    fun p₁ hp₁ => ?_
  refine .expectName_bind hp₁ (by simp) hname fun p₂ hp₂ => ?_
  refine .expect_bind hp₂ (by simp) hleft (by decide) fun p₃ hp₃ => ?_
  refine (hmethods m p₃ (right :: us) (by omega) hp₃ (At.cons_iff.2 hright)).bind_last
    fun methods' p₄ hmethods' hp₄ => ?_
  refine .expect_bind hp₄ hus hright (by decide) fun p₅ hp₅ => ?_
  refine .spanFrom_bind fun span => .pure ?_ hp₅
  rw [Stmt.bare, hmethods']

theorem accepted_functionDeclaration {word : Token} {ts blamed : List Token}
    {decl : FunctionDecl} (hword : word.kind = .fun) (hts : ts ≠ [])
    (hdecl : AcceptedFunction blamed ts decl) :
    AcceptedDeclaration blamed (word :: ts) (.function decl .blank) := by
  intro n p us hn hp hus _
  simp only [List.length_cons] at hn
  obtain ⟨m, rfl⟩ : ∃ m, n = m + 2 := ⟨n - 2, by omega⟩
  rw [declaration]
  refine .peek_bind hp ?_
  rw [hword]
  dsimp only
  rw [functionDeclaration]
  refine .here_bind fun start => .advance_bind hp (by simp [hts]) (by simp [hword])
    fun p₁ hp₁ => ?_
  refine (hdecl m .function p₁ us (by omega) hp₁ hus).bind_last fun decl' p₂ hdecl' hp₂ => ?_
  refine .spanFrom_bind fun span => .pure ?_ hp₂
  rw [Stmt.bare, hdecl']

theorem accepted_varDeclaration {ts : List Token} {s : Stmt} (h : VarDeclaration ts s) :
    AcceptedDeclaration [] ts s := by
  intro n p us hn hp hus _
  obtain ⟨word, ts, rfl, hword⟩ : ∃ word ts', ts = word :: ts' ∧ word.kind = .var := by
    cases h with
    | bare hword _ _ => exact ⟨_, _, rfl, hword⟩
    | initialized hword _ _ _ _ => exact ⟨_, _, rfl, hword⟩
  have hpos : 0 < (word :: ts).length := by simp
  obtain ⟨m, rfl⟩ : ∃ m, n = m + 1 := ⟨n - 1, by omega⟩
  rw [declaration]
  refine .peek_bind hp ?_
  rw [hword]
  exact answers_varDeclaration h (by omega) hp hus

theorem accepted_statementDeclaration {isOpen : Bool} {ts blamed : List Token} {s : Stmt}
    (hts : ∃ t us, ts = t :: us ∧ beginsStatement t.kind = true)
    (h : AcceptedStatement blamed isOpen ts s) : AcceptedDeclaration blamed ts s := by
  intro n p us hn hp hus helse
  obtain ⟨t, ts, rfl, ht⟩ := hts
  have hpos : 0 < (t :: ts).length := by simp
  obtain ⟨m, rfl⟩ : ∃ m, n = m + 1 := ⟨n - 1, by omega⟩
  exact .of_eq (declaration_eq_statement hp ht m) rfl (h m p us (by omega) hp hus fun _ => helse)

/-! ## Derived programs -/

theorem ne_nil_of_states {isOpen : Bool} {ts : List Token} {s : Stmt}
    (h : States isOpen ts s) : ts ≠ [] := by
  obtain ⟨t, us, rfl, -⟩ := begins_of_states h
  simp

theorem begins_of_defines {ts : List Token} {f : FunctionDecl} (h : Defines ts f) :
    ∃ t us, ts = t :: us ∧ t.kind = .identifier := by
  obtain ⟨hname, -⟩ := h
  exact ⟨_, _, rfl, hname⟩

theorem not_at_of_items {kind : Token.Kind} {ts : List Token} {ss : List Stmt}
    (h : Items ts ss) (hkind : beginsDeclaration kind = false) : ¬ At kind ts := by
  cases h with
  | nil => simp [At]
  | cons hfirst hothers =>
    obtain ⟨t, us, rfl, ht⟩ := begins_of_declares hfirst
    intro hat
    rw [At.cons_iff.1 hat, hkind] at ht
    cases ht

mutual
/-- Every derived declaration is read. -/
theorem accepted_of_declares {ts : List Token} {s : Stmt} :
    Declares ts s → AcceptedDeclaration [] ts s
  | .class hword hname hleft hmethods hright =>
    accepted_class hword hname hleft (accepted_of_methods hmethods) hright
  | .function hword hdecl => by
    have hts := begins_of_defines hdecl
    refine accepted_functionDeclaration hword ?_ (accepted_of_defines hdecl)
    rintro rfl
    obtain ⟨t, us, hcons, -⟩ := hts
    cases hcons
  | .var h => accepted_varDeclaration h
  | .statement h => accepted_statementDeclaration (begins_of_states h) (accepted_of_states h)

theorem accepted_of_states {isOpen : Bool} {ts : List Token} {s : Stmt} :
    States isOpen ts s → AcceptedStatement [] isOpen ts s
  | .expression h => accepted_expressionStatement h
  | .print hword hvalue hsemicolon => accepted_print hword hvalue hsemicolon
  | .return hword hvalue hsemicolon => accepted_return hword hvalue hsemicolon
  | .block hleft hbody hright => accepted_block hleft (accepted_of_items hbody) hright
  | .ifThen hword hleft hcondition hright hthen =>
    accepted_ifThen hword hleft hcondition hright (ne_nil_of_states hthen)
      (accepted_of_states hthen)
  | .ifElse hword hleft hcondition hright hthen hother helse =>
    accepted_ifElse hword hleft hcondition hright (accepted_of_states hthen) hother
      (accepted_of_states helse)
  | .while hword hleft hcondition hright hbody =>
    accepted_while hword hleft hcondition hright (ne_nil_of_states hbody)
      (accepted_of_states hbody)
  | .for hword hleft hinitializer hcondition hsemicolon hincrement hright hbody =>
    accepted_for hword hleft hinitializer hcondition hsemicolon hincrement hright
      (ne_nil_of_states hbody) (accepted_of_states hbody)

theorem accepted_of_defines {ts : List Token} {f : FunctionDecl} :
    Defines ts f → AcceptedFunction [] ts f
  | .mk hname hleft hparams hright hleftBrace hbody hrightBrace =>
    accepted_function hname hleft hparams hright hleftBrace (accepted_of_items hbody)
      hrightBrace

theorem accepted_of_items {ts : List Token} {ss : List Stmt} :
    Items ts ss → AcceptedItems [] ts ss
  | .nil => acceptedItems_nil
  | .cons hfirst hothers =>
    acceptedItems_cons (begins_of_declares hfirst) (not_at_of_items hothers rfl)
      (accepted_of_declares hfirst) (accepted_of_items hothers)

theorem accepted_of_methods {ts : List Token} {fs : List FunctionDecl} :
    Methods ts fs → AcceptedMethods [] ts fs
  | .nil => acceptedMethods_nil
  | .cons hfirst hothers =>
    acceptedMethods_cons (begins_of_defines hfirst) (accepted_of_defines hfirst)
      (accepted_of_methods hothers)
end

end Parse

/-! ## Programs -/

open Parse Grammar

/-- A program is read from these tokens, with errors at those to be blamed. -/
theorem Parsed.of_accepted {blamed ts : List Token} {body : List Stmt} {last : Token}
    (h : AcceptedItems blamed ts body) (hlast : last.kind = .eof) (supply : Supply) :
    (Parsed.ofTokens supply (ts ++ [last])).program.bare = ⟨body⟩ ∧
      Blames blamed (Parsed.ofTokens supply (ts ++ [last])).errors := by
  have hrest : (Parser.start supply (ts ++ [last])).rest = ts ++ [last] :=
    Parser.rest_start supply (by simp)
  have hbudget : 20 * ts.length + 20 ≤ budget (ts ++ [last]) := by
    simp only [budget, List.length_append, List.length_cons, List.length_nil]
    omega
  obtain ⟨body', p, es, hrun, hbody, -, herrors, hes⟩ :=
    (h _ _ [last] hbudget hrest).2 (At.cons_iff.2 hlast)
  rw [Parsed.ofTokens, hrun]
  refine ⟨?_, ?_⟩
  · simp only [Program.bare, hbody]
  · show Blames blamed p.errors.toList
    rwa [herrors, Parser.errors_start]

/-- A derived program is read without error. -/
theorem Parsed.complete {tokens : List Token} {tree : Program} (h : Derives tokens tree)
    (supply : Supply) :
    (Parsed.ofTokens supply tokens).errors = [] ∧
      (Parsed.ofTokens supply tokens).program.bare = tree := by
  obtain ⟨hstatements, hlast⟩ := h
  obtain ⟨hbare, herrors⟩ := Parsed.of_accepted (accepted_of_items hstatements) hlast supply
  exact ⟨herrors.eq_nil, hbare⟩

/-- The grammar derives at most one tree for a list of tokens. -/
theorem Grammar.Derives.unique {tokens : List Token} {tree tree' : Program}
    (h : Derives tokens tree) (h' : Derives tokens tree') : tree = tree' :=
  (Parsed.complete h .initial).2.symm.trans (Parsed.complete h' .initial).2

/-- Reading accepts exactly the lists of tokens that the grammar derives, and gives the
derived tree. -/
theorem program_read_iff_derived {tokens : List Token} (htokens : EndsOnce tokens)
    (tree : Program) :
    (∃ program, Program.ofTokens tokens = .ok program ∧ program.bare = tree) ↔
      Derives tokens tree := by
  unfold Program.ofTokens
  dsimp only
  constructor
  · rintro ⟨program, hread, rfl⟩
    split at hread
    · next hempty =>
      cases hread
      exact Parsed.derives htokens (List.isEmpty_iff.1 hempty)
    · cases hread
  · intro hderives
    obtain ⟨hnone, hbare⟩ := Parsed.complete hderives .initial
    refine ⟨_, ?_, hbare⟩
    rw [hnone]
    rfl

/-- Of two nested `if` statements the inner one has the `else`: for the text
`if (a) if (b) c; else d;` reading and the grammar agree on that tree. -/
theorem program_read_nearest_if :
    let token (kind : Token.Kind) (text : String) : Token := ⟨kind, text, none, .blank⟩
    let name (text : String) : Expr := .variable .blank text
    let tokens : List Token :=
      [token .if "if", token .leftParen "(", token .identifier "a", token .rightParen ")",
        token .if "if", token .leftParen "(", token .identifier "b", token .rightParen ")",
        token .identifier "c", token .semicolon ";", token .else "else",
        token .identifier "d", token .semicolon ";", token .eof ""]
    let inner : Stmt :=
      .ifElse (name "b") (.expression (name "c") .blank)
        (some (.expression (name "d") .blank)) .blank
    EndsOnce tokens ∧
      ∃ program, Program.ofTokens tokens = .ok program ∧
        program.bare = ⟨[.ifElse (name "a") inner none .blank]⟩ := by
  intro token name tokens inner
  have htokens : EndsOnce tokens := ⟨tokens.dropLast, token .eof "", rfl, rfl, by decide⟩
  have hname (text : String) :
      Reads .assignment [token .identifier text] (name text) :=
    have hprimary : Reads .primary [token .identifier text] (name text) := .name rfl
    .of .assignment <| .of .or <| .of .and <| .of .equality <| .of .comparison <|
      .of .term <| .of .factor <| .of .unary <| .of .call <| .of .access hprimary
  have hstatement (text : String) :
      States false [token .identifier text, token .semicolon ";"]
        (.expression (name text) .blank) :=
    .expression (.mk (hname text) rfl)
  have hinner : States false (tokens.drop 4 |>.take 9) inner :=
    .ifElse rfl rfl (hname "b") rfl (hstatement "c") rfl (hstatement "d")
  have houter : States true (tokens.take 13) (.ifElse (name "a") inner none .blank) :=
    .ifThen rfl rfl (hname "a") rfl hinner
  have hderives : Derives tokens ⟨[.ifElse (name "a") inner none .blank]⟩ :=
    .mk (.cons (.statement houter) .nil) rfl
  exact ⟨htokens, (program_read_iff_derived htokens _).2 hderives⟩

end Lox
