import Lox.Proofs.Syntax.SoundExpression

/-!
# Programs that are read are in the grammar

If a list of tokens is read without error, the grammar derives the tree that is read
for these tokens (`Parsed.derives`).

**Else.** An open statement is read as far as possible, so that no `else` follows it.
Hence the branch in front of an `else` is closed.
-/

namespace Lox

namespace Parse

open Grammar

/-! ## Parts of statements -/

theorem sound_expressionStatement (n : Nat) :
    Sound (expressionStatement n) (Spans fun vs s => ExpressionStatement vs s.bare) := by
  refine .bind (sound_exprs n).expression fun value => .bind (.expect (by decide) _) fun _ =>
    .bind .before fun span => .pure ?_
  rintro us _ rfl _ ⟨semicolon, hsemicolon, rfl⟩ _ ⟨vs, rfl, hvalue⟩
  exact ⟨vs ++ [semicolon], by simp, .mk hvalue hsemicolon⟩

theorem sound_varDeclaration (n : Nat) :
    Sound (varDeclaration n) fun ts s us =>
      At .var ts → Spans (fun vs s => VarDeclaration vs s.bare) ts s us := by
  refine .word (by decide) fun start => .bind (.expectName _) fun name =>
    .bind (.accept (by decide)) fun more => ?_
  dsimp only
  split
  · refine .bind (sound_exprs n).expression.some fun initializer =>
      .bind (.expect (by decide) _) fun _ => .bind (.spanFrom _) fun span => .pure ?_
    rintro us _ rfl _ ⟨semicolon, hsemicolon, rfl⟩ _ ⟨value, rfl, vs, rfl, hvalue⟩
      _ ⟨equals, hequals, rfl⟩ _ ⟨t, hname, rfl, rfl⟩ word hword
    exact ⟨word :: t :: equals :: vs ++ [semicolon], by simp,
      .initialized hword hname hequals hvalue hsemicolon⟩
  · refine .bind (.answer _) fun initializer =>
      .bind (.expect (by decide) _) fun _ => .bind (.spanFrom _) fun span => .pure ?_
    rintro us _ rfl _ ⟨semicolon, hsemicolon, rfl⟩ _ ⟨rfl, rfl⟩ _ ⟨_, rfl⟩
      _ ⟨t, hname, rfl, rfl⟩ word hword
    exact ⟨[word, t, semicolon], by simp, .bare hword hname hsemicolon⟩

theorem sound_printStatement (n : Nat) :
    Sound (printStatement n) fun ts s us =>
      At .print ts → Spans (fun vs s => States false vs s.bare) ts s us := by
  refine .word (by decide) fun start => .bind (sound_exprs n).expression fun value =>
    .bind (.expect (by decide) _) fun _ => .bind (.spanFrom _) fun span => .pure ?_
  rintro us _ rfl _ ⟨semicolon, hsemicolon, rfl⟩ _ ⟨vs, rfl, hvalue⟩ word hword
  exact ⟨word :: vs ++ [semicolon], by simp, .print hword hvalue hsemicolon⟩

/-- Outcomes of reading an expression that may be missing. -/
abbrev ReadsMaybe : List Token → Option Expr → List Token → Prop :=
  Spans fun vs value => Maybe vs (value.map Expr.bare)

theorem sound_some_expression (n : Nat) :
    Sound (some <$> expression n) ReadsMaybe := by
  refine (sound_exprs n).expression.some.weaken ?_
  rintro _ _ us ⟨value, rfl, vs, rfl, hvalue⟩
  exact ⟨vs, rfl, .some hvalue⟩

theorem sound_none : Sound (Pure.pure none) ReadsMaybe :=
  .pure fun _ => ⟨[], rfl, .none⟩

/-- Outcomes of reading a `return` after its value. -/
theorem sound_returnEnd (start : Span) (value : Option Expr) :
    Sound
      (do
        expect .semicolon .returnEnd
        return Stmt.return value (← spanFrom start))
      fun ts s us => ∀ vs word, word.kind = .return → Maybe vs (value.map Expr.bare) →
        Spans (fun vs s => States false vs s.bare) (word :: vs ++ ts) s us := by
  refine .bind (.expect (by decide) _) fun _ => .bind (.spanFrom _) fun span => .pure ?_
  rintro us _ rfl _ ⟨semicolon, hsemicolon, rfl⟩ vs word hword hvalue
  exact ⟨word :: vs ++ [semicolon], by simp, .return hword hvalue hsemicolon⟩

theorem sound_returnStatement (n : Nat) :
    Sound (returnStatement n) fun ts s us =>
      At .return ts → Spans (fun vs s => States false vs s.bare) ts s us := by
  refine .word (by decide) fun start => .bind .peek fun kind => ?_
  dsimp only
  split
  · refine .bind sound_none fun value => (sound_returnEnd start value).weaken ?_
    rintro ts s us hend _ ⟨vs, rfl, hvalue⟩ _ ⟨_, rfl⟩ word hword
    exact hend vs word hword hvalue
  · refine .bind (sound_some_expression n) fun value => (sound_returnEnd start value).weaken ?_
    rintro ts s us hend _ ⟨vs, rfl, hvalue⟩ _ ⟨_, rfl⟩ word hword
    exact hend vs word hword hvalue

theorem sound_forInitializer (n : Nat) :
    Sound (forInitializer n) (Spans fun vs s => LoopStart vs (s.map Stmt.bare)) := by
  refine .bind (.accept (by decide)) fun isMissing => ?_
  split
  · refine .pure ?_
    rintro us _ ⟨semicolon, hsemicolon, rfl⟩
    exact ⟨[semicolon], rfl, .none hsemicolon⟩
  · refine .bind .peek fun kind => ?_
    split
    · next hkind =>
      subst hkind
      refine (sound_varDeclaration n).some.weaken ?_
      rintro _ _ us ⟨s, rfl, hdeclaration⟩ _ ⟨hat, rfl⟩ _ ⟨_, rfl⟩
      obtain ⟨vs, rfl, hs⟩ := hdeclaration hat
      exact ⟨vs, rfl, .var hs⟩
    · refine (sound_expressionStatement n).some.weaken ?_
      rintro _ _ us ⟨s, rfl, vs, rfl, hs⟩ _ ⟨_, rfl⟩ _ ⟨_, rfl⟩
      exact ⟨vs, rfl, .expression hs⟩

theorem sound_forCondition (n : Nat) :
    Sound (forCondition n) fun ts e us =>
      ∃ value, Spans Maybe ts value us ∧ e.bare = value.getD always := by
  refine .bind .peek fun kind => ?_
  split
  · refine .bind .here fun span => .bind (.freshNode _) fun node => .pure ?_
    rintro us _ rfl _ rfl _ ⟨_, rfl⟩
    exact ⟨none, ⟨[], rfl, .none⟩, rfl⟩
  · refine (sound_exprs n).expression.weaken ?_
    rintro _ e us ⟨vs, rfl, hvalue⟩ _ ⟨_, rfl⟩
    exact ⟨some e.bare, ⟨vs, rfl, .some hvalue⟩, rfl⟩

theorem bare_forLoop (initializer : Option Stmt) (condition : Expr)
    (increment : Option Expr) (body : Stmt) (span : Span) :
    (Stmt.forLoop initializer condition increment body span).bare =
      loopTree (initializer.map Stmt.bare) condition.bare (increment.map Expr.bare)
        body.bare := by
  cases initializer <;> cases increment <;>
    simp [Stmt.forLoop, Stmt.bare, Stmt.bareAll, loopTree]

theorem sound_parameterNames (n count : Nat) :
    Sound (parameterNames n count) (Spans fun vs names =>
      Names vs names ∧ count + names.length ≤ 255) := by
  induction n generalizing count with
  | zero => exact .fail _
  | succ n ih =>
    rw [parameterNames]
    split
    · exact .fail _
    · next hcount =>
      have hroom : count + 1 ≤ 255 := by
        unfold maxArguments at hcount
        omega
      refine .bind (.expectName _) fun name => .bind (.accept (by decide)) fun more => ?_
      split
      · refine .bind (ih (count + 1)) fun names => .pure ?_
        rintro us _ ⟨vs, rfl, hnames, hlength⟩ _ ⟨comma, hcomma, rfl⟩
          _ ⟨t, hname, rfl, rfl⟩
        refine ⟨t :: comma :: vs, rfl, .more hname hcomma hnames, ?_⟩
        simp only [List.length_cons]
        omega
      · refine .pure ?_
        rintro us _ ⟨_, rfl⟩ _ ⟨t, hname, rfl, rfl⟩
        exact ⟨[t], rfl, .one hname, hroom⟩

theorem sound_parameters (n : Nat) :
    Sound (parameters n) fun ts names us => ∃ (vs : List Token) (right : Token),
      ts = vs ++ right :: us ∧ Parameters vs names ∧ right.kind = .rightParen := by
  refine .bind .peek fun kind => ?_
  dsimp only
  split
  · refine .bind (.answer _) fun names => .bind (.expect (by decide) _) fun _ => .pure ?_
    rintro us _ ⟨right, hright, rfl⟩ _ ⟨rfl, rfl⟩ _ ⟨_, rfl⟩
    exact ⟨[], right, rfl, .none, hright⟩
  · refine .bind (sound_parameterNames n 0) fun names => .bind (.expect (by decide) _) fun _ =>
      .pure ?_
    rintro us _ ⟨right, hright, rfl⟩ _ ⟨vs, rfl, hnames, hlength⟩ _ ⟨_, rfl⟩
    exact ⟨vs, right, rfl, .some hnames (by omega), hright⟩

theorem sound_seekBoundary (n : Nat) : Sound (seekBoundary n) fun _ _ _ => True := by
  induction n with
  | zero => exact .pure fun _ => trivial
  | succ n ih =>
    refine .bind .get fun p => ?_
    split
    · exact .pure fun _ _ _ => trivial
    · exact .bind .advance fun _ => ih.weaken fun _ _ _ _ _ _ _ _ => trivial

theorem sound_synchronize : Sound synchronize fun _ _ _ => True :=
  .bind .advance fun _ => .bind .get fun _ =>
    (sound_seekBoundary _).weaken fun _ _ _ _ _ _ _ _ => trivial

/-! ## Statements -/

/-- Outcomes of reading a declaration or statement. -/
abbrev DeclaresAs : List Token → Stmt → List Token → Prop :=
  Spans fun vs s => Declares vs s.bare

/-- Outcomes of reading a statement.  An open one has taken every `else` that it can. -/
def StatesAs (ts : List Token) (s : Stmt) (us : List Token) : Prop :=
  ∃ isOpen, Spans (fun vs s => States isOpen vs s.bare) ts s us ∧
    (isOpen = true → ¬ At .else us)

theorem StatesAs.of_closed {ts us : List Token} {s : Stmt}
    (h : Spans (fun vs s => States false vs s.bare) ts s us) : StatesAs ts s us :=
  ⟨false, h, fun hopen => by cases hopen⟩

/-- Outcomes of reading statements and their parts with budget `n`. -/
structure StmtSound (n : Nat) : Prop where
  declaration : Sound (declaration n) DeclaresAs
  classDeclaration : Sound (classDeclaration n) fun ts s us =>
    At .class ts → DeclaresAs ts s us
  methods : Sound (methods n) (Spans fun vs fs => Methods vs (FunctionDecl.bareAll fs))
  functionDeclaration : Sound (functionDeclaration n) fun ts s us =>
    At .fun ts → DeclaresAs ts s us
  function : ∀ role, Sound (function n role) (Spans fun vs f => Defines vs f.bare)
  blockBody : Sound (blockBody n) fun ts body us => ∃ (vs : List Token) (right : Token),
    ts = vs ++ right :: us ∧ Items vs (Stmt.bareAll body) ∧ right.kind = .rightBrace
  blockItems : Sound (blockItems n) (Spans fun vs body => Items vs (Stmt.bareAll body))
  statement : Sound (statement n) StatesAs
  block : Sound (block n) fun ts s us => At .leftBrace ts → StatesAs ts s us
  ifStatement : Sound (ifStatement n) fun ts s us => At .if ts → StatesAs ts s us
  whileStatement : Sound (whileStatement n) fun ts s us => At .while ts → StatesAs ts s us
  forStatement : Sound (forStatement n) fun ts s us => At .for ts → StatesAs ts s us

/-! ## Rules of statements

Each rule is sound with one more unit of budget than the rules that it calls. -/

section Rules

variable {n : Nat} (ih : StmtSound n)

include ih

theorem sound_declaration :
    Sound (declaration (n + 1)) DeclaresAs := by
  rw [declaration]
  refine .bind .peek fun kind => ?_
  split
  · exact ih.classDeclaration.of_at
  · exact ih.functionDeclaration.of_at
  · refine (sound_varDeclaration n).of_at.weaken ?_
    rintro ts s us h zs hat
    obtain ⟨vs, hzs, hs⟩ := h zs hat
    exact ⟨vs, hzs, .var hs⟩
  · exact .fail _
  · exact .fail _
  · refine ih.statement.weaken ?_
    rintro _ s us ⟨isOpen, ⟨vs, rfl, hs⟩, _⟩ _ ⟨_, rfl⟩
    exact ⟨vs, rfl, .statement hs⟩

theorem sound_classDeclaration :
    Sound (classDeclaration (n + 1)) fun ts s us =>
      At .class ts → DeclaresAs ts s us := by
  rw [classDeclaration]
  refine .word (by decide) fun start => .bind (.expectName _) fun name =>
    .bind (.expect (by decide) _) fun _ => .bind ih.methods fun methods =>
      .bind (.expect (by decide) _) fun _ => .bind (.spanFrom _) fun span => .pure ?_
  rintro us _ rfl _ ⟨right, hright, rfl⟩ _ ⟨vs, rfl, hmethods⟩ _ ⟨left, hleft, rfl⟩
    _ ⟨t, hname, rfl, rfl⟩ word hword
  exact ⟨word :: t :: left :: vs ++ [right], by simp,
    .class hword hname hleft hmethods hright⟩

theorem sound_methods :
    Sound (methods (n + 1)) (Spans fun vs fs =>
      Methods vs (FunctionDecl.bareAll fs)) := by
  rw [methods]
  refine .bind .get fun p => .bind .peek fun kind => ?_
  split
  · refine .pure ?_
    rintro us _ ⟨_, rfl⟩ _ ⟨_, rfl⟩
    exact ⟨[], rfl, .nil⟩
  · refine .bind (ih.function _) fun method => .bind ih.methods fun methods => .pure ?_
    rintro us _ ⟨ws, rfl, hmethods⟩ _ ⟨vs, rfl, hmethod⟩ _ ⟨_, rfl⟩ _ ⟨_, rfl⟩
    exact ⟨vs ++ ws, by simp, .cons hmethod hmethods⟩

theorem sound_functionDeclaration :
    Sound (functionDeclaration (n + 1)) fun ts s us =>
      At .fun ts → DeclaresAs ts s us := by
  rw [functionDeclaration]
  refine .word (by decide) fun start => .bind (ih.function _) fun decl =>
    .bind (.spanFrom _) fun span => .pure ?_
  rintro us _ rfl _ ⟨vs, rfl, hdecl⟩ word hword
  exact ⟨word :: vs, rfl, .function hword hdecl⟩

theorem sound_function (role : FunctionRole) :
    Sound (function (n + 1) role) (Spans fun vs f => Defines vs f.bare) := by
  rw [function]
  refine .bind .here fun start => .bind (.expectName _) fun name =>
    .bind (.expect (by decide) _) fun _ => .bind (sound_parameters n) fun params =>
      .bind (.expect (by decide) _) fun _ => .bind ih.blockBody fun body =>
        .bind .freshFunction fun number => .bind (.spanFrom _) fun span => .pure ?_
  rintro us _ rfl _ rfl _ ⟨ws, rightBrace, rfl, hbody, hrightBrace⟩
    _ ⟨leftBrace, hleftBrace, rfl⟩ _ ⟨vs, right, rfl, hparams, hright⟩
    _ ⟨left, hleft, rfl⟩ _ ⟨t, hname, rfl, rfl⟩ _ rfl
  exact ⟨t :: left :: vs ++ right :: leftBrace :: ws ++ [rightBrace], by simp,
    .mk hname hleft hparams hright hleftBrace hbody hrightBrace⟩

theorem sound_blockBody :
    Sound (blockBody (n + 1)) fun ts body us => ∃ (vs : List Token) (right : Token),
      ts = vs ++ right :: us ∧ Items vs (Stmt.bareAll body) ∧ right.kind = .rightBrace := by
  rw [blockBody]
  refine .bind ih.blockItems fun body => .bind (.expect (by decide) _) fun _ => .pure ?_
  rintro us _ ⟨right, hright, rfl⟩ _ ⟨vs, rfl, hbody⟩
  exact ⟨vs, right, rfl, hbody, hright⟩

theorem sound_blockItems :
    Sound (blockItems (n + 1)) (Spans fun vs body => Items vs (Stmt.bareAll body)) := by
  rw [blockItems]
  refine .bind .get fun p => .bind .peek fun kind => ?_
  split
  · refine .pure ?_
    rintro us _ ⟨_, rfl⟩ _ ⟨_, rfl⟩
    exact ⟨[], rfl, .nil⟩
  · refine .bind (.attempt ih.declaration) fun r => ?_
    cases r with
    | ok s =>
      refine .bind ih.blockItems fun body => .pure ?_
      rintro us _ ⟨ws, rfl, hbody⟩ _ hattempt _ ⟨_, rfl⟩ _ ⟨_, rfl⟩
      obtain ⟨vs, rfl, hs⟩ := hattempt s rfl
      exact ⟨vs ++ ws, by simp, .cons hs hbody⟩
    | error e =>
      refine .bind (.note _) fun _ => .bind .peek fun kind => ?_
      dsimp only
      split
      · refine .bind sound_synchronize fun _ => ih.blockItems.weaken ?_
        rintro _ _ _ _ _ _ _ _ _ ⟨⟩
      · refine ih.blockItems.weaken ?_
        rintro _ _ _ _ _ _ _ ⟨⟩

theorem sound_statement :
    Sound (statement (n + 1)) StatesAs := by
  rw [statement]
  refine .bind .peek fun kind => ?_
  split
  · exact (sound_printStatement n).of_at.weaken fun ts s us h zs hat => .of_closed (h zs hat)
  · exact (sound_returnStatement n).of_at.weaken fun ts s us h zs hat => .of_closed (h zs hat)
  · exact ih.block.of_at
  · exact ih.ifStatement.of_at
  · exact ih.whileStatement.of_at
  · exact ih.forStatement.of_at
  · refine (sound_expressionStatement n).weaken ?_
    rintro _ s us ⟨vs, rfl, hs⟩ _ ⟨_, rfl⟩
    exact .of_closed ⟨vs, rfl, .expression hs⟩

theorem sound_block :
    Sound (block (n + 1)) fun ts s us => At .leftBrace ts → StatesAs ts s us := by
  rw [block]
  refine .word (by decide) fun start => .bind ih.blockBody fun body =>
    .bind (.spanFrom _) fun span => .pure ?_
  rintro us _ rfl _ ⟨vs, right, rfl, hbody, hright⟩ left hleft
  exact .of_closed ⟨left :: vs ++ [right], by simp, .block hleft hbody hright⟩

theorem sound_ifStatement :
    Sound (ifStatement (n + 1)) fun ts s us => At .if ts → StatesAs ts s us := by
  rw [ifStatement]
  refine .word (by decide) fun start =>
    .bind (.expect (by decide) _) fun _ => .bind (sound_exprs n).expression fun condition =>
      .bind (.expect (by decide) _) fun _ => .bind ih.statement fun thenBranch =>
        .bind (.accept (by decide)) fun more => ?_
  dsimp only
  split
  · refine .bind ih.statement.some fun elseBranch => .bind (.spanFrom _) fun span =>
      .pure ?_
    rintro us _ rfl _ ⟨elseBranch, rfl, isOpen, ⟨xs, rfl, helse⟩, hgreedy⟩
      _ ⟨other, hother, rfl⟩ _ ⟨isOpen', ⟨ws, rfl, hthen⟩, hgreedy'⟩
      _ ⟨right, hright, rfl⟩ _ ⟨vs, rfl, hcondition⟩ _ ⟨left, hleft, rfl⟩ word hword
    -- an open branch would have taken the `else` itself
    cases isOpen' with
    | true => exact absurd (At.cons_iff.2 hother) (hgreedy' rfl)
    | false =>
      exact ⟨isOpen, ⟨word :: left :: vs ++ right :: ws ++ other :: xs, by simp,
        .ifElse hword hleft hcondition hright hthen hother helse⟩, hgreedy⟩
  · refine .bind (.answer _) fun elseBranch => .bind (.spanFrom _) fun span => .pure ?_
    rintro us _ rfl _ ⟨rfl, rfl⟩ _ ⟨hnone, rfl⟩ _ ⟨isOpen, ⟨ws, rfl, hthen⟩, _⟩
      _ ⟨right, hright, rfl⟩ _ ⟨vs, rfl, hcondition⟩ _ ⟨left, hleft, rfl⟩ word hword
    exact ⟨true, ⟨word :: left :: vs ++ right :: ws, by simp,
      .ifThen hword hleft hcondition hright hthen⟩, fun _ => hnone⟩

theorem sound_whileStatement :
    Sound (whileStatement (n + 1)) fun ts s us => At .while ts → StatesAs ts s us := by
  rw [whileStatement]
  refine .word (by decide) fun start =>
    .bind (.expect (by decide) _) fun _ => .bind (sound_exprs n).expression fun condition =>
      .bind (.expect (by decide) _) fun _ => .bind ih.statement fun body =>
        .bind (.spanFrom _) fun span => .pure ?_
  rintro us _ rfl _ ⟨isOpen, ⟨ws, rfl, hbody⟩, hgreedy⟩ _ ⟨right, hright, rfl⟩
    _ ⟨vs, rfl, hcondition⟩ _ ⟨left, hleft, rfl⟩ word hword
  exact ⟨isOpen, ⟨word :: left :: vs ++ right :: ws, by simp,
    .while hword hleft hcondition hright hbody⟩, hgreedy⟩

/-- Outcomes of reading a `for` after its increment. -/
theorem sound_forBody (start : Span) (initializer : Option Stmt) (condition : Expr)
    (increment : Option Expr) :
    Sound
      (do
        expect .rightParen .forClausesEnd
        let body ← statement n
        return Stmt.forLoop initializer condition increment body (← spanFrom start))
      fun ts s us => ∀ (word left semicolon : Token) (xs ys zs : List Token)
        (value : Option Expr), word.kind = .for → left.kind = .leftParen →
          LoopStart xs (initializer.map Stmt.bare) → Maybe ys value →
          condition.bare = value.getD always → semicolon.kind = .semicolon →
          Maybe zs (increment.map Expr.bare) →
          StatesAs (word :: left :: (xs ++ (ys ++ semicolon :: (zs ++ ts)))) s us := by
  refine .bind (.expect (by decide) _) fun _ => .bind ih.statement fun body =>
    .bind (.spanFrom _) fun span => .pure ?_
  rintro us _ rfl _ ⟨isOpen, ⟨ws, rfl, hbody⟩, hgreedy⟩ _ ⟨right, hright, rfl⟩
    word left semicolon xs ys zs value hword hleft hinitializer hcondition hvalue
    hsemicolon hincrement
  refine ⟨isOpen,
    ⟨word :: left :: xs ++ ys ++ semicolon :: zs ++ right :: ws, by simp, ?_⟩, hgreedy⟩
  dsimp only
  rw [bare_forLoop, hvalue]
  exact .for hword hleft hinitializer hcondition hsemicolon hincrement hright hbody

theorem sound_forStatement :
    Sound (forStatement (n + 1)) fun ts s us => At .for ts → StatesAs ts s us := by
  rw [forStatement]
  refine .word (by decide) fun start =>
    .bind (.expect (by decide) _) fun _ => .bind (sound_forInitializer n) fun initializer =>
      .bind (sound_forCondition n) fun condition => .bind (.expect (by decide) _) fun _ =>
        .bind .peek fun kind => ?_
  dsimp only
  split
  · refine .bind sound_none fun increment => (sound_forBody ih start _ _ increment).weaken ?_
    rintro ts s us hfor _ ⟨zs, rfl, hincrement⟩ _ ⟨_, rfl⟩ _ ⟨semicolon, hsemicolon, rfl⟩
      _ ⟨value, ⟨ys, rfl, hcondition⟩, hvalue⟩ _ ⟨xs, rfl, hinitializer⟩
      _ ⟨left, hleft, rfl⟩ word hword
    exact hfor word left semicolon xs ys zs value hword hleft hinitializer hcondition hvalue
      hsemicolon hincrement
  · refine .bind (sound_some_expression n) fun increment =>
      (sound_forBody ih start _ _ increment).weaken ?_
    rintro ts s us hfor _ ⟨zs, rfl, hincrement⟩ _ ⟨_, rfl⟩ _ ⟨semicolon, hsemicolon, rfl⟩
      _ ⟨value, ⟨ys, rfl, hcondition⟩, hvalue⟩ _ ⟨xs, rfl, hinitializer⟩
      _ ⟨left, hleft, rfl⟩ word hword
    exact hfor word left semicolon xs ys zs value hword hleft hinitializer hcondition hvalue
      hsemicolon hincrement

end Rules

/-- Statements that are read are in the grammar, whatever the budget. -/
theorem sound_stmts (n : Nat) : StmtSound n := by
  induction n with
  | zero => constructor <;> intros <;> exact .fail _
  | succ n ih =>
    exact
      { declaration := sound_declaration ih
        classDeclaration := sound_classDeclaration ih
        methods := sound_methods ih
        functionDeclaration := sound_functionDeclaration ih
        function := sound_function ih
        blockBody := sound_blockBody ih
        blockItems := sound_blockItems ih
        statement := sound_statement ih
        block := sound_block ih
        ifStatement := sound_ifStatement ih
        whileStatement := sound_whileStatement ih
        forStatement := sound_forStatement ih }

theorem sound_statements (n : Nat) :
    Sound (statements n) fun ts body us => At .eof us ∧
      Spans (fun vs body => Items vs (Stmt.bareAll body)) ts body us := by
  induction n with
  | zero => exact .fail _
  | succ n ih =>
    rw [statements]
    refine .bind .get fun p => ?_
    split
    · next hend =>
      refine .pure ?_
      rintro us _ ⟨rfl, rfl⟩
      exact ⟨At.cons_iff.2 (of_decide_eq_true hend), [], rfl, .nil⟩
    · refine .bind (.attempt (sound_stmts n).declaration) fun r => ?_
      cases r with
      | ok s =>
        refine .bind ih fun body => .pure ?_
        rintro us _ ⟨hend, ws, rfl, hbody⟩ _ hattempt _ ⟨_, rfl⟩
        obtain ⟨vs, rfl, hs⟩ := hattempt s rfl
        exact ⟨hend, vs ++ ws, by simp, .cons hs hbody⟩
      | error e =>
        refine .bind (.note _) fun _ => .bind sound_synchronize fun _ => ih.weaken ?_
        rintro _ _ _ _ _ _ _ ⟨⟩

end Parse

/-! ## Programs -/

open Parse Grammar

/-- The list of tokens ends in an end token, and has no other one. -/
def EndsOnce (tokens : List Token) : Prop :=
  ∃ ts last, tokens = ts ++ [last] ∧ last.kind = .eof ∧ ∀ t ∈ ts, t.kind ≠ .eof

theorem EndsOnce.eq_singleton {ts vs us : List Token} {last t : Token}
    (hts : ∀ t ∈ ts, t.kind ≠ .eof) (h : ts ++ [last] = vs ++ t :: us)
    (ht : t.kind = .eof) : vs = ts ∧ t = last ∧ us = [] := by
  rcases List.append_eq_append_iff.1 h with ⟨ws, hvs, hlast⟩ | ⟨ws, hts', hcons⟩
  · cases ws with
    | nil => simp_all
    | cons w ws => simp at hlast
  · cases ws with
    | nil => simp_all
    | cons w ws =>
      obtain ⟨rfl, -⟩ := List.cons.inj hcons
      exact absurd ht (hts _ (by simp [hts']))

theorem EndsOnce.of_suffix {ts us : List Token} (h : EndsOnce ts) (hsuffix : us <:+ ts)
    (hus : us ≠ []) : EndsOnce us := by
  obtain ⟨all, last, rfl, hlast, hothers⟩ := h
  obtain ⟨body, final, rfl⟩ : ∃ body final, us = body ++ [final] := by
    rcases List.eq_nil_or_concat us with rfl | ⟨body, final, rfl⟩
    · exact absurd rfl hus
    · exact ⟨body, final, List.concat_eq_append⟩
  obtain ⟨skipped, hskipped⟩ := hsuffix
  rw [← List.append_assoc] at hskipped
  obtain ⟨rfl, hfinal⟩ := List.append_inj' hskipped rfl
  obtain rfl := List.singleton_inj.1 hfinal
  exact ⟨body, final, rfl, hlast, fun t ht => hothers t (List.mem_append_right skipped ht)⟩

/-- Statements that are read up to the end without a new error are a program of the grammar. -/
theorem Parse.derives_of_statements {n : Nat} {p q : Parser} {body : List Stmt}
    (h : statements n p = .ok body q) (hrest : EndsOnce p.rest)
    (hsize : q.errors.size = p.errors.size) : Derives p.rest ⟨Stmt.bareAll body⟩ := by
  obtain ⟨ts, last, hts, hlast, hothers⟩ := hrest
  obtain ⟨⟨t, us, hus, ht⟩, vs, hvs, hbody⟩ :=
    (sound_statements n).answers h ⟨ts, last, hts, hlast⟩ hsize
  rw [hts, hus] at hvs
  obtain ⟨rfl, rfl, rfl⟩ := EndsOnce.eq_singleton hothers hvs ht
  rw [hts]
  exact .mk hbody ht

/-- What is read without error is a program of the grammar. -/
theorem Parsed.derives {supply : Supply} {tokens : List Token} (htokens : EndsOnce tokens)
    (herrors : (Parsed.ofTokens supply tokens).errors = []) :
    Derives tokens (Parsed.ofTokens supply tokens).program.bare := by
  have hne : tokens ≠ [] := by
    obtain ⟨ts, last, rfl, -, -⟩ := htokens
    simp
  have hrest := Parser.rest_start supply hne
  unfold Parsed.ofTokens at herrors ⊢
  cases h : statements (budget tokens) (Parser.start supply tokens) with
  | error e p =>
    rw [h] at herrors
    simp at herrors
  | ok body p =>
    rw [h] at herrors
    have hempty : p.errors.toList = [] := herrors
    have hsize : p.errors.size = (Parser.start supply tokens).errors.size := by
      rw [Array.toList_eq_nil_iff.1 hempty, Parser.errors_start]
    have hderives := derives_of_statements h (by rwa [hrest]) hsize
    rwa [hrest] at hderives

end Lox
