import Lox.Proofs.Syntax.LocatedExpression
import Lox.Proofs.Syntax.Nesting

/-!
# Where statements are read

Each rule of statements finds the extent of what it reads, so all rules keep the contract
(`located_kept`).  A list that is read without error is a program up to its end token
(`Parsed.extent`): all of its tokens belong to the statements.
-/

namespace Lox

namespace Parse

namespace Reading

open Extent

/-! ## Parts of statements -/

/-- The statement was read from these tokens, the last of which is a semicolon. -/
def Ended (tokens : List Token) (i j : Nat) (s : Stmt) : Prop :=
  Statement tokens i j s ∧ ∃ k, k + 1 = j ∧ IsAt tokens k .semicolon

section Parts

variable {tokens : List Token} {n i : Nat} {q : Parser} (hclosed : Closed tokens)
  (hordered : Ordered tokens) (hq : q.CleanAt tokens i)

include hclosed hq

theorem finds_parameters :
    Finds tokens n parameters
      (fun names j => ∃ k, k + 1 = j ∧ Parameters tokens i k names ∧ IsAt tokens k .rightParen)
      q := by
  refine .bind hclosed (finds_peek hq) ?_
  rintro kind _ q hq ⟨rfl, hkind⟩
  rw [finds_ite_bind]
  refine .bind hclosed (K := fun names j => Parameters tokens i j names) ?_ ?_
  · split
    · exact finds_pure hq .none
    · exact (finds_rule hq rfl).mono fun _ _ => .some
  · intro names j q hq hnames
    refine .bind hclosed (finds_expect hq hclosed (by decide) _) ?_
    rintro _ _ q hq ⟨rfl, hright⟩
    exact finds_pure hq ⟨j, rfl, hnames, hright⟩

theorem finds_forCondition :
    Finds tokens n forCondition (fun e j => Condition tokens i j e) q := by
  refine .bind hclosed (finds_peek hq) ?_
  rintro kind _ q hq ⟨rfl, hkind⟩
  split
  · refine .bind hclosed (finds_here hq) ?_
    rintro span _ q hq ⟨rfl, hspan⟩
    refine .bind hclosed (finds_freshNode hq _) ?_
    rintro node _ q hq ⟨rfl, rfl⟩
    exact finds_pure hq (.none hspan)
  · exact (finds_rule hq rfl).mono fun _ _ => .some

/-- An expression that may be missing. -/
theorem finds_maybe (c : Prop) [Decidable c] :
    Finds tokens n (if c then pure none else some <$> rule .expression)
      (fun value j => Maybe tokens i j value) q := by
  split
  · exact finds_pure hq .none
  · exact .map hclosed ((finds_rule hq rfl).mono fun _ _ => .some)

include hordered

theorem finds_expressionStatement :
    Finds tokens n expressionStatement (fun s j => Ended tokens i j s) q := by
  refine .bind hclosed (finds_rule hq rfl) ?_
  intro value j q hq hvalue
  refine .bind hclosed (finds_expect hq hclosed (by decide) _) ?_
  rintro _ _ q hq ⟨rfl, hsemicolon⟩
  refine .bind hclosed (finds_before hq) ?_
  rintro last _ q hq ⟨rfl, hlast⟩
  have hspan := hvalue.fromTo.through hordered hlast.fromTo (by omega)
  exact finds_pure hq ⟨.expression hvalue hsemicolon hspan, j, rfl, hsemicolon⟩

theorem finds_varDeclaration (hword : IsAt tokens i .var) :
    Finds tokens n varDeclaration (fun s j => Ended tokens i j s) q := by
  refine finds_word hclosed hq hword (by decide) fun start q hq hstart => ?_
  refine .bind hclosed (finds_expectName hq hclosed _) ?_
  rintro name _ q hq ⟨rfl, hname⟩
  refine .bind hclosed (finds_accept hq hclosed (by decide)) ?_
  intro found j q hq hfound
  rw [finds_ite_bind]
  refine .bind hclosed (K := fun value j => Initializer tokens (i + 2) j value) ?_ ?_
  · rcases hfound with ⟨rfl, hequals, rfl⟩ | ⟨rfl, rfl⟩
    · rw [if_pos rfl]
      exact .map hclosed ((finds_rule hq rfl).mono fun _ _ => .some hequals)
    · rw [if_neg Bool.false_ne_true]
      exact finds_pure hq .none
  · intro initializer j q hq hinitializer
    have hle := hinitializer.le
    refine .bind hclosed (finds_expect hq hclosed (by decide) _) ?_
    rintro _ _ q hq ⟨rfl, hsemicolon⟩
    refine .bind hclosed (finds_spanFrom hq hordered hstart.fromTo (by omega)) ?_
    rintro span _ q hq ⟨rfl, hspan⟩
    exact finds_pure hq ⟨.var hword hname hinitializer hsemicolon hspan, j, rfl, hsemicolon⟩

theorem finds_printStatement (hword : IsAt tokens i .print) :
    Finds tokens n printStatement (fun s j => Statement tokens i j s) q := by
  refine finds_word hclosed hq hword (by decide) fun start q hq hstart => ?_
  refine .bind hclosed (finds_rule hq rfl) ?_
  intro value j q hq hvalue
  have hlt := hvalue.fromTo.lt
  refine .bind hclosed (finds_expect hq hclosed (by decide) _) ?_
  rintro _ _ q hq ⟨rfl, hsemicolon⟩
  refine .bind hclosed (finds_spanFrom hq hordered hstart.fromTo (by omega)) ?_
  rintro span _ q hq ⟨rfl, hspan⟩
  exact finds_pure hq (.print hword hvalue hsemicolon hspan)

theorem finds_returnStatement (hword : IsAt tokens i .return) :
    Finds tokens n returnStatement (fun s j => Statement tokens i j s) q := by
  refine finds_word hclosed hq hword (by decide) fun start q hq hstart => ?_
  refine .bind hclosed (finds_peek hq) ?_
  rintro kind _ q hq ⟨rfl, -⟩
  rw [finds_ite_bind]
  refine .bind hclosed (finds_maybe hclosed hq _) ?_
  intro value j q hq hvalue
  have hle := hvalue.le
  refine .bind hclosed (finds_expect hq hclosed (by decide) _) ?_
  rintro _ _ q hq ⟨rfl, hsemicolon⟩
  refine .bind hclosed (finds_spanFrom hq hordered hstart.fromTo (by omega)) ?_
  rintro span _ q hq ⟨rfl, hspan⟩
  exact finds_pure hq (.return hword hvalue hsemicolon hspan)

/-- Each of the ways to start a loop ends with a semicolon. -/
theorem finds_forInitializer :
    Finds tokens n forInitializer
      (fun s j => ∃ k, k + 1 = j ∧ LoopStart tokens i k s ∧ IsAt tokens k .semicolon) q := by
  have hsome : ∀ s j, Ended tokens i j s →
      ∃ k, k + 1 = j ∧ LoopStart tokens i k (some s) ∧ IsAt tokens k .semicolon := by
    rintro s _ ⟨h, k, rfl, hsemicolon⟩
    exact ⟨k, rfl, .some h, hsemicolon⟩
  refine .bind hclosed (finds_accept hq hclosed (by decide)) ?_
  rintro found j q hq (⟨rfl, hsemicolon, rfl⟩ | ⟨rfl, rfl⟩)
  · rw [if_pos rfl]
    exact finds_pure hq ⟨i, rfl, .none, hsemicolon⟩
  · rw [if_neg Bool.false_ne_true]
    refine .bind hclosed (finds_peek hq) ?_
    rintro kind _ q hq ⟨rfl, hkind⟩
    split
    · next heq =>
      rw [heq] at hkind
      exact .map hclosed ((finds_varDeclaration hclosed hordered hq hkind).mono hsome)
    · exact .map hclosed ((finds_expressionStatement hclosed hordered hq).mono hsome)

end Parts

/-! ## Rules of statements -/

section Rules

variable {tokens : List Token} (hclosed : Closed tokens) (hordered : Ordered tokens)

include hclosed

theorem locates_methods : Locates tokens .methods := by
  intro n p i hp _
  simp only [ofRule]
  refine .bind hclosed (finds_atEnd hp) ?_
  rintro atEnd _ q hq ⟨rfl, -⟩
  refine .bind hclosed (finds_peek hq) ?_
  rintro kind _ q hq ⟨rfl, -⟩
  split
  · exact finds_pure hq .nil
  · refine .bind hclosed (finds_rule hq rfl) ?_
    intro method j q hq hmethod
    refine .bind hclosed (finds_rule hq rfl) ?_
    intro methods k q hq hmethods
    exact finds_pure hq (.cons hmethod hmethods)

theorem locates_blockBody : Locates tokens .blockBody := by
  intro n p i hp _
  simp only [ofRule]
  refine .bind hclosed (finds_rule hp rfl) ?_
  intro body j q hq hbody
  refine .bind hclosed (finds_expect hq hclosed (by decide) _) ?_
  rintro _ _ q hq ⟨rfl, hright⟩
  exact finds_pure hq ⟨j, rfl, hbody, hright⟩

/-- A statement with an error is left out, but then an error was noted. -/
theorem locates_blockItems : Locates tokens .blockItems := by
  intro n p i hp _
  simp only [ofRule]
  refine .bind hclosed (finds_atEnd hp) ?_
  rintro atEnd _ q hq ⟨rfl, -⟩
  refine .bind hclosed (finds_peek hq) ?_
  rintro kind _ q hq ⟨rfl, -⟩
  split
  · exact finds_pure hq .nil
  · refine .bind hclosed (finds_attempted hq rfl) ?_
    intro answer j q hq hanswer
    cases answer with
    | ok s =>
      refine .bind hclosed (finds_rule hq rfl) ?_
      intro ss k q hq hothers
      exact finds_pure hq (.cons (hanswer s rfl) hothers)
    | error error => exact .bind hclosed (finds_note hq _ hclosed) fun _ _ _ _ h => h.elim

theorem locates_statements : Locates tokens .statements := by
  intro n p i hp _
  simp only [ofRule]
  refine .bind hclosed (finds_atEnd hp) ?_
  rintro atEnd _ q hq ⟨rfl, hend⟩
  split
  · next heq => exact finds_pure hq ⟨.nil, hend heq⟩
  · refine .bind hclosed (finds_attempted hq rfl) ?_
    intro answer j q hq hanswer
    cases answer with
    | ok s =>
      refine .bind hclosed (finds_rule hq rfl) ?_
      rintro ss k q hq ⟨hothers, hend⟩
      exact finds_pure hq ⟨.cons (hanswer s rfl) hothers, hend⟩
    | error error => exact .bind hclosed (finds_note hq _ hclosed) fun _ _ _ _ h => h.elim

include hordered

theorem locates_declaration : Locates tokens .declaration := by
  intro n p i hp _
  simp only [ofRule]
  refine .bind hclosed (finds_peek hp) ?_
  rintro kind _ q hq ⟨rfl, hkind⟩
  split
  · exact finds_worded hq fun word hword => by cases hword; exact hkind
  · exact finds_worded hq fun word hword => by cases hword; exact hkind
  · exact (finds_varDeclaration hclosed hordered hq hkind).mono fun _ _ h => h.1
  · exact finds_fail hq
  · exact finds_fail hq
  · exact finds_rule hq rfl

theorem locates_statement : Locates tokens .statement := by
  intro n p i hp _
  simp only [ofRule]
  refine .bind hclosed (finds_peek hp) ?_
  rintro kind _ q hq ⟨rfl, hkind⟩
  split
  · exact finds_printStatement hclosed hordered hq hkind
  · exact finds_returnStatement hclosed hordered hq hkind
  · exact finds_worded hq fun word hword => by cases hword; exact hkind
  · exact finds_worded hq fun word hword => by cases hword; exact hkind
  · exact finds_worded hq fun word hword => by cases hword; exact hkind
  · exact finds_worded hq fun word hword => by cases hword; exact hkind
  · exact (finds_expressionStatement hclosed hordered hq).mono fun _ _ h => h.1

theorem locates_classDeclaration : Locates tokens .classDeclaration := by
  intro n p i hp hword
  replace hword := hword _ rfl
  simp only [ofRule]
  refine finds_word hclosed hp hword (by decide) fun start q hq hstart => ?_
  refine .bind hclosed (finds_expectName hq hclosed _) ?_
  rintro name _ q hq ⟨rfl, hname⟩
  refine .bind hclosed (finds_expect hq hclosed (by decide) _) ?_
  rintro _ _ q hq ⟨rfl, hleft⟩
  refine .bind hclosed (finds_rule hq rfl) ?_
  intro methods j q hq hmethods
  have hle := (Functions.of_mem hmethods).1
  refine .bind hclosed (finds_expect hq hclosed (by decide) _) ?_
  rintro _ _ q hq ⟨rfl, hright⟩
  refine .bind hclosed (finds_spanFrom hq hordered hstart.fromTo (by omega)) ?_
  rintro span _ q hq ⟨rfl, hspan⟩
  exact finds_pure hq (.class hword hname hleft hmethods hright hspan)

theorem locates_functionDeclaration : Locates tokens .functionDeclaration := by
  intro n p i hp hword
  replace hword := hword _ rfl
  simp only [ofRule]
  refine finds_word hclosed hp hword (by decide) fun start q hq hstart => ?_
  refine .bind hclosed (finds_rule hq rfl) ?_
  intro decl j q hq hdecl
  have hlt := (Function.fromTo hdecl).lt
  refine .bind hclosed (finds_spanFrom hq hordered hstart.fromTo (by omega)) ?_
  rintro span _ q hq ⟨rfl, hspan⟩
  exact finds_pure hq (.function hword hdecl hspan)

theorem locates_function (role : FunctionRole) : Locates tokens (.function role) := by
  intro n p i hp _
  simp only [ofRule]
  refine .bind hclosed (finds_here hp) ?_
  rintro start _ q hq ⟨rfl, hstart⟩
  refine .bind hclosed (finds_expectName hq hclosed _) ?_
  rintro name _ q hq ⟨rfl, hname⟩
  refine .bind hclosed (finds_expect hq hclosed (by decide) _) ?_
  rintro _ _ q hq ⟨rfl, hleft⟩
  refine .bind hclosed (finds_parameters hclosed hq) ?_
  rintro params _ q hq ⟨j, rfl, hparams, hright⟩
  have hle := hparams.le
  refine .bind hclosed (finds_expect hq hclosed (by decide) _) ?_
  rintro _ _ q hq ⟨rfl, hleftBrace⟩
  refine .bind hclosed (finds_rule hq rfl) ?_
  rintro body _ q hq ⟨k, rfl, hbody, hrightBrace⟩
  have hle' := hbody.of_mem.1
  refine .bind hclosed (finds_freshFunction hq) ?_
  rintro number _ q hq rfl
  refine .bind hclosed (finds_spanFrom hq hordered hstart.fromTo (by omega)) ?_
  rintro span _ q hq ⟨rfl, hspan⟩
  exact finds_pure hq (.mk hname hleft hparams hright hleftBrace hbody hrightBrace hspan)

theorem locates_block : Locates tokens .block := by
  intro n p i hp hword
  replace hword := hword _ rfl
  simp only [ofRule]
  refine finds_word hclosed hp hword (by decide) fun start q hq hstart => ?_
  refine .bind hclosed (finds_rule hq rfl) ?_
  rintro body _ q hq ⟨k, rfl, hbody, hright⟩
  have hle := hbody.of_mem.1
  refine .bind hclosed (finds_spanFrom hq hordered hstart.fromTo (by omega)) ?_
  rintro span _ q hq ⟨rfl, hspan⟩
  exact finds_pure hq (.block hword hbody hright hspan)

theorem locates_ifStatement : Locates tokens .ifStatement := by
  intro n p i hp hword
  replace hword := hword _ rfl
  simp only [ofRule]
  refine finds_word hclosed hp hword (by decide) fun start q hq hstart => ?_
  refine .bind hclosed (finds_expect hq hclosed (by decide) _) ?_
  rintro _ _ q hq ⟨rfl, hleft⟩
  refine .bind hclosed (finds_rule hq rfl) ?_
  intro condition j q hq hcondition
  have hlt := hcondition.fromTo.lt
  refine .bind hclosed (finds_expect hq hclosed (by decide) _) ?_
  rintro _ _ q hq ⟨rfl, hright⟩
  refine .bind hclosed (finds_rule hq rfl) ?_
  intro thenBranch k q hq hthen
  have hlt' := hthen.fromTo.lt
  refine .bind hclosed (finds_accept hq hclosed (by decide)) ?_
  rintro found l q hq hfound
  rw [finds_ite_bind]
  rcases hfound with ⟨rfl, hother, rfl⟩ | ⟨rfl, rfl⟩
  · rw [if_pos rfl]
    refine .bind hclosed (K := fun other l => ∃ s, other = some s ∧ Statement tokens (k + 1) l s)
      ?_ ?_
    · exact .map hclosed ((finds_rule hq rfl).mono fun s _ hs => ⟨s, rfl, hs⟩)
    rintro _ l q hq ⟨elseBranch, rfl, helse⟩
    have hlt'' := helse.fromTo.lt
    refine .bind hclosed (finds_spanFrom hq hordered hstart.fromTo (by omega)) ?_
    rintro span _ q hq ⟨rfl, hspan⟩
    exact finds_pure hq (.ifElse hword hleft hcondition hright hthen hother helse hspan)
  · rw [if_neg Bool.false_ne_true]
    refine .bind hclosed (finds_pure hq (J := fun other l => other = none ∧ k = l) ⟨rfl, rfl⟩) ?_
    rintro _ _ q hq ⟨rfl, rfl⟩
    refine .bind hclosed (finds_spanFrom hq hordered hstart.fromTo (by omega)) ?_
    rintro span _ q hq ⟨rfl, hspan⟩
    exact finds_pure hq (.ifThen hword hleft hcondition hright hthen hspan)

theorem locates_whileStatement : Locates tokens .whileStatement := by
  intro n p i hp hword
  replace hword := hword _ rfl
  simp only [ofRule]
  refine finds_word hclosed hp hword (by decide) fun start q hq hstart => ?_
  refine .bind hclosed (finds_expect hq hclosed (by decide) _) ?_
  rintro _ _ q hq ⟨rfl, hleft⟩
  refine .bind hclosed (finds_rule hq rfl) ?_
  intro condition j q hq hcondition
  have hlt := hcondition.fromTo.lt
  refine .bind hclosed (finds_expect hq hclosed (by decide) _) ?_
  rintro _ _ q hq ⟨rfl, hright⟩
  refine .bind hclosed (finds_rule hq rfl) ?_
  intro body k q hq hbody
  have hlt' := hbody.fromTo.lt
  refine .bind hclosed (finds_spanFrom hq hordered hstart.fromTo (by omega)) ?_
  rintro span _ q hq ⟨rfl, hspan⟩
  exact finds_pure hq (.while hword hleft hcondition hright hbody hspan)

theorem locates_forStatement : Locates tokens .forStatement := by
  intro n p i hp hword
  replace hword := hword _ rfl
  simp only [ofRule]
  refine finds_word hclosed hp hword (by decide) fun start q hq hstart => ?_
  refine .bind hclosed (finds_expect hq hclosed (by decide) _) ?_
  rintro _ _ q hq ⟨rfl, hleft⟩
  refine .bind hclosed (finds_forInitializer hclosed hordered hq) ?_
  rintro initializer _ q hq ⟨j, rfl, hinitializer, hfirst⟩
  have hle := hinitializer.le
  refine .bind hclosed (finds_forCondition hclosed hq) ?_
  intro condition k q hq hcondition
  have hle' := hcondition.fromTo.1
  refine .bind hclosed (finds_expect hq hclosed (by decide) _) ?_
  rintro _ _ q hq ⟨rfl, hsecond⟩
  refine .bind hclosed (finds_peek hq) ?_
  rintro kind _ q hq ⟨rfl, -⟩
  rw [finds_ite_bind]
  refine .bind hclosed (finds_maybe hclosed hq _) ?_
  intro increment l q hq hincrement
  have hle'' := hincrement.le
  refine .bind hclosed (finds_expect hq hclosed (by decide) _) ?_
  rintro _ _ q hq ⟨rfl, hright⟩
  refine .bind hclosed (finds_rule hq rfl) ?_
  intro body m q hq hbody
  have hlt := hbody.fromTo.lt
  refine .bind hclosed (finds_spanFrom hq hordered hstart.fromTo (by omega)) ?_
  rintro span _ q hq ⟨rfl, hspan⟩
  exact finds_pure hq (.for hword hleft hinitializer hfirst hcondition hsecond hincrement hright
    hbody hspan)

/-- Where no error was noted, all that was read has its extent. -/
theorem located_kept : (located tokens).Kept where
  zero _ _ _ h := ⟨h.1, fun hclean => hclean⟩
  succ r := by
    refine Locates.kept hclosed ?_
    cases r with
    | properties object => exact locates_properties hclosed hordered object
    | parameterNames count => exact locates_parameterNames hclosed count
    | expression => exact locates_expression hclosed hordered
    | binary level => exact locates_binary hclosed level
    | operand level => exact locates_operand level
    | binaryTail level left => exact locates_binaryTail hclosed hordered level left
    | unary => exact locates_unary hclosed hordered
    | call => exact locates_call hclosed
    | callTail callee => exact locates_callTail hclosed hordered callee
    | instantiation => exact locates_instantiation hclosed hordered
    | arguments => exact locates_arguments hclosed
    | argumentValues count => exact locates_argumentValues hclosed count
    | primary => exact locates_primary hclosed hordered
    | declaration => exact locates_declaration hclosed hordered
    | classDeclaration => exact locates_classDeclaration hclosed hordered
    | methods => exact locates_methods hclosed
    | functionDeclaration => exact locates_functionDeclaration hclosed hordered
    | function role => exact locates_function hclosed hordered role
    | blockBody => exact locates_blockBody hclosed
    | blockItems => exact locates_blockItems hclosed
    | statement => exact locates_statement hclosed hordered
    | block => exact locates_block hclosed hordered
    | ifStatement => exact locates_ifStatement hclosed hordered
    | whileStatement => exact locates_whileStatement hclosed hordered
    | forStatement => exact locates_forStatement hclosed hordered
    | statements => exact locates_statements hclosed

end Rules

end Reading

end Parse

/-- A program that is read without error was read from all of the tokens up to an end token. -/
theorem Parsed.extent {tokens : List Token} (hclosed : Closed tokens) (hordered : Ordered tokens)
    {supply : Supply} (h : (Parsed.ofTokens supply tokens).errors = []) :
    ∃ j, Extent.Statements tokens 0 j (Parsed.ofTokens supply tokens).program.statements ∧
      Extent.IsAt tokens j .eof := by
  have hne : tokens ≠ [] := by
    obtain ⟨ts, last, rfl, -⟩ := hclosed
    simp
  have hstart := Parser.standsAt_start supply hne
  have hready : (Parse.located tokens).ready (Parse.budget tokens) .statements
      (Parser.start supply tokens) := ⟨⟨0, hstart⟩, fun i hi kind hkind => by cases hkind⟩
  have hends : (Parse.located tokens).Ends .statements _
      (Parse.statements (Parse.budget tokens) (Parser.start supply tokens)) :=
    (Parse.Reading.located_kept hclosed hordered).ends hready
  rw [Parsed.ofTokens] at h ⊢
  cases hrun : Parse.statements (Parse.budget tokens) (Parser.start supply tokens) with
  | ok statements p =>
    rw [hrun] at h
    rw [hrun] at hends
    obtain ⟨⟨j, hj⟩, hread⟩ := hends
    have hclean : p.noted = 0 := by
      have hnil : p.errors.toList = [] := h
      rw [Parser.noted, ← Array.length_toList, hnil, List.length_nil]
    obtain ⟨i, hi, hstatements, hend⟩ := hread j ⟨hj, hclean⟩
    have hzero : i = 0 := by
      have := hi.stands.length_eq
      have := hstart.length_eq
      omega
    subst hzero
    exact ⟨j, hstatements, hend⟩
  | error e p =>
    rw [hrun] at h
    simp at h

end Lox
