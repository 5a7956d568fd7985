import Lox.Proofs.Syntax.ProgressExpression

/-!
# Progress of statements

**After an error.** An error that a statement gave up with is noted, and then either a token was
read for it, or the cursor is still where it was (`Recorded`).  In the second case the token there
is skipped; at the closing brace of a block this case does not occur, because no statement is
begun there.
-/

namespace Lox

namespace Parse

namespace Reading

section Rules

variable {tokens : List Token} (hclosed : Closed tokens)

include hclosed

/-! ## Statements -/

section Parts

variable {n k : Nat} {p q : Parser} {stop : CompileError → Parser → Prop}
  (hn : 20 * p.left ≤ n) (hstop : ∀ e q', Gains tokens 1 p q' → stop e q')

include hn hstop

theorem obeys_parameters {ok : List String → Parser → Prop} (h : Gains tokens (k + 1) p q)
    (hok : ∀ a q', Gains tokens (k + 1) p q' → ok a q') :
    parameters.Obeys (progress tokens) n ok stop q := by
  simp only [parameters, obeys_bind, obeys_ite_bind, obeys_pure]
  refine obeys_peek h.inside ?_
  refine after_branches h (after_rule hn hstop h False.elim fun _ _ => id) fun names q hq => ?_
  exact after_expect hstop hq hclosed (by decide) fun q hq => hok names q hq

omit hn in
theorem obeys_expressionStatement {ok : Stmt → Parser → Prop}
    (hvalue : (rule .expression).Obeys (progress tokens) n (fun _ => Gains tokens (k + 1) p) stop q)
    (hok : ∀ a q', Gains tokens (k + 1) p q' → ok a q') :
    expressionStatement.Obeys (progress tokens) n ok stop q := by
  simp only [expressionStatement, obeys_bind, obeys_pure]
  refine hvalue.mono (fun value q hq => ?_) fun _ _ => id
  refine after_expect hstop hq hclosed (by decide) fun q hq => ?_
  exact obeys_before hq.inside (hok _ q hq)

theorem obeys_varDeclaration {ok : Stmt → Parser → Prop} (h : Gains tokens k p q)
    (hkind : q.kind ≠ .eof) (hok : ∀ a q', Gains tokens (k + 1) p q' → ok a q') :
    varDeclaration.Obeys (progress tokens) n ok stop q := by
  simp only [varDeclaration, obeys_bind, obeys_ite_bind, obeys_pure]
  refine obeys_here h.inside (obeys_advance hclosed h hkind fun q hq => ?_)
  refine after_expectName hstop hq hclosed fun name q hq => ?_
  refine after_accept hq hclosed (by decide) fun more q hq => ?_
  refine after_branches (after_optional hn hstop hq False.elim) hq fun initializer q hq => ?_
  refine after_expect hstop hq hclosed (by decide) fun q hq => ?_
  exact obeys_spanFrom hq.inside (hok _ q hq)

theorem obeys_printStatement {ok : Stmt → Parser → Prop} (h : Gains tokens k p q)
    (hkind : q.kind ≠ .eof) (hok : ∀ a q', Gains tokens (k + 1) p q' → ok a q') :
    printStatement.Obeys (progress tokens) n ok stop q := by
  simp only [printStatement, obeys_bind, obeys_pure]
  refine obeys_here h.inside (obeys_advance hclosed h hkind fun q hq => ?_)
  refine after_rule hn hstop hq False.elim fun value q hq => ?_
  refine after_expect hstop hq hclosed (by decide) fun q hq => ?_
  exact obeys_spanFrom hq.inside (hok _ q hq)

theorem obeys_returnStatement {ok : Stmt → Parser → Prop} (h : Gains tokens k p q)
    (hkind : q.kind ≠ .eof) (hok : ∀ a q', Gains tokens (k + 1) p q' → ok a q') :
    returnStatement.Obeys (progress tokens) n ok stop q := by
  simp only [returnStatement, obeys_bind, obeys_ite_bind, obeys_pure]
  refine obeys_here h.inside (obeys_advance hclosed h hkind fun q hq => ?_)
  refine obeys_peek hq.inside ?_
  refine after_branches hq (after_optional hn hstop hq False.elim) fun value q hq => ?_
  refine after_expect hstop hq hclosed (by decide) fun q hq => ?_
  exact obeys_spanFrom hq.inside (hok _ q hq)

theorem obeys_forInitializer {ok : Option Stmt → Parser → Prop} (h : Gains tokens (k + 1) p q)
    (hok : ∀ a q', Gains tokens (k + 1) p q' → ok a q') :
    forInitializer.Obeys (progress tokens) n ok stop q := by
  simp only [forInitializer, obeys_bind]
  refine after_accept h hclosed (by decide) fun none q hq => ?_
  split
  · exact hok _ q hq
  · rw [obeys_bind]
    refine obeys_peek hq.inside ?_
    split
    · next hkind =>
      rw [obeys_map]
      exact obeys_varDeclaration hclosed hn hstop hq (kind_ne hkind (by decide))
        fun a q hq => hok _ q (hq.mono (by omega))
    · rw [obeys_map]
      exact obeys_expressionStatement hclosed hstop
        (after_rule hn hstop hq False.elim fun _ _ => id) fun a q hq => hok _ q hq

omit hclosed in
theorem obeys_forCondition {ok : Expr → Parser → Prop} (h : Gains tokens (k + 1) p q)
    (hok : ∀ a q', Gains tokens (k + 1) p q' → ok a q') :
    forCondition.Obeys (progress tokens) n ok stop q := by
  simp only [forCondition, obeys_bind]
  refine obeys_peek h.inside ?_
  split
  · simp only [obeys_bind]
    exact obeys_here h.inside (obeys_freshNode h fun node q hq => hok _ q hq)
  · exact after_rule hn hstop h False.elim fun a q hq => hok a q hq

end Parts

theorem progress_declaration : (progress tokens).KeptBy .declaration := by
  refine keptBy_of_gains (fun _ _ => .inl) fun n p hin _ hn hstop => ?_
  have hstays : ∀ e, (progress tokens).stops .declaration p e p := fun _ => .inr (.refl hin)
  simp only [ofRule, obeys_bind]
  refine obeys_peek hin ?_
  split
  · next hkind =>
    exact first_rule hin hn (by decide) (fun _ => kind_ne hkind (by decide))
      (fun a q hq => ⟨hq, trivial⟩) fun e q he => he
  · next hkind =>
    exact first_rule hin hn (by decide) (fun _ => kind_ne hkind (by decide))
      (fun a q hq => ⟨hq, trivial⟩) fun e q he => he
  · next hkind =>
    exact obeys_varDeclaration hclosed (by omega) hstop (.refl hin) (kind_ne hkind (by decide))
      fun a q hq => ⟨hq, trivial⟩
  · exact ⟨safe_look hin, hstays _⟩
  · exact ⟨safe_look hin, hstays _⟩
  · exact first_rule hin hn (by decide) False.elim (fun a q hq => ⟨hq, trivial⟩) fun e q he => he

theorem progress_statement : (progress tokens).KeptBy .statement := by
  refine keptBy_of_gains (fun _ _ => .inl) fun n p hin _ hn hstop => ?_
  simp only [ofRule, obeys_bind]
  refine obeys_peek hin ?_
  split
  · next hkind =>
    exact obeys_printStatement hclosed (by omega) hstop (.refl hin) (kind_ne hkind (by decide))
      fun a q hq => ⟨hq, trivial⟩
  · next hkind =>
    exact obeys_returnStatement hclosed (by omega) hstop (.refl hin) (kind_ne hkind (by decide))
      fun a q hq => ⟨hq, trivial⟩
  · next hkind =>
    exact first_rule hin hn (by decide) (fun _ => kind_ne hkind (by decide))
      (fun a q hq => ⟨hq, trivial⟩) fun e q he => he
  · next hkind =>
    exact first_rule hin hn (by decide) (fun _ => kind_ne hkind (by decide))
      (fun a q hq => ⟨hq, trivial⟩) fun e q he => he
  · next hkind =>
    exact first_rule hin hn (by decide) (fun _ => kind_ne hkind (by decide))
      (fun a q hq => ⟨hq, trivial⟩) fun e q he => he
  · next hkind =>
    exact first_rule hin hn (by decide) (fun _ => kind_ne hkind (by decide))
      (fun a q hq => ⟨hq, trivial⟩) fun e q he => he
  · exact obeys_expressionStatement hclosed hstop
      (first_rule hin hn (by decide) False.elim (fun a q hq => hq) fun e q he => he)
      fun a q hq => ⟨hq, trivial⟩

theorem progress_classDeclaration : (progress tokens).KeptBy .classDeclaration := by
  refine keptBy_of_gains (fun _ _ => .inl) fun n p hin hkind hn hstop => ?_
  simp only [ofRule, obeys_bind]
  refine obeys_here hin (obeys_advance hclosed (.refl hin) (hkind trivial) fun q hq => ?_)
  refine after_expectName hstop hq hclosed fun name q hq => ?_
  refine after_expect hstop hq hclosed (by decide) fun q hq => ?_
  refine after_rule (by omega) hstop hq False.elim fun methods q hq => ?_
  refine after_expect hstop hq hclosed (by decide) fun q hq => ?_
  exact obeys_spanFrom hq.inside ⟨hq, trivial⟩

theorem progress_functionDeclaration : (progress tokens).KeptBy .functionDeclaration := by
  refine keptBy_of_gains (fun _ _ => .inl) fun n p hin hkind hn hstop => ?_
  simp only [ofRule, obeys_bind]
  refine obeys_here hin (obeys_advance hclosed (.refl hin) (hkind trivial) fun q hq => ?_)
  refine after_rule (by omega) hstop hq False.elim fun decl q hq => ?_
  exact obeys_spanFrom hq.inside ⟨hq, trivial⟩

theorem progress_function (role : FunctionRole) : (progress tokens).KeptBy (.function role) := by
  refine keptBy_of_gains (fun _ _ => .inl) fun n p hin _ hn hstop => ?_
  simp only [ofRule, obeys_bind]
  refine obeys_here hin ?_
  refine obeys_expectName hclosed (.refl hin) (fun name q hq => ?_) fun e => .inr (.refl hin)
  refine after_expect hstop hq hclosed (by decide) fun q hq => ?_
  refine obeys_parameters hclosed (by omega) hstop hq fun params q hq => ?_
  refine after_expect hstop hq hclosed (by decide) fun q hq => ?_
  refine after_rule (by omega) hstop hq False.elim fun body q hq => ?_
  refine obeys_freshFunction hq fun number q hq => ?_
  exact obeys_spanFrom hq.inside ⟨hq, trivial⟩

omit hclosed in
theorem progress_methods : (progress tokens).KeptBy .methods := by
  refine keptBy_of_gains (fun _ _ => .inl) fun n p hin _ hn hstop => ?_
  simp only [ofRule, obeys_bind]
  refine obeys_atEnd hin (obeys_peek hin ?_)
  split
  · exact ⟨.refl hin, trivial⟩
  · simp only [obeys_bind]
    refine first_rule hin hn (by decide) False.elim (fun method q hq => ?_) fun e q he => he
    exact after_rule (k := 0) (by omega) hstop hq False.elim
      fun methods q hq => ⟨hq.mono (Nat.zero_le _), trivial⟩

theorem progress_blockBody : (progress tokens).KeptBy .blockBody := by
  rintro n p ⟨hin, -, hn⟩
  simp only [ofRule, obeys_bind]
  refine first_rule hin hn (by decide) False.elim (fun body q hq => ?_) fun e q he => absurd he id
  exact obeys_expect hclosed (by decide) hq (fun q hq => ⟨hq, trivial⟩) fun e => hq

theorem progress_block : (progress tokens).KeptBy .block := by
  refine keptBy_of_gains (fun _ _ => .inl) fun n p hin hkind hn hstop => ?_
  simp only [ofRule, obeys_bind]
  refine obeys_here hin (obeys_advance hclosed (.refl hin) (hkind trivial) fun q hq => ?_)
  refine after_rule (by omega) hstop hq False.elim fun body q hq => ?_
  exact obeys_spanFrom hq.inside ⟨hq, trivial⟩

theorem progress_ifStatement : (progress tokens).KeptBy .ifStatement := by
  refine keptBy_of_gains (fun _ _ => .inl) fun n p hin hkind hn hstop => ?_
  simp only [ofRule, obeys_bind, obeys_ite_bind]
  refine obeys_here hin (obeys_advance hclosed (.refl hin) (hkind trivial) fun q hq => ?_)
  refine after_expect hstop hq hclosed (by decide) fun q hq => ?_
  refine after_rule (by omega) hstop hq False.elim fun condition q hq => ?_
  refine after_expect hstop hq hclosed (by decide) fun q hq => ?_
  refine after_rule (by omega) hstop hq False.elim fun thenBranch q hq => ?_
  refine after_accept hq hclosed (by decide) fun more q hq => ?_
  refine after_branches (after_optional (by omega) hstop hq False.elim) hq fun elseBranch q hq => ?_
  exact obeys_spanFrom hq.inside ⟨hq, trivial⟩

theorem progress_whileStatement : (progress tokens).KeptBy .whileStatement := by
  refine keptBy_of_gains (fun _ _ => .inl) fun n p hin hkind hn hstop => ?_
  simp only [ofRule, obeys_bind]
  refine obeys_here hin (obeys_advance hclosed (.refl hin) (hkind trivial) fun q hq => ?_)
  refine after_expect hstop hq hclosed (by decide) fun q hq => ?_
  refine after_rule (by omega) hstop hq False.elim fun condition q hq => ?_
  refine after_expect hstop hq hclosed (by decide) fun q hq => ?_
  refine after_rule (by omega) hstop hq False.elim fun body q hq => ?_
  exact obeys_spanFrom hq.inside ⟨hq, trivial⟩

theorem progress_forStatement : (progress tokens).KeptBy .forStatement := by
  refine keptBy_of_gains (fun _ _ => .inl) fun n p hin hkind hn hstop => ?_
  simp only [ofRule, obeys_bind, obeys_ite_bind]
  refine obeys_here hin (obeys_advance hclosed (.refl hin) (hkind trivial) fun q hq => ?_)
  refine after_expect hstop hq hclosed (by decide) fun q hq => ?_
  refine obeys_forInitializer hclosed (by omega) hstop hq fun initializer q hq => ?_
  refine obeys_forCondition (by omega) hstop hq fun condition q hq => ?_
  refine after_expect hstop hq hclosed (by decide) fun q hq => ?_
  refine obeys_peek hq.inside ?_
  refine after_branches hq (after_optional (by omega) hstop hq False.elim) fun increment q hq => ?_
  refine after_expect hstop hq hclosed (by decide) fun q hq => ?_
  refine after_rule (by omega) hstop hq False.elim fun body q hq => ?_
  exact obeys_spanFrom hq.inside ⟨hq, trivial⟩

/-! ## Going on after an error -/

/-- After an error of what began at `p` was noted: a token was read for it, or the cursor is still
where it was. -/
def Recorded (tokens : List Token) (p q : Parser) : Prop :=
  (Gains tokens 0 p q ∧ q.left < p.left) ∨
    (q.Inside tokens ∧ q.kind = p.kind ∧ q.left = p.left ∧ q.noted = p.noted + 1)

section Recovery

variable {n : Nat} {p q : Parser} {stop : CompileError → Parser → Prop}

omit hclosed in
theorem obeys_note_error {ok : Unit → Parser → Prop} {error : CompileError}
    (hin : p.Inside tokens) (h : Gains tokens 1 p q ∨ Stays tokens p q)
    (hok : ∀ q', Recorded tokens p q' → ok () q') :
    (note error).Obeys (progress tokens) n ok stop q := by
  have hsize : ((Move.note error).after q).noted = q.noted + 1 := Array.size_push _
  rcases h with hgains | hstays
  · have hinside : ((Move.note error).after q).Inside tokens := hgains.inside.same rfl rfl rfl
    refine ⟨⟨hgains.inside, False.elim⟩, hok _ (.inl ⟨⟨hinside, ?_, ?_⟩, ?_⟩)⟩
    · exact hsize ▸ Nat.le_succ_of_le hgains.noted
    · have hspent := hgains.spent
      rw [hsize]
      show q.noted + 1 + q.left + 0 ≤ _
      omega
    · exact hgains.left_lt
  · refine ⟨⟨hstays.inside, False.elim⟩, hok _ (.inr ⟨hstays.inside.same rfl rfl rfl, ?_, ?_, ?_⟩)⟩
    · exact (hstays.kind_eq hin : q.kind = p.kind)
    · exact hstays.left
    · rw [hsize, hstays.noted]

theorem obeys_synchronize_of_recorded {ok : Unit → Parser → Prop} (hkind : p.kind ≠ .eof)
    (h : Recorded tokens p q) (hok : ∀ q', Gains tokens 0 p q' → q'.left < p.left → ok () q') :
    synchronize.Obeys (progress tokens) n ok stop q := by
  rcases h with ⟨hgains, hleft⟩ | ⟨hin, hsame, hleft, hnoted⟩
  · have hafter : ∀ l q', Gains tokens l q q' → ok () q' := fun l q' hq =>
      hok q' ((hgains.trans hq).mono (Nat.zero_le _)) (Nat.lt_of_le_of_lt hq.left_le hleft)
    exact obeys_synchronize hclosed (.refl hgains.inside) (fun _ => hafter 1) fun _ => hafter 0
  · refine obeys_synchronize hclosed (.refl hin) (fun _ q' hq => ?_) fun hend =>
      absurd (hsame.symm.trans hend) hkind
    have hlt := hq.left_lt
    have hspent := hq.spent
    have hmore := hq.noted
    exact hok q' ⟨hq.inside, by omega, by omega⟩ (by omega)

end Recovery

theorem progress_blockItems : (progress tokens).KeptBy .blockItems := by
  rintro n p ⟨hin, -, hn⟩
  have hrest : ∀ q, Gains tokens 0 p q → q.left < p.left →
      (rule .blockItems).Obeys (progress tokens) n (fun _ => Gains tokens 0 p) (fun _ _ => False)
        q := fun q hq hlt => by
    refine ⟨⟨hq.inside, False.elim, ?_⟩, fun a q' ha => hq.trans ha.1, fun e q' he => he⟩
    simp only [Rule.rank] at hn ⊢
    omega
  have hlast : ∀ q, Gains tokens 0 p q → q.left < p.left →
      (rule .blockItems).Obeys (progress tokens) n ((progress tokens).reads .blockItems p)
        ((progress tokens).stops .blockItems p) q := fun q hq hlt =>
    (hrest q hq hlt).mono (fun a q' ha => ⟨ha, trivial⟩) fun _ _ => id
  simp only [ofRule, obeys_bind]
  refine obeys_atEnd hin (obeys_peek hin ?_)
  split
  · exact ⟨.refl hin, trivial⟩
  · next hgo =>
    simp only [Bool.or_eq_true, decide_eq_true_eq, not_or] at hgo
    rw [obeys_bind]
    refine ⟨⟨hin, False.elim, ?_⟩, fun stmt q hq => ?_, fun error q hq => ?_⟩
    · simp only [Rule.rank] at hn ⊢
      omega
    · show Obeys _ _ _ _ (_ >>= _) q
      rw [obeys_bind]
      exact (hrest q (hq.1.mono (Nat.zero_le _)) hq.1.left_lt).mono
        (fun a q' ha => ⟨ha, trivial⟩) fun _ _ => id
    · show Obeys _ _ _ _ (_ >>= _) q
      simp only [obeys_bind]
      refine obeys_note_error hin hq fun q hq => ?_
      refine obeys_peek ?_ ?_
      · exact hq.elim (·.1.inside) (·.1)
      split
      · rw [obeys_bind]
        exact obeys_synchronize_of_recorded hclosed hgo.1 hq hlast
      · next hbrace =>
        rcases hq with ⟨hgains, hlt⟩ | ⟨-, hsame, -⟩
        · exact hlast q hgains hlt
        · exact absurd (hsame.symm.trans (Decidable.not_not.1 hbrace)) hgo.2

theorem progress_statements : (progress tokens).KeptBy .statements := by
  rintro n p ⟨hin, -, hn⟩
  have hrest : ∀ q, Gains tokens 0 p q → q.left < p.left →
      (rule .statements).Obeys (progress tokens) n
        (fun _ q' => Gains tokens 0 p q' ∧ q'.kind = .eof) (fun _ _ => False)
        q := fun q hq hlt => by
    refine ⟨⟨hq.inside, False.elim, ?_⟩, fun a q' ha => ⟨hq.trans ha.1, ha.2⟩, fun e q' he => he⟩
    simp only [Rule.rank] at hn ⊢
    omega
  simp only [ofRule, obeys_bind]
  refine obeys_atEnd hin ?_
  split
  · next hend =>
    have hkind : p.kind = .eof := by simpa using hend
    exact ⟨.refl hin, hkind⟩
  · next hgo =>
    have hkind : p.kind ≠ .eof := by simpa using hgo
    rw [obeys_bind]
    refine ⟨⟨hin, False.elim, ?_⟩, fun stmt q hq => ?_, fun error q hq => ?_⟩
    · simp only [Rule.rank] at hn ⊢
      omega
    · show Obeys _ _ _ _ (_ >>= _) q
      rw [obeys_bind]
      exact (hrest q (hq.1.mono (Nat.zero_le _)) hq.1.left_lt).mono
        (fun a q' ha => ⟨ha.1, ha.2⟩) fun _ _ => id
    · show Obeys _ _ _ _ (_ >>= _) q
      simp only [obeys_bind]
      refine obeys_note_error hin hq fun q hq => ?_
      refine obeys_synchronize_of_recorded hclosed hkind hq fun q hq hlt => ?_
      exact (hrest q hq hlt).mono (fun a q' ha => ⟨ha.1, ha.2⟩) fun _ _ => id

/-- Whatever the tokens are, as long as an end token stands last, reading makes progress. -/
theorem progress_kept : (progress tokens).Kept where
  zero _ _ _ h := absurd h.2.2 (Nat.not_lt_zero _)
  succ r := by
    cases r with
    | properties object => exact progress_properties hclosed object
    | parameterNames count => exact progress_parameterNames hclosed count
    | expression => exact progress_expression hclosed
    | binary level => exact progress_binary level
    | operand level => exact progress_operand level
    | binaryTail level left => exact progress_binaryTail hclosed level left
    | unary => exact progress_unary hclosed
    | call => exact progress_call
    | callTail callee => exact progress_callTail hclosed callee
    | instantiation => exact progress_instantiation hclosed
    | arguments => exact progress_arguments hclosed
    | argumentValues count => exact progress_argumentValues hclosed count
    | primary => exact progress_primary hclosed
    | declaration => exact progress_declaration hclosed
    | classDeclaration => exact progress_classDeclaration hclosed
    | methods => exact progress_methods
    | functionDeclaration => exact progress_functionDeclaration hclosed
    | function role => exact progress_function hclosed role
    | blockBody => exact progress_blockBody hclosed
    | blockItems => exact progress_blockItems hclosed
    | statement => exact progress_statement hclosed
    | block => exact progress_block hclosed
    | ifStatement => exact progress_ifStatement hclosed
    | whileStatement => exact progress_whileStatement hclosed
    | forStatement => exact progress_forStatement hclosed
    | statements => exact progress_statements hclosed

end Rules

end Reading

end Parse

end Lox
