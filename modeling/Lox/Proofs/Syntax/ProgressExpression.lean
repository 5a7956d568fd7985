import Lox.Proofs.Syntax.Progress

/-!
# Progress of expressions

The first step of a rule decides what is left to show.  Once a token was read, whatever the rule
begins has enough budget, and wherever it gives up, it has read more than it noted; so one lemma
for each kind of step is enough from there on (`after_rule`, `after_expect`, ...).
-/

namespace Lox

namespace Parse

namespace Reading

section Steps

variable {α β : Type} {tokens : List Token} {n k : Nat} {p q : Parser}
  {stop : CompileError → Parser → Prop}

theorem Stops.gains {s : Rule} (h : s.Stops tokens p q) : Gains tokens 0 p q := by
  have hone : Gains tokens 1 p q ∨ Stays tokens p q → Gains tokens 0 p q := by
    rintro (hgains | hstays)
    · exact hgains.mono (Nat.zero_le 1)
    · exact ⟨hstays.inside, Nat.le_of_eq hstays.noted.symm,
        Nat.le_of_eq (by rw [hstays.noted, hstays.left, Nat.add_zero])⟩
  cases s with
  | blockItems | statements => exact absurd h id
  | blockBody => exact h
  | _ => exact hone h

/-- A rule may begin others of smaller rank before a token is read. -/
theorem first_rule {r s : Rule} {ok : s.Answer → Parser → Prop} (hin : p.Inside tokens)
    (hn : 20 * p.left + r.rank < n + 1) (hrank : s.rank < r.rank)
    (hblind : s.StartsBlind → p.kind ≠ .eof) (hok : ∀ a q, Gains tokens s.least p q → ok a q)
    (hstop : ∀ e q, s.Stops tokens p q → stop e q) :
    (rule s).Obeys (progress tokens) n ok stop p :=
  ⟨⟨hin, hblind, by omega⟩, fun a q ha => hok a q ha.1, hstop⟩

/-- A rule may give up once more tokens were read than errors noted. -/
theorem keptBy_of_gains {r : Rule} (hgains : ∀ p q, Gains tokens 1 p q → r.Stops tokens p q)
    (h : ∀ n p, p.Inside tokens → (r.StartsBlind → p.kind ≠ .eof) →
      20 * p.left + r.rank < n + 1 →
      (∀ e q, Gains tokens 1 p q → (progress tokens).stops r p e q) →
      (ofRule r).Obeys (progress tokens) n ((progress tokens).reads r p)
        ((progress tokens).stops r p) p) :
    (progress tokens).KeptBy r :=
  fun n p hready => h n p hready.1 hready.2.1 hready.2.2 fun _ q hq => hgains p q hq

/-! ## After a token was read -/

variable (hn : 20 * p.left ≤ n) (hstop : ∀ e q', Gains tokens 1 p q' → stop e q')
  (h : Gains tokens (k + 1) p q)

include hn hstop h

theorem after_rule {s : Rule} {ok : s.Answer → Parser → Prop}
    (hblind : s.StartsBlind → q.kind ≠ .eof)
    (hok : ∀ a q', Gains tokens (k + 1) p q' → ok a q') :
    (rule s).Obeys (progress tokens) n ok stop q := by
  have hlt := h.left_lt
  have hrank := s.rank_lt
  refine ⟨⟨h.inside, hblind, by omega⟩, fun a q' ha => ?_, fun e q' he => ?_⟩
  · exact hok a q' ((h.trans ha.1).mono (by omega))
  · exact hstop e q' ((h.trans (Stops.gains he)).mono (by omega))

omit hn hstop h in
/-- What comes after two branches is looked at once. -/
theorem after_branches {c : Prop} [Decidable c] {x y : Reading α} {ok : α → Parser → Prop}
    (hx : x.Obeys (progress tokens) n (fun _ q' => Gains tokens (k + 1) p q') stop q)
    (hy : y.Obeys (progress tokens) n (fun _ q' => Gains tokens (k + 1) p q') stop q)
    (hok : ∀ a q', Gains tokens (k + 1) p q' → ok a q') :
    (if c then x else y).Obeys (progress tokens) n ok stop q := by
  split
  · exact hx.mono hok fun _ _ => id
  · exact hy.mono hok fun _ _ => id

theorem after_optional {s : Rule} (hblind : s.StartsBlind → q.kind ≠ .eof) :
    (some <$> rule s).Obeys (progress tokens) n (fun _ q' => Gains tokens (k + 1) p q') stop q := by
  rw [obeys_map]
  exact after_rule hn hstop h hblind fun _ _ => id

omit hn in
theorem after_expect {ok : Unit → Parser → Prop} {kind : Token.Kind} {missing : Missing}
    (hclosed : Closed tokens) (hkind : kind ≠ .eof)
    (hok : ∀ q', Gains tokens (k + 1) p q' → ok () q') :
    (expect kind missing).Obeys (progress tokens) n ok stop q :=
  obeys_expect hclosed hkind h (fun q' hq => hok q' (hq.mono (by omega)))
    fun e => hstop e q (h.mono (by omega))

omit hn in
theorem after_expectName {ok : String → Parser → Prop} {missing : Missing}
    (hclosed : Closed tokens) (hok : ∀ name q', Gains tokens (k + 1) p q' → ok name q') :
    (expectName missing).Obeys (progress tokens) n ok stop q :=
  obeys_expectName hclosed h (fun name q' hq => hok name q' (hq.mono (by omega)))
    fun e => hstop e q (h.mono (by omega))

omit hn in
theorem after_property {object : Expr} {ok : Expr → Parser → Prop} (hclosed : Closed tokens)
    (hok : ∀ a q', Gains tokens (k + 1) p q' → ok a q') :
    (property object).Obeys (progress tokens) n ok stop q := by
  simp only [property, obeys_bind, obeys_pure]
  refine after_expectName hstop h hclosed fun name q hq => ?_
  refine obeys_before hq.inside (obeys_freshNode hq fun node q hq => ?_)
  exact hok _ q hq

omit hn hstop in
theorem after_accept {ok : Bool → Parser → Prop} {kind : Token.Kind} (hclosed : Closed tokens)
    (hkind : kind ≠ .eof) (hok : ∀ b q', Gains tokens (k + 1) p q' → ok b q') :
    (accept kind).Obeys (progress tokens) n ok stop q :=
  obeys_accept hclosed hkind h (fun q' hq => hok true q' (hq.mono (by omega))) (hok false q h)

end Steps

/-! ## Rules of expressions -/

section Rules

variable {tokens : List Token} (hclosed : Closed tokens)

include hclosed

theorem progress_properties (object : Expr) : (progress tokens).KeptBy (.properties object) := by
  refine keptBy_of_gains (fun _ _ => .inl) fun n p hin _ hn hstop => ?_
  simp only [ofRule, obeys_bind]
  refine obeys_accept hclosed (by decide) (.refl hin) (fun q hq => ?_) ⟨.refl hin, trivial⟩
  simp only [↓reduceIte, obeys_bind]
  refine after_property hstop hq hclosed fun next q hq => ?_
  exact after_rule (by omega) hstop hq False.elim fun a q hq => ⟨hq.mono (Nat.zero_le _), trivial⟩

theorem progress_parameterNames (count : Nat) :
    (progress tokens).KeptBy (.parameterNames count) := by
  refine keptBy_of_gains (fun _ _ => .inl) fun n p hin _ hn hstop => ?_
  have hstays : ∀ e, (progress tokens).stops (.parameterNames count) p e p :=
    fun _ => .inr (.refl hin)
  simp only [ofRule]
  split
  · exact ⟨safe_look hin, hstays _⟩
  · simp only [obeys_bind]
    refine obeys_expectName hclosed (.refl hin) (fun name q hq => ?_) hstays
    refine after_accept hq hclosed (by decide) fun more q hq => ?_
    cases more with
    | false => exact ⟨hq, trivial⟩
    | true =>
      simp only [↓reduceIte, obeys_bind]
      exact after_rule (by omega) hstop hq False.elim fun names q hq => ⟨hq, trivial⟩

omit hclosed in
theorem progress_binary (level : Level) : (progress tokens).KeptBy (.binary level) := by
  refine keptBy_of_gains (fun _ _ => .inl) fun n p hin _ hn hstop => ?_
  simp only [ofRule, obeys_bind]
  refine first_rule hin hn (by simp [Rule.rank]) False.elim (fun left q hq => ?_) fun e q he => he
  exact after_rule (by omega) hstop (k := 0) hq False.elim fun a q hq => ⟨hq, trivial⟩

omit hclosed in
theorem progress_operand (level : Level) : (progress tokens).KeptBy (.operand level) := by
  rintro n p ⟨hin, -, hn⟩
  cases level <;>
    exact first_rule hin hn (by simp [Rule.rank, Level.rank]) False.elim
      (fun a q hq => ⟨hq, trivial⟩) fun e q he => he

theorem progress_binaryTail (level : Level) (left : Expr) :
    (progress tokens).KeptBy (.binaryTail level left) := by
  refine keptBy_of_gains (fun _ _ => .inl) fun n p hin _ hn hstop => ?_
  simp only [ofRule, obeys_bind]
  refine obeys_peek hin ?_
  split
  · exact ⟨.refl hin, trivial⟩
  · next op hop =>
    have hkind : p.kind ≠ .eof := by
      rintro heq
      rw [heq] at hop
      cases level <;> simp [Level.operator?] at hop
    simp only [obeys_bind]
    refine obeys_advance hclosed (.refl hin) hkind fun q hq => obeys_before hq.inside ?_
    refine after_rule (by omega) hstop hq False.elim fun right q hq => ?_
    refine obeys_freshNode hq fun node q hq => ?_
    exact after_rule (by omega) hstop hq False.elim fun a q hq => ⟨hq.mono (Nat.zero_le _), trivial⟩

theorem progress_unary : (progress tokens).KeptBy .unary := by
  refine keptBy_of_gains (fun _ _ => .inl) fun n p hin _ hn hstop => ?_
  simp only [ofRule, obeys_bind]
  refine obeys_peek hin ?_
  split
  · exact first_rule hin hn (by decide) False.elim (fun a q hq => ⟨hq, trivial⟩) fun e q he => he
  · next op hop =>
    have hkind : p.kind ≠ .eof := by
      rintro heq
      simp [heq, UnaryOp.ofKind?] at hop
    simp only [obeys_bind]
    refine obeys_here hin (obeys_advance hclosed (.refl hin) hkind fun q hq => ?_)
    refine after_rule (by omega) hstop hq False.elim fun operand q hq => ?_
    exact obeys_freshNode hq fun node q hq => ⟨hq, trivial⟩

omit hclosed in
theorem progress_call : (progress tokens).KeptBy .call := by
  refine keptBy_of_gains (fun _ _ => .inl) fun n p hin _ hn hstop => ?_
  simp only [ofRule, obeys_bind]
  refine obeys_peek hin ?_
  have htail : ∀ callee q, Gains tokens 1 p q → (rule (.callTail callee)).Obeys (progress tokens) n
      ((progress tokens).reads .call p) ((progress tokens).stops .call p) q := fun callee q hq =>
    after_rule (by omega) hstop (k := 0) hq False.elim fun a q hq => ⟨hq, trivial⟩
  split
  · next hkind =>
    exact first_rule hin hn (by decide) (fun _ => kind_ne hkind (by decide)) htail fun e q he => he
  · exact first_rule hin hn (by decide) False.elim htail fun e q he => he

theorem progress_callTail (callee : Expr) : (progress tokens).KeptBy (.callTail callee) := by
  refine keptBy_of_gains (fun _ _ => .inl) fun n p hin _ hn hstop => ?_
  have hmore : ∀ next q, Gains tokens 1 p q → (rule (.callTail next)).Obeys (progress tokens) n
      ((progress tokens).reads (.callTail callee) p)
      ((progress tokens).stops (.callTail callee) p) q := fun callee q hq =>
    after_rule (by omega) hstop (k := 0) hq False.elim
      fun a q hq => ⟨hq.mono (Nat.zero_le _), trivial⟩
  simp only [ofRule, obeys_bind]
  refine obeys_accept hclosed (by decide) (.refl hin) (fun q hq => ?_) ?_
  · simp only [↓reduceIte, obeys_bind]
    refine after_rule (by omega) hstop hq False.elim fun arguments q hq => ?_
    exact obeys_before hq.inside (obeys_freshNode hq fun node q hq => hmore _ q hq)
  · simp only [Bool.false_eq_true, ↓reduceIte, obeys_bind]
    refine obeys_accept hclosed (by decide) (.refl hin) (fun q hq => ?_) ⟨.refl hin, trivial⟩
    simp only [↓reduceIte, obeys_bind]
    exact after_property hstop hq hclosed fun next q hq => hmore next q hq

theorem progress_instantiation : (progress tokens).KeptBy .instantiation := by
  refine keptBy_of_gains (fun _ _ => .inl) fun n p hin hkind hn hstop => ?_
  simp only [ofRule, obeys_bind, obeys_ite_bind]
  refine obeys_here hin (obeys_advance hclosed (.refl hin) (hkind trivial) fun q hq => ?_)
  refine after_rule (by omega) hstop hq False.elim fun head q hq => ?_
  refine after_rule (by omega) hstop hq False.elim fun callee q hq => ?_
  refine after_accept hq hclosed (by decide) fun more q hq => ?_
  refine after_branches (after_rule (by omega) hstop hq False.elim fun _ _ => id) hq
    fun arguments q hq => ?_
  exact obeys_before hq.inside (obeys_freshNode hq fun node q hq => ⟨hq, trivial⟩)

theorem progress_arguments : (progress tokens).KeptBy .arguments := by
  refine keptBy_of_gains (fun _ _ => .inl) fun n p hin _ hn hstop => ?_
  simp only [ofRule, obeys_bind, obeys_ite_bind]
  refine obeys_peek hin ?_
  split
  · exact obeys_expect hclosed (by decide) (.refl hin) (fun q hq => ⟨hq, trivial⟩)
      fun e => .inr (.refl hin)
  · refine first_rule hin hn (by decide) False.elim (fun values q hq => ?_) fun e q he => he
    exact after_expect (k := 0) hstop hq hclosed (by decide) fun q hq => ⟨hq, trivial⟩

theorem progress_argumentValues (count : Nat) :
    (progress tokens).KeptBy (.argumentValues count) := by
  refine keptBy_of_gains (fun _ _ => .inl) fun n p hin _ hn hstop => ?_
  simp only [ofRule]
  split
  · exact ⟨safe_look hin, .inr (.refl hin)⟩
  · simp only [obeys_bind]
    refine first_rule hin hn (by simp [Rule.rank]) False.elim (fun value q hq => ?_)
      fun e q he => he
    refine after_accept (k := 0) hq hclosed (by decide) fun more q hq => ?_
    cases more with
    | false => exact ⟨hq, trivial⟩
    | true =>
      simp only [↓reduceIte, obeys_bind]
      exact after_rule (by omega) hstop hq False.elim fun values q hq => ⟨hq, trivial⟩

omit hclosed in
/-- What cannot be assigned to is noted; two tokens were read before. -/
theorem obeys_assignTo {n : Nat} {p q : Parser} {target value : Expr} {equals : Token}
    {ok : Expr → Parser → Prop} {stop : CompileError → Parser → Prop} (h : Gains tokens 2 p q)
    (hok : ∀ a q', Gains tokens 1 p q' → ok a q') :
    (assignTo target value equals).Obeys (progress tokens) n ok stop q := by
  unfold assignTo
  split
  · rw [obeys_bind]
    exact obeys_freshNode h fun node q hq => hok _ q (hq.mono (by decide))
  · rw [obeys_bind]
    exact obeys_freshNode h fun node q hq => hok _ q (hq.mono (by decide))
  · rw [obeys_bind]
    exact obeys_note h fun q hq => hok _ q hq

theorem progress_expression : (progress tokens).KeptBy .expression := by
  refine keptBy_of_gains (fun _ _ => .inl) fun n p hin _ hn hstop => ?_
  simp only [ofRule, obeys_bind]
  refine first_rule hin hn (by decide) False.elim (fun target q hq => ?_) fun e q he => he
  refine obeys_peek hq.inside ?_
  split
  · next hkind =>
    simp only [obeys_bind]
    refine obeys_look hq.inside ?_
    refine obeys_advance hclosed hq (kind_ne hkind (by decide)) fun q hq => ?_
    refine after_rule (by omega) hstop (k := 1) hq False.elim fun value q hq => ?_
    exact obeys_assignTo hq fun a q hq => ⟨hq, trivial⟩
  · exact ⟨hq, trivial⟩

omit hclosed in
theorem kind_ne_of_constant? {token : Token} {value : Except SyntaxFault Constant}
    (h : constant? token = some value) : token.kind ≠ .eof := by
  intro heq
  simp [constant?, heq] at h

theorem progress_primary : (progress tokens).KeptBy .primary := by
  refine keptBy_of_gains (fun _ _ => .inl) fun n p hin _ hn hstop => ?_
  have hstays : ∀ e, (progress tokens).stops .primary p e p := fun _ => .inr (.refl hin)
  simp only [ofRule, obeys_bind]
  refine obeys_look hin ?_
  split
  · next value hvalue =>
    simp only [obeys_bind]
    refine obeys_advance hclosed (.refl hin) (kind_ne_of_constant? hvalue) fun q hq => ?_
    exact obeys_freshNode hq fun node q hq => ⟨hq, trivial⟩
  · exact ⟨safe_look hin, hstays _⟩
  · split
    · next hkind =>
      simp only [obeys_bind]
      refine obeys_advance hclosed (.refl hin) (kind_ne hkind (by decide)) fun q hq => ?_
      exact obeys_freshNode hq fun node q hq => ⟨hq, trivial⟩
    · next hkind =>
      simp only [obeys_bind]
      refine obeys_advance hclosed (.refl hin) (kind_ne hkind (by decide)) fun q hq => ?_
      exact obeys_freshNode hq fun node q hq => ⟨hq, trivial⟩
    · next hkind =>
      simp only [obeys_bind]
      refine obeys_advance hclosed (.refl hin) (kind_ne hkind (by decide)) fun q hq => ?_
      refine after_rule (by omega) hstop hq False.elim fun inner q hq => ?_
      refine after_expect hstop hq hclosed (by decide) fun q hq => ?_
      exact obeys_spanFrom hq.inside (obeys_freshNode hq fun node q hq => ⟨hq, trivial⟩)
    · exact ⟨safe_look hin, hstays _⟩

end Rules

end Reading

end Parse

end Lox
