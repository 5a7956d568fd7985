import Lox.Proofs.Syntax.Grammar
import Lox.Proofs.Syntax.Outcome

/-!
# Expressions that are read are in the grammar

If an expression is read without error, the grammar derives its tree for the tokens
that were read (`sound_exprs`).

**Tails.** What is read after a left operand, or after what is called, is derived for
every way the left part itself was derived.
-/

namespace Lox

namespace Parse

open Grammar

variable {α : Type}

/-! ## Signs -/

theorem includes_of_next? {l l' : Level} (h : l.next? = Option.some l') :
    Includes (.level l) (.level l') := by
  cases l <;> cases h
  · exact .or
  · exact .and
  · exact .equality
  · exact .comparison
  · exact .term

theorem includes_of_next?_none {l : Level} (h : l.next? = none) :
    Includes (.level l) .unary := by
  cases l <;> cases h
  exact .factor

theorem binarySign_of_operator? {l : Level} {kind : Token.Kind} {op : Operator}
    (h : l.operator? kind = Option.some op) : BinarySign l kind op := by
  unfold Level.operator? at h
  split at h <;> cases h <;> constructor

theorem unarySign_of_ofKind? {kind : Token.Kind} {op : UnaryOp}
    (h : UnaryOp.ofKind? kind = Option.some op) : UnarySign kind op := by
  unfold UnaryOp.ofKind? at h
  split at h <;> cases h <;> constructor

theorem written_of_constant? {t : Token} {value : Constant}
    (h : constant? t = Option.some (.ok value)) : Written t value := by
  unfold constant? at h
  split at h <;> cases h
  case h_1 hkind hvalue => exact .integer (.inl hkind) hvalue
  case h_2 hkind hvalue => exact .float (.inl hkind) hvalue
  case h_4 hkind hvalue => exact .integer (.inr hkind) hvalue
  case h_5 hkind hvalue => exact .float (.inr hkind) hvalue
  case h_7 hkind hvalue => exact .text hkind hvalue
  case h_9 hkind => exact .true hkind
  case h_10 hkind => exact .false hkind
  case h_11 hkind => exact .nil hkind

theorem ne_eof_of_binarySign {l : Level} {kind : Token.Kind} {op : Operator}
    (h : BinarySign l kind op) : kind ≠ .eof := by
  cases h <;> decide

theorem ne_eof_of_unarySign {kind : Token.Kind} {op : UnaryOp} (h : UnarySign kind op) :
    kind ≠ .eof := by
  cases h <;> decide

theorem ne_eof_of_written {t : Token} {value : Constant} (h : Written t value) :
    t.kind ≠ .eof := by
  cases h <;> simp_all
  case integer hkind _ => rcases hkind with hkind | hkind <;> simp [hkind]
  case float hkind _ => rcases hkind with hkind | hkind <;> simp [hkind]

theorem bare_apply (op : Operator) (node : Node) (left right : Expr) (opSpan : Span) :
    (op.apply node left right opSpan).bare =
      op.apply .blank left.bare right.bare .blank := by
  cases op <;> rfl

/-! ## What can be assigned to -/

/-- A name is read from a single token. -/
theorem reads_variable {c : Category} {ts : List Token} {e : Expr} {node : Node}
    {name : String} :
    Reads c ts e → e = .variable node name →
      ∃ t : Token, ts = [t] ∧ t.kind = .identifier ∧ t.lexeme = name
  | .of _ hinner, he => reads_variable hinner he
  | .name hkind, he => by
    cases he
    exact ⟨_, rfl, hkind, rfl⟩
  | @Reads.operator _ _ _ _ _ op _ _ _ _ _ _, he => by cases op <;> cases he
  | .assign .., he | .set .., he | .unary .., he | .bareNew .., he | .new .., he
  | .call .., he | .get .., he | .literal .., he | .this .., he | .grouping .., he => by
    cases he

/-- A property is read from what may have properties, a point and a name. -/
theorem reads_get {c : Category} {ts : List Token} {e object : Expr} {node : Node}
    {name : String} {nameSpan : Span} :
    Reads c ts e → e = .get node object name nameSpan →
      ∃ (us : List Token) (dot t : Token), ts = us ++ [dot, t] ∧
        Reads .access us object ∧ dot.kind = .dot ∧ t.kind = .identifier ∧ t.lexeme = name
  | .of _ hinner, he => reads_get hinner he
  | .get hobject hdot hname, he => by
    cases he
    exact ⟨_, _, _, rfl, hobject, hdot, hname, rfl⟩
  | @Reads.operator _ _ _ _ _ op _ _ _ _ _ _, he => by cases op <;> cases he
  | .assign .., he | .set .., he | .unary .., he | .bareNew .., he | .new .., he
  | .call .., he | .name .., he | .literal .., he | .this .., he | .grouping .., he => by
    cases he

/-! ## Expressions -/

/-- The tokens between the two lists are in the relation with the answer. -/
def Spans (D : List Token → α → Prop) (ts : List Token) (a : α) (us : List Token) : Prop :=
  ∃ vs, ts = vs ++ us ∧ D vs a

/-- Outcomes of reading an expression of a category. -/
abbrev ReadsAs (c : Category) : List Token → Expr → List Token → Prop :=
  Spans fun vs e => Reads c vs e.bare

theorem ReadsAs.of {c c' : Category} {ts us : List Token} {e : Expr}
    (hinclude : Includes c c') (h : ReadsAs c' ts e us) : ReadsAs c ts e us := by
  obtain ⟨vs, hts, hreads⟩ := h
  exact ⟨vs, hts, .of hinclude hreads⟩

/-- Outcomes of reading an assignment after its target and the equals sign. -/
theorem sound_assignTo (target value : Expr) (equals : Token) :
    Sound (assignTo target value equals) fun ts e us => us = ts ∧
      ∀ vs ws sign, Reads (.level .or) vs target.bare → sign.kind = .equal →
        Reads .assignment ws value.bare →
          Reads .assignment (vs ++ sign :: ws) e.bare := by
  unfold assignTo
  dsimp only
  split
  · next name =>
    refine .bind (.freshNode _) fun node => .pure ?_
    rintro us _ rfl
    refine ⟨rfl, fun vs ws sign htarget hsign hvalue => ?_⟩
    obtain ⟨t, rfl, hkind, rfl⟩ := reads_variable htarget rfl
    exact .assign hkind hsign hvalue
  · next object name nameSpan =>
    refine .bind (.freshNode _) fun node => .pure ?_
    rintro us _ rfl
    refine ⟨rfl, fun vs ws sign htarget hsign hvalue => ?_⟩
    obtain ⟨zs, dot, t, rfl, hobject, hdot, hkind, rfl⟩ := reads_get htarget rfl
    rw [List.append_assoc]
    exact .set hobject hdot hkind hsign hvalue
  · refine .bind (.note _) fun _ => .pure ?_
    rintro us ts ⟨⟩

theorem sound_property (object : Expr) :
    Sound (property object) fun ts e us =>
      ∃ t : Token, t.kind = .identifier ∧ ts = t :: us ∧
        e.bare = .get .blank object.bare t.lexeme .blank := by
  refine .bind (.expectName _) fun name => .bind .before fun nameSpan =>
    .bind (.freshNode _) fun node => .pure ?_
  rintro us _ rfl _ rfl ts ⟨t, hkind, rfl, rfl⟩
  exact ⟨t, hkind, rfl, rfl⟩

/-- Outcomes of reading property names: all that there are belong to the class. -/
theorem sound_properties (n : Nat) (object : Expr) :
    Sound (properties n object) fun ts e us => ¬ At .dot us ∧
      ∀ vs, ReadsClass vs object.bare →
        ∃ ws, ts = ws ++ us ∧ ReadsClass (vs ++ ws) e.bare := by
  induction n generalizing object with
  | zero => exact .fail _
  | succ n ih =>
    rw [properties]
    refine .bind (.accept (by decide)) fun more => ?_
    split
    · refine .bind (sound_property object) fun object' => (ih object').weaken ?_
      rintro us e vs ⟨hdot, hclass⟩ ts ⟨t, hkind, rfl, hbare⟩ zs ⟨dot, hdotKind, rfl⟩
      refine ⟨hdot, fun ws hobject => ?_⟩
      have hget := ReadsClass.get hobject hdotKind hkind
      rw [← hbare] at hget
      obtain ⟨xs, rfl, hxs⟩ := hclass _ hget
      refine ⟨dot :: t :: xs, rfl, ?_⟩
      simpa using hxs
    · refine .pure ?_
      rintro us ts ⟨hdot, rfl⟩
      exact ⟨hdot, fun vs hobject => ⟨[], rfl, by simpa using hobject⟩⟩

/-- Outcomes of reading expressions and their parts with budget `n`. -/
structure ExprSound (n : Nat) : Prop where
  expression : Sound (expression n) (ReadsAs .assignment)
  binary : ∀ l, Sound (binary n l) (ReadsAs (.level l))
  operand : ∀ l, Sound (operand n l) fun ts e us =>
    ∃ c, Includes (.level l) c ∧ ReadsAs c ts e us
  binaryTail : ∀ l left, Sound (binaryTail n l left) fun ts e us =>
    ∀ vs, Reads (.level l) vs left.bare →
      ∃ ws, ts = ws ++ us ∧ Reads (.level l) (vs ++ ws) e.bare
  unary : Sound (unary n) (ReadsAs .unary)
  call : Sound (call n) (ReadsAs .call)
  callTail : ∀ callee, Sound (callTail n callee) fun ts e us =>
    (∀ vs, Reads .access vs callee.bare →
      ∃ ws, ts = ws ++ us ∧ Reads .access (vs ++ ws) e.bare) ∧
    (¬ At .leftParen ts → ¬ At .dot ts → us = ts ∧ e = callee)
  instantiation : Sound (instantiation n) fun ts e us => At .new ts →
    ReadsAs .access ts e us ∨
      ReadsAs .call ts e us ∧ ¬ At .leftParen us ∧ ¬ At .dot us
  arguments : Sound (arguments n) (Spans fun vs values =>
    ∀ left : Token, left.kind = .leftParen →
      Arguments (left :: vs) (Expr.bareAll values))
  argumentValues : ∀ count, Sound (argumentValues n count) (Spans fun vs values =>
    Values vs (Expr.bareAll values) ∧ count + values.length ≤ 255)
  primary : Sound (primary n) (ReadsAs .primary)

theorem Expr.bareAll_length (es : List Expr) : (Expr.bareAll es).length = es.length := by
  induction es with
  | nil => rfl
  | cons e es ih => simp [Expr.bareAll, ih]

/-! ## Rules of expressions

Each rule is sound with one more unit of budget than the rules that it calls. -/

section Rules

variable {n : Nat} (ih : ExprSound n)

include ih

theorem sound_expression :
    Sound (expression (n + 1)) (ReadsAs .assignment) := by
  rw [expression]
  refine .bind (ih.binary _) fun target => .bind .peek fun kind => ?_
  split
  · next hkind =>
    subst hkind
    refine .bind .get fun p => .bind .advance fun _ => .bind ih.expression fun value =>
      (sound_assignTo target value _).weaken ?_
    rintro _ e us ⟨rfl, hassign⟩ _ ⟨ws, rfl, hvalue⟩ _ hadvance _ ⟨_, rfl⟩ _ ⟨hat, rfl⟩
      _ ⟨vs, rfl, htarget⟩
    obtain ⟨sign, hsign, rfl⟩ := hadvance _ hat (by decide)
    exact ⟨vs ++ sign :: ws, by simp, hassign _ _ _ htarget hsign hvalue⟩
  · refine .pure ?_
    rintro us _ ⟨_, rfl⟩ ts htarget
    exact htarget.of .assignment

theorem sound_binary (l : Level) :
    Sound (binary (n + 1) l) (ReadsAs (.level l)) := by
  rw [binary]
  refine .bind (ih.operand l) fun left => (ih.binaryTail l left).weaken ?_
  rintro ts e us htail _ ⟨c, hinclude, vs, rfl, hleft⟩
  obtain ⟨ws, rfl, hreads⟩ := htail vs (.of hinclude hleft)
  exact ⟨vs ++ ws, by simp, hreads⟩

theorem sound_operand (l : Level) :
    Sound (operand (n + 1) l) fun ts e us =>
      ∃ c, Includes (.level l) c ∧ ReadsAs c ts e us := by
  rw [operand]
  split
  · next tighter hnext =>
    exact (ih.binary tighter).weaken fun ts e us h => ⟨_, includes_of_next? hnext, h⟩
  · next hnext =>
    exact ih.unary.weaken fun ts e us h => ⟨_, includes_of_next?_none hnext, h⟩

theorem sound_binaryTail (l : Level) (left : Expr) :
    Sound (binaryTail (n + 1) l left) fun ts e us =>
      ∀ vs, Reads (.level l) vs left.bare →
        ∃ ws, ts = ws ++ us ∧ Reads (.level l) (vs ++ ws) e.bare := by
  rw [binaryTail]
  refine .bind .peek fun kind => ?_
  split
  · refine .pure ?_
    rintro us ts ⟨_, rfl⟩ vs hleft
    exact ⟨[], rfl, by simpa using hleft⟩
  · next op hop =>
    have hsign := binarySign_of_operator? hop
    refine .bind .advance fun _ => .bind .before fun opSpan =>
      .bind (ih.operand l) fun right => .bind (.freshNode _) fun node =>
        (ih.binaryTail l _).weaken ?_
    rintro _ e us htail _ rfl _ ⟨c, hinclude, ws, rfl, hright⟩ _ rfl _ hadvance
      _ ⟨hat, rfl⟩ vs hleft
    obtain ⟨sign, rfl, rfl⟩ := hadvance _ hat (ne_eof_of_binarySign hsign)
    have hreads := Reads.operator hleft hsign hinclude hright
    rw [← bare_apply op node left right opSpan] at hreads
    obtain ⟨xs, rfl, hxs⟩ := htail _ hreads
    exact ⟨sign :: ws ++ xs, by simp, by simpa using hxs⟩

theorem sound_unary :
    Sound (unary (n + 1)) (ReadsAs .unary) := by
  rw [unary]
  refine .bind .peek fun kind => ?_
  split
  · refine ih.call.weaken ?_
    rintro ts e us hcall _ ⟨_, rfl⟩
    exact hcall.of .unary
  · next op hop =>
    have hsign := unarySign_of_ofKind? hop
    refine .bind .here fun start => .bind .advance fun _ => .bind ih.unary fun operand =>
      .bind (.freshNode _) fun node => .pure ?_
    rintro us _ rfl _ ⟨ws, rfl, hoperand⟩ _ hadvance _ rfl _ ⟨hat, rfl⟩
    obtain ⟨sign, rfl, rfl⟩ := hadvance _ hat (ne_eof_of_unarySign hsign)
    exact ⟨sign :: ws, rfl, .unary hsign hoperand⟩

/-- Outcomes of reading calls and properties after what is called.  After a `new` without
arguments none of them follows. -/
theorem sound_callEnd (callee : Expr) :
    Sound (callTail n callee) fun ts e us => ∀ ts₀,
      ReadsAs .access ts₀ callee ts ∨
        ReadsAs .call ts₀ callee ts ∧ ¬ At .leftParen ts ∧ ¬ At .dot ts →
      ReadsAs .call ts₀ e us := by
  refine (ih.callTail callee).weaken ?_
  rintro ts e us ⟨htail, hstop⟩ _ (⟨vs, rfl, hcallee⟩ | ⟨hcallee, hparen, hdot⟩)
  · obtain ⟨ws, rfl, hreads⟩ := htail vs hcallee
    exact ⟨vs ++ ws, by simp, .of .call hreads⟩
  · obtain ⟨rfl, rfl⟩ := hstop hparen hdot
    exact hcallee

theorem sound_call :
    Sound (call (n + 1)) (ReadsAs .call) := by
  rw [call]
  refine .bind .peek fun kind => ?_
  dsimp only
  split
  · next hkind =>
    subst hkind
    refine .bind ih.instantiation fun callee => (sound_callEnd ih callee).weaken ?_
    rintro ts e us hend _ hcallee _ ⟨hat, rfl⟩
    exact hend _ (hcallee hat)
  · refine .bind ih.primary fun callee => (sound_callEnd ih callee).weaken ?_
    rintro ts e us hend _ hcallee _ ⟨_, rfl⟩
    exact hend _ (.inl (hcallee.of .access))

theorem sound_callTail (callee : Expr) :
    Sound (callTail (n + 1) callee) fun ts e us =>
      (∀ vs, Reads .access vs callee.bare →
        ∃ ws, ts = ws ++ us ∧ Reads .access (vs ++ ws) e.bare) ∧
      (¬ At .leftParen ts → ¬ At .dot ts → us = ts ∧ e = callee) := by
  rw [callTail]
  refine .bind (.accept (by decide)) fun more => ?_
  split
  · refine .bind ih.arguments fun values => .bind .before fun paren =>
      .bind (.freshNode _) fun node => (ih.callTail _).weaken ?_
    rintro _ e us ⟨htail, _⟩ _ rfl _ rfl _ ⟨ws, rfl, hvalues⟩ _ ⟨left, hleft, rfl⟩
    refine ⟨fun vs hcallee => ?_, fun hparen => absurd (At.cons_iff.2 hleft) hparen⟩
    obtain ⟨xs, rfl, hxs⟩ := htail _ (.call hcallee (hvalues left hleft))
    exact ⟨left :: ws ++ xs, by simp, by simpa using hxs⟩
  · refine .bind (.accept (by decide)) fun more => ?_
    split
    · refine .bind (sound_property callee) fun callee' => (ih.callTail callee').weaken ?_
      rintro _ e us ⟨htail, _⟩ _ ⟨t, hkind, rfl, hbare⟩ _ ⟨dot, hdot, rfl⟩ _ ⟨_, rfl⟩
      refine ⟨fun vs hcallee => ?_, fun _ hnotDot => absurd (At.cons_iff.2 hdot) hnotDot⟩
      have hget := Reads.get hcallee hdot hkind
      rw [← hbare] at hget
      obtain ⟨xs, rfl, hxs⟩ := htail _ hget
      exact ⟨dot :: t :: xs, rfl, by simpa using hxs⟩
    · refine .pure ?_
      rintro us _ ⟨_, rfl⟩ _ ⟨_, rfl⟩
      exact ⟨fun vs hcallee => ⟨[], rfl, by simpa using hcallee⟩, fun _ _ => ⟨rfl, rfl⟩⟩

theorem sound_instantiation :
    Sound (instantiation (n + 1)) fun ts e us => At .new ts →
      ReadsAs .access ts e us ∨
        ReadsAs .call ts e us ∧ ¬ At .leftParen us ∧ ¬ At .dot us := by
  rw [instantiation]
  refine .word (by decide) fun start => .bind ih.primary fun head =>
    .bind (sound_properties n head) fun callee => .bind (.accept (by decide)) fun more => ?_
  dsimp only
  split
  · refine .bind ih.arguments fun values => .bind .before fun paren =>
      .bind (.freshNode _) fun node => .pure ?_
    rintro us _ rfl _ rfl _ ⟨ws, rfl, hvalues⟩ _ ⟨left, hleft, rfl⟩ _ ⟨_, hcallee⟩
      _ ⟨vs, rfl, hhead⟩ word hword
    obtain ⟨xs, rfl, hclass⟩ := hcallee _ (.primary hhead)
    refine .inl ⟨word :: (vs ++ xs) ++ left :: ws, by simp, ?_⟩
    exact .new hword hclass (hvalues left hleft)
  · refine .bind (.answer _) fun values => .bind .before fun paren =>
      .bind (.freshNode _) fun node => .pure ?_
    rintro us _ rfl _ rfl _ ⟨rfl, rfl⟩ _ ⟨hparen, rfl⟩ _ ⟨hdot, hcallee⟩ _ ⟨vs, rfl, hhead⟩
      word hword
    obtain ⟨xs, rfl, hclass⟩ := hcallee _ (.primary hhead)
    refine .inr ⟨⟨word :: (vs ++ xs), by simp, ?_⟩, hparen, hdot⟩
    exact .bareNew hword hclass

theorem sound_arguments :
    Sound (arguments (n + 1)) (Spans fun vs values =>
      ∀ left : Token, left.kind = .leftParen →
        Arguments (left :: vs) (Expr.bareAll values)) := by
  rw [arguments]
  refine .bind .peek fun kind => ?_
  dsimp only
  split
  · refine .bind (.answer _) fun values => .bind (.expect (by decide) _) fun _ => .pure ?_
    rintro us _ ⟨right, hright, rfl⟩ _ ⟨rfl, rfl⟩ _ ⟨_, rfl⟩
    exact ⟨[right], rfl, fun left hleft => .none hleft hright⟩
  · refine .bind (ih.argumentValues 0) fun values => .bind (.expect (by decide) _) fun _ =>
      .pure ?_
    rintro us _ ⟨right, hright, rfl⟩ _ ⟨vs, rfl, hvalues, hlength⟩ _ ⟨_, rfl⟩
    refine ⟨vs ++ [right], by simp, fun left hleft => ?_⟩
    refine .some hleft hvalues ?_ hright
    rw [Expr.bareAll_length]
    omega

theorem sound_argumentValues (count : Nat) :
    Sound (argumentValues (n + 1) count) (Spans fun vs values =>
      Values vs (Expr.bareAll values) ∧ count + values.length ≤ 255) := by
  rw [argumentValues]
  split
  · exact .fail _
  · next hcount =>
    have hroom : count + 1 ≤ 255 := by
      unfold maxArguments at hcount
      omega
    refine .bind ih.expression fun value => .bind (.accept (by decide)) fun more => ?_
    split
    · refine .bind (ih.argumentValues (count + 1)) fun values => .pure ?_
      rintro us _ ⟨ws, rfl, hvalues, hlength⟩ _ ⟨comma, hcomma, rfl⟩ _ ⟨vs, rfl, hvalue⟩
      refine ⟨vs ++ comma :: ws, by simp, .more hvalue hcomma hvalues, ?_⟩
      simp only [List.length_cons]
      omega
    · refine .pure ?_
      rintro us _ ⟨_, rfl⟩ _ ⟨vs, rfl, hvalue⟩
      exact ⟨vs, rfl, .one hvalue, hroom⟩

theorem sound_primary :
    Sound (primary (n + 1)) (ReadsAs .primary) := by
  rw [primary]
  refine .bind .get fun p => ?_
  dsimp only
  split
  · next value hvalue =>
    have hwritten := written_of_constant? hvalue
    refine .bind .advance fun _ => .bind (.freshNode _) fun node => .pure ?_
    rintro us _ rfl _ hadvance _ ⟨rfl, rfl⟩
    obtain ⟨t, -, hrest⟩ := hadvance _ (At.cons_iff.2 rfl) (ne_eof_of_written hwritten)
    rw [Parser.current_eq hrest] at hwritten
    exact ⟨[t], hrest, .literal hwritten⟩
  · exact .fail _
  · split
    · next hkind =>
      refine .bind .advance fun _ => .bind (.freshNode _) fun node => .pure ?_
      rintro us _ rfl _ hadvance _ ⟨rfl, rfl⟩
      obtain ⟨t, ht, hrest⟩ := hadvance _ (At.cons_iff.2 hkind) (by decide)
      exact ⟨[t], hrest, .this ht⟩
    · next hkind =>
      refine .bind .advance fun _ => .bind (.freshNode _) fun node => .pure ?_
      rintro us _ rfl _ hadvance _ ⟨rfl, rfl⟩
      obtain ⟨t, ht, hrest⟩ := hadvance _ (At.cons_iff.2 hkind) (by decide)
      rw [Parser.current_eq hrest]
      exact ⟨[t], hrest, .name ht⟩
    · next hkind =>
      refine .bind .advance fun _ => .bind ih.expression fun inner =>
        .bind (.expect (by decide) _) fun _ => .bind (.spanFrom _) fun span =>
          .bind (.freshNode _) fun node => .pure ?_
      rintro us _ rfl _ rfl _ ⟨right, hright, rfl⟩ _ ⟨vs, rfl, hinner⟩ _ hadvance
        _ ⟨rfl, rfl⟩
      obtain ⟨left, hleft, hrest⟩ := hadvance _ (At.cons_iff.2 hkind) (by decide)
      refine ⟨left :: vs ++ [right], ?_, .grouping hleft hinner hright⟩
      rw [hrest]
      simp
    · exact .fail _

end Rules

/-- Expressions that are read are in the grammar, whatever the budget. -/
theorem sound_exprs (n : Nat) : ExprSound n := by
  induction n with
  | zero => constructor <;> intros <;> exact .fail _
  | succ n ih =>
    exact
      { expression := sound_expression ih
        binary := sound_binary ih
        operand := sound_operand ih
        binaryTail := sound_binaryTail ih
        unary := sound_unary ih
        call := sound_call ih
        callTail := sound_callTail ih
        instantiation := sound_instantiation ih
        arguments := sound_arguments ih
        argumentValues := sound_argumentValues ih
        primary := sound_primary ih }

end Parse

end Lox
