import Lox.Proofs.Syntax.Answer
import Lox.Proofs.Syntax.SoundExpression

/-!
# Expressions of the grammar are read

If the grammar derives an expression, it is read from its tokens without error
(`accepted_of_reads`).

**Following tokens.** A reader is greedy, so a derived expression is read in full only
if the token behind it does not go on with it.  `strength?` orders the tokens that may
go on with an expression by how tightly they bind.

**Tails.** The rules of an operator level and of calls are left recursive, whereas a
reader takes the leftmost part first and then goes around a loop.  What is accepted in
such a category is therefore stated for every way the loop may go on.
-/

namespace Lox

namespace Parse

open Grammar

/-! ## First tokens -/

/-- The kinds of tokens with which an expression of a category can begin. -/
def begins : Category → Token.Kind → Bool
  | _, .number | _, .float | _, .string | _, .true | _, .false | _, .nil | _, .this
  | _, .identifier | _, .leftParen => true
  | .primary, _ => false
  | _, .new => true
  | .access, _ | .call, _ => false
  | _, .bang | _, .minus => true
  | _, _ => false

theorem begins_of_includes {c c' : Category} {kind : Token.Kind} (h : Includes c c')
    (hkind : begins c' kind = true) : begins c kind = true := by
  cases h <;> cases kind <;> first | rfl | cases hkind

theorem begins_of_written {t : Token} {value : Constant} (c : Category)
    (h : Written t value) : begins c t.kind = true := by
  cases h with
  | integer hkind _ => rcases hkind with hkind | hkind <;> rw [hkind] <;> cases c <;> rfl
  | float hkind _ => rcases hkind with hkind | hkind <;> rw [hkind] <;> cases c <;> rfl
  | text hkind _ => rw [hkind]; cases c <;> rfl
  | true hkind => rw [hkind]; cases c <;> rfl
  | false hkind => rw [hkind]; cases c <;> rfl
  | nil hkind => rw [hkind]; cases c <;> rfl

/-- The tokens begin with one that can begin an expression of the category. -/
def Begins (c : Category) (ts : List Token) : Prop :=
  ∃ t us, ts = t :: us ∧ begins c t.kind = true

theorem Begins.append {c : Category} {ts : List Token} (h : Begins c ts)
    (us : List Token) : Begins c (ts ++ us) := by
  obtain ⟨t, vs, rfl, ht⟩ := h
  exact ⟨t, vs ++ us, rfl, ht⟩

theorem Begins.of {c c' : Category} {ts : List Token} (hinclude : Includes c c')
    (h : Begins c' ts) : Begins c ts := by
  obtain ⟨t, us, rfl, ht⟩ := h
  exact ⟨t, us, rfl, begins_of_includes hinclude ht⟩

theorem Begins.assignment {c : Category} {ts : List Token} (h : Begins c ts) :
    Begins .assignment ts := by
  obtain ⟨t, us, rfl, ht⟩ := h
  refine ⟨t, us, rfl, ?_⟩
  revert ht
  cases c <;> cases t.kind <;> first | exact fun _ => rfl | (intro ht; cases ht)

/-- Every expression begins with a token that can begin one. -/
theorem begins_of_reads {c : Category} {ts : List Token} {e : Expr} :
    Reads c ts e → Begins c ts
  | .of hinclude hinner => (begins_of_reads hinner).of hinclude
  | .assign hname _ _ => ⟨_, _, rfl, by rw [hname]; rfl⟩
  | .set hobject _ _ _ _ => ((begins_of_reads hobject).append _).assignment
  | .operator hleft _ _ _ => (begins_of_reads hleft).append _
  | .unary hsign _ => ⟨_, _, rfl, by generalize Token.kind _ = kind at hsign; cases hsign <;> rfl⟩
  | .bareNew hword _ => ⟨_, _, rfl, by rw [hword]; rfl⟩
  | .new hword _ _ => ⟨_, _, rfl, by rw [hword]; rfl⟩
  | .call hcallee _ => (begins_of_reads hcallee).append _
  | .get hobject _ _ => (begins_of_reads hobject).append _
  | .literal hvalue => ⟨_, _, rfl, begins_of_written _ hvalue⟩
  | .this hkind => ⟨_, _, rfl, by rw [hkind]; rfl⟩
  | .name hkind => ⟨_, _, rfl, by rw [hkind]; rfl⟩
  | .grouping hleft _ _ => ⟨_, _, rfl, by rw [hleft]; rfl⟩

/-- What can begin an expression is no other token. -/
theorem Begins.not_at {c : Category} {kind : Token.Kind} {ts : List Token}
    (h : Begins c ts) (hkind : begins c kind = false) : ¬ At kind ts := by
  obtain ⟨t, us, rfl, ht⟩ := h
  intro hat
  rw [At.cons_iff.1 hat, hkind] at ht
  cases ht

theorem ofKind?_eq_none {kind : Token.Kind} (h : begins .call kind = true) :
    UnaryOp.ofKind? kind = none := by
  cases kind <;> first | rfl | cases h

/-! ## Following tokens -/

/-- How tightly a token binds that may go on with an expression. -/
def strength? : Token.Kind → Option Nat
  | .equal => some 0
  | .or => some 1
  | .and => some 2
  | .equalEqual | .bangEqual => some 3
  | .less | .lessEqual | .greater | .greaterEqual => some 4
  | .plus | .minus => some 5
  | .star | .slash => some 6
  | .leftParen | .dot => some 7
  | _ => none

/-- How tightly the operators of a level bind. -/
def rank : Level → Nat
  | .or => 1
  | .and => 2
  | .equality => 3
  | .comparison => 4
  | .term => 5
  | .factor => 6

/-- The first token, if it can go on with an expression, binds less tightly than the
given strength. -/
def Follows (strength : Nat) (ts : List Token) : Prop :=
  ∀ kind, At kind ts → ∀ s, strength? kind = some s → s < strength

theorem Follows.mono {m n : Nat} {ts : List Token} (h : Follows m ts) (hle : m ≤ n) :
    Follows n ts :=
  fun kind hat s hs => Nat.lt_of_lt_of_le (h kind hat s hs) hle

theorem Follows.of_kind {n : Nat} {t : Token} {ts : List Token}
    (h : strength? t.kind = none) : Follows n (t :: ts) := by
  intro kind hat s hs
  rw [← At.cons_iff.1 hat, h] at hs
  cases hs

theorem Follows.not_at {n : Nat} {kind : Token.Kind} {ts : List Token} {s : Nat}
    (h : Follows n ts) (hs : strength? kind = some s) (hle : n ≤ s) : ¬ At kind ts :=
  fun hat => Nat.not_lt.2 hle (h kind hat s hs)

theorem strength?_of_binarySign {l : Level} {kind : Token.Kind} {op : Operator}
    (h : BinarySign l kind op) : strength? kind = some (rank l) := by
  cases h <;> rfl

theorem operator?_of_binarySign {l : Level} {kind : Token.Kind} {op : Operator}
    (h : BinarySign l kind op) : l.operator? kind = some op := by
  cases h <;> rfl

theorem Follows.operator?_eq_none {l : Level} {t : Token} {ts : List Token}
    (h : Follows (rank l) (t :: ts)) : l.operator? t.kind = none := by
  cases hop : l.operator? t.kind with
  | none => rfl
  | some op =>
    have hstrength := strength?_of_binarySign (binarySign_of_operator? hop)
    exact absurd (h _ (At.cons_iff.2 rfl) _ hstrength) (Nat.lt_irrefl _)

/-! ## What is accepted -/

/-- Given enough budget, expressions of the category are read from these tokens.  In a
level of operators and in the accesses, reading goes on with a tail. -/
def Accepted : Category → List Token → Expr → Prop
  | .assignment, ts, e => ∀ (n : Nat) (p : Parser) (us : List Token),
    20 * ts.length ≤ n → p.rest = ts ++ us → us ≠ [] → Follows 0 us →
      Answers [] (expression n) p (fun e' => e'.bare = e) us
  | .level l, ts, e => ∀ (n : Nat) (p : Parser) (us vs : List Token) (P : Expr → Prop),
    20 * ts.length + 1 ≤ n + 2 * rank l → p.rest = ts ++ us → us ≠ [] →
      Follows (rank l + 1) us →
      (∀ n' e' p', n ≤ n' + ts.length + 1 → e'.bare = e → p'.rest = us →
        Answers [] (binaryTail n' l e') p' P vs) →
      Answers [] (binary n l) p P vs
  | .unary, ts, e => ∀ (n : Nat) (p : Parser) (us : List Token),
    20 * ts.length ≤ n + 13 → p.rest = ts ++ us → us ≠ [] → Follows 7 us →
      Answers [] (unary n) p (fun e' => e'.bare = e) us
  | .call, ts, e => ∀ (n : Nat) (p : Parser) (us : List Token),
    20 * ts.length ≤ n + 14 → p.rest = ts ++ us → us ≠ [] → Follows 7 us →
      Answers [] (call n) p (fun e' => e'.bare = e) us
  | .access, ts, e => ∀ (n : Nat) (p : Parser) (us vs : List Token) (P : Expr → Prop),
    20 * ts.length ≤ n + 14 → p.rest = ts ++ us → us ≠ [] →
      (∀ n' e' p', n ≤ n' + ts.length + 1 → e'.bare = e → p'.rest = us →
        Answers [] (callTail n' e') p' P vs) →
      Answers [] (call n) p P vs
  | .primary, ts, e => ∀ (n : Nat) (p : Parser) (us : List Token),
    20 * ts.length ≤ n + 15 → p.rest = ts ++ us → us ≠ [] →
      Answers [] (primary n) p (fun e' => e'.bare = e) us

/-- Given enough budget, a class with its property names is read from these tokens. -/
def AcceptedClass (ts : List Token) (e : Expr) : Prop :=
  ∀ (n : Nat) (p : Parser) (us vs : List Token) (P : Expr → Prop),
    20 * ts.length ≤ n + 15 → p.rest = ts ++ us → us ≠ [] →
      (∀ n' e' p', n ≤ n' + ts.length → e'.bare = e → p'.rest = us →
        Answers [] (properties n' e') p' P vs) →
      Answers [] (primary n >>= properties n) p P vs

/-- Given enough budget, arguments are read from these tokens, after a first
parenthesis. -/
def AcceptedArguments (ts : List Token) (es : List Expr) : Prop :=
  ∃ left ts', ts = left :: ts' ∧ left.kind = .leftParen ∧
    ∀ (n : Nat) (p : Parser) (us : List Token),
      20 * ts.length ≤ n → p.rest = ts' ++ us → us ≠ [] →
        Answers [] (arguments n) p (fun es' => Expr.bareAll es' = es) us

/-- Given enough budget, values with commas between them are read from these tokens. -/
def AcceptedValues (ts : List Token) (es : List Expr) : Prop :=
  ∀ (n count : Nat) (p : Parser) (us : List Token),
    20 * ts.length + 1 ≤ n → count + es.length ≤ 255 → p.rest = ts ++ us →
      At .rightParen us →
      Answers [] (argumentValues n count) p (fun es' => Expr.bareAll es' = es) us

theorem At.ne_nil {kind : Token.Kind} {ts : List Token} (h : At kind ts) : ts ≠ [] := by
  obtain ⟨t, us, rfl, -⟩ := h
  simp

theorem Begins.length_pos {c : Category} {ts : List Token} (h : Begins c ts) :
    0 < ts.length := by
  obtain ⟨t, us, rfl, -⟩ := h
  simp

/-! ## Primary expressions -/

theorem constant?_of_written {t : Token} {value : Constant} (h : Written t value) :
    constant? t = some (.ok value) := by
  cases h with
  | integer hkind hvalue => rcases hkind with hkind | hkind <;> simp [constant?, hkind, hvalue]
  | float hkind hvalue => rcases hkind with hkind | hkind <;> simp [constant?, hkind, hvalue]
  | text hkind hvalue => simp [constant?, hkind, hvalue]
  | true hkind => simp [constant?, hkind]
  | false hkind => simp [constant?, hkind]
  | nil hkind => simp [constant?, hkind]

theorem accepted_literal {t : Token} {value : Constant} (hvalue : Written t value) :
    Accepted .primary [t] (.literal .blank value) := by
  intro n p us hn hp hus
  obtain ⟨m, rfl⟩ : ∃ m, n = m + 1 := ⟨n - 1, by simp at hn; omega⟩
  rw [primary]
  refine .get_bind ?_
  dsimp only
  rw [Parser.current_eq hp, constant?_of_written hvalue]
  refine .advance_bind hp hus (ne_eof_of_written hvalue) fun p₁ hp₁ => ?_
  exact .freshNode_bind fun node p₂ hp₂ => .pure rfl (hp₂.trans hp₁)

theorem accepted_this {t : Token} (hkind : t.kind = .this) :
    Accepted .primary [t] (.this .blank) := by
  intro n p us hn hp hus
  obtain ⟨m, rfl⟩ : ∃ m, n = m + 1 := ⟨n - 1, by simp at hn; omega⟩
  rw [primary]
  refine .get_bind ?_
  have hnone : constant? t = none := by simp [constant?, hkind]
  dsimp only
  rw [Parser.current_eq hp, hnone]
  dsimp only
  rw [hkind]
  refine .advance_bind hp hus (by simp [hkind]) fun p₁ hp₁ => ?_
  exact .freshNode_bind fun node p₂ hp₂ => .pure rfl (hp₂.trans hp₁)

theorem accepted_name {t : Token} (hkind : t.kind = .identifier) :
    Accepted .primary [t] (.variable .blank t.lexeme) := by
  intro n p us hn hp hus
  obtain ⟨m, rfl⟩ : ∃ m, n = m + 1 := ⟨n - 1, by simp at hn; omega⟩
  rw [primary]
  refine .get_bind ?_
  have hnone : constant? t = none := by simp [constant?, hkind]
  dsimp only
  rw [Parser.current_eq hp, hnone]
  dsimp only
  rw [hkind]
  refine .advance_bind hp hus (by simp [hkind]) fun p₁ hp₁ => ?_
  exact .freshNode_bind fun node p₂ hp₂ => .pure rfl (hp₂.trans hp₁)

theorem accepted_grouping {left right : Token} {ts : List Token} {inner : Expr}
    (hleft : left.kind = .leftParen) (hinner : Accepted .assignment ts inner)
    (hright : right.kind = .rightParen) :
    Accepted .primary (left :: ts ++ [right]) (.grouping .blank inner) := by
  intro n p us hn hp hus
  simp only [List.length_append, List.length_cons, List.length_nil] at hn
  obtain ⟨m, rfl⟩ : ∃ m, n = m + 1 := ⟨n - 1, by omega⟩
  rw [primary]
  refine .get_bind ?_
  have hnone : constant? left = none := by simp [constant?, hleft]
  have hp' : p.rest = left :: (ts ++ right :: us) := by simpa using hp
  dsimp only
  rw [Parser.current_eq hp', hnone]
  dsimp only
  rw [hleft]
  refine .advance_bind hp' (by simp) (by simp [hleft]) fun p₁ hp₁ => ?_
  have hinside := hinner m p₁ (right :: us) (by omega) hp₁ (by simp)
    (.of_kind (by rw [hright]; rfl))
  refine hinside.bind fun e p₂ he hp₂ => ?_
  refine .expect_bind hp₂ hus hright (by decide) fun p₃ hp₃ => ?_
  refine .spanFrom_bind fun span => .freshNode_bind fun node p₄ hp₄ => ?_
  refine .pure ?_ (hp₄.trans hp₃)
  rw [Expr.bare, he]

/-! ## Calls, properties and instances -/

theorem answers_property {object : Expr} {p : Parser} {name : Token} {us : List Token}
    (hp : p.rest = name :: us) (hus : us ≠ []) (hname : name.kind = .identifier) :
    Answers [] (property object) p
      (fun e => e.bare = .get .blank object.bare name.lexeme .blank) us := by
  unfold property
  refine .expectName_bind hp hus hname fun p₁ hp₁ => ?_
  refine .before_bind fun nameSpan => .freshNode_bind fun node p₂ hp₂ => ?_
  exact .pure rfl (hp₂.trans hp₁)

theorem acceptedClass_primary {ts : List Token} {e : Expr} (hts : Reads .primary ts e)
    (h : Accepted .primary ts e) : AcceptedClass ts e := by
  intro n p us vs P hn hp hus hgo
  have hlength := (begins_of_reads hts).length_pos
  refine (h n p us hn hp hus).bind fun e' p₁ he hp₁ => ?_
  exact hgo n e' p₁ (by omega) he hp₁

theorem acceptedClass_get {ts : List Token} {dot name : Token} {object : Expr}
    (hobject : AcceptedClass ts object) (hdot : dot.kind = .dot)
    (hname : name.kind = .identifier) :
    AcceptedClass (ts ++ [dot, name]) (.get .blank object name.lexeme .blank) := by
  intro n p us vs P hn hp hus hgo
  simp only [List.length_append, List.length_cons, List.length_nil] at hn hgo
  refine hobject n p (dot :: name :: us) vs P (by omega) (by simpa using hp) (by simp) ?_
  intro n' e' p' hn' he hp'
  obtain ⟨m, rfl⟩ : ∃ m, n' = m + 1 := ⟨n' - 1, by omega⟩
  rw [properties]
  refine .accept_bind hp' (by simp) hdot (by decide) fun p₁ hp₁ => ?_
  refine (answers_property hp₁ hus hname).bind fun e'' p₂ he' hp₂ => ?_
  exact hgo m e'' p₂ (by omega) (by rw [he', he]) hp₂

/-- Reading property names stops in front of any other token. -/
theorem answers_properties {n : Nat} {e : Expr} {p : Parser} {us : List Token}
    (hn : 0 < n) (hp : p.rest = us) (hdot : ¬ At .dot us) :
    Answers [] (properties n e) p (fun e' => e' = e) us := by
  obtain ⟨m, rfl⟩ : ∃ m, n = m + 1 := ⟨n - 1, by omega⟩
  rw [properties]
  exact .refuse_bind hp hdot (.pure rfl hp)

/-- Reading the class after a `new`, when something else than a point follows. -/
theorem answers_class {ts us : List Token} {callee : Expr} {n : Nat} {p : Parser}
    (h : AcceptedClass ts callee) (hn : 20 * ts.length + 1 ≤ n)
    (hp : p.rest = ts ++ us) (hus : us ≠ []) (hdot : ¬ At .dot us) :
    Answers [] (primary n >>= properties n) p (fun e => e.bare = callee) us := by
  refine h n p us us _ (by omega) hp hus fun n' e' p' hn' he hp' => ?_
  exact (answers_properties (by omega) hp' hdot).mono fun e'' heq => heq ▸ he

theorem answers_bareNew {word : Token} {ts us : List Token} {callee : Expr} {n : Nat}
    {p : Parser} (hword : word.kind = .new) (hcallee : AcceptedClass ts callee)
    (hn : 20 * (word :: ts).length ≤ n + 15) (hp : p.rest = word :: ts ++ us)
    (hus : us ≠ []) (hfollows : Follows 7 us) :
    Answers [] (instantiation n) p
      (fun e => e.bare = .new .blank callee [] .blank) us := by
  simp only [List.length_cons] at hn
  obtain ⟨m, rfl⟩ : ∃ m, n = m + 1 := ⟨n - 1, by omega⟩
  rw [instantiation]
  refine .here_bind fun start => .advance_bind hp (by simp [hus]) (by simp [hword])
    fun p₁ hp₁ => ?_
  rw [← bind_assoc]
  refine (answers_class hcallee (by omega) hp₁ hus
    (hfollows.not_at rfl (by decide))).bind fun e p₂ he hp₂ => ?_
  refine .refuse_bind hp₂ (hfollows.not_at rfl (by decide)) ?_
  dsimp only
  rw [if_neg Bool.false_ne_true, pure_bind]
  refine .before_bind fun paren => .freshNode_bind fun node p₃ hp₃ => ?_
  refine .pure ?_ (hp₃.trans hp₂)
  rw [Expr.bare, he, Expr.bareAll]

theorem answers_new {word : Token} {ts us vs : List Token} {callee : Expr}
    {arguments : List Expr} {n : Nat} {p : Parser} (hword : word.kind = .new)
    (hcallee : AcceptedClass ts callee) (harguments : AcceptedArguments us arguments)
    (hn : 20 * (word :: ts ++ us).length ≤ n + 15) (hp : p.rest = word :: ts ++ us ++ vs)
    (hvs : vs ≠ []) :
    Answers [] (instantiation n) p
      (fun e => e.bare = .new .blank callee arguments .blank) vs := by
  simp only [List.length_cons, List.length_append] at hn
  obtain ⟨left, us, rfl, hleft, harguments⟩ := harguments
  simp only [List.length_cons] at hn harguments
  obtain ⟨m, rfl⟩ : ∃ m, n = m + 1 := ⟨n - 1, by omega⟩
  rw [instantiation]
  have hp' : p.rest = word :: (ts ++ left :: (us ++ vs)) := by simpa using hp
  refine .here_bind fun start => .advance_bind hp' (by simp) (by simp [hword])
    fun p₁ hp₁ => ?_
  rw [← bind_assoc]
  have hdot : ¬ At .dot (left :: (us ++ vs)) := by
    rw [At.cons_iff, hleft]
    decide
  refine (answers_class hcallee (by omega) hp₁ (by simp) hdot).bind fun e p₂ he hp₂ => ?_
  refine .accept_bind hp₂ (by simp [hvs]) hleft (by decide) fun p₃ hp₃ => ?_
  refine (harguments m p₃ vs (by omega) hp₃ hvs).bind fun values p₄ hvalues hp₄ => ?_
  refine .before_bind fun paren => .freshNode_bind fun node p₅ hp₅ => ?_
  refine .pure ?_ (hp₅.trans hp₄)
  rw [Expr.bare, he, hvalues]

theorem accepted_new {word : Token} {ts us : List Token} {callee : Expr}
    {arguments : List Expr} (hword : word.kind = .new) (hcallee : AcceptedClass ts callee)
    (harguments : AcceptedArguments us arguments) :
    Accepted .access (word :: ts ++ us) (.new .blank callee arguments .blank) := by
  intro n p vs ws P hn hp hvs hgo
  have hpos : 0 < (word :: ts ++ us).length := by simp
  obtain ⟨m, rfl⟩ : ∃ m, n = m + 1 := ⟨n - 1, by omega⟩
  rw [call]
  refine .peek_bind hp ?_
  rw [if_pos hword]
  refine (answers_new hword hcallee harguments (by omega) hp hvs).bind fun e p₁ he hp₁ => ?_
  exact hgo m e p₁ (by omega) he hp₁

/-- Reading calls and properties stops in front of any other token. -/
theorem answers_callTail {n : Nat} {e : Expr} {p : Parser} {us : List Token}
    (hn : 0 < n) (hp : p.rest = us) (hfollows : Follows 7 us) :
    Answers [] (callTail n e) p (fun e' => e' = e) us := by
  obtain ⟨m, rfl⟩ : ∃ m, n = m + 1 := ⟨n - 1, by omega⟩
  rw [callTail]
  refine .refuse_bind hp (hfollows.not_at rfl (by decide)) ?_
  refine .refuse_bind hp (hfollows.not_at rfl (by decide)) ?_
  exact .pure rfl hp

theorem accepted_bareNew {word : Token} {ts : List Token} {callee : Expr}
    (hword : word.kind = .new) (hcallee : AcceptedClass ts callee) :
    Accepted .call (word :: ts) (.new .blank callee [] .blank) := by
  intro n p us hn hp hus hfollows
  have hpos : 0 < (word :: ts).length := by simp
  obtain ⟨m, rfl⟩ : ∃ m, n = m + 1 := ⟨n - 1, by omega⟩
  rw [call]
  refine .peek_bind hp ?_
  rw [if_pos hword]
  refine (answers_bareNew hword hcallee (by omega) hp hus hfollows).bind fun e p₁ he hp₁ => ?_
  exact (answers_callTail (by omega) hp₁ hfollows).mono fun e' heq => heq ▸ he

theorem accepted_call {ts us : List Token} {callee : Expr} {arguments : List Expr}
    (hts : Begins .access ts) (hcallee : Accepted .access ts callee)
    (harguments : AcceptedArguments us arguments) :
    Accepted .access (ts ++ us) (.call .blank callee arguments .blank) := by
  intro n p vs ws P hn hp hvs hgo
  have hpos := hts.length_pos
  obtain ⟨left, us, rfl, hleft, harguments⟩ := harguments
  simp only [List.length_append, List.length_cons] at hn hgo harguments
  refine hcallee n p (left :: (us ++ vs)) ws P (by omega) (by simpa using hp) (by simp) ?_
  intro n' e' p' hn' he hp'
  obtain ⟨m, rfl⟩ : ∃ m, n' = m + 1 := ⟨n' - 1, by omega⟩
  rw [callTail]
  refine .accept_bind hp' (by simp [hvs]) hleft (by decide) fun p₁ hp₁ => ?_
  refine (harguments m p₁ vs (by omega) hp₁ hvs).bind fun values p₂ hvalues hp₂ => ?_
  refine .before_bind fun paren => .freshNode_bind fun node p₃ hp₃ => ?_
  refine hgo m _ p₃ (by omega) ?_ (hp₃.trans hp₂)
  rw [Expr.bare, he, hvalues]

theorem accepted_get {ts : List Token} {dot name : Token} {object : Expr}
    (hobject : Accepted .access ts object) (hdot : dot.kind = .dot)
    (hname : name.kind = .identifier) :
    Accepted .access (ts ++ [dot, name]) (.get .blank object name.lexeme .blank) := by
  intro n p us vs P hn hp hus hgo
  simp only [List.length_append, List.length_cons, List.length_nil] at hn hgo
  refine hobject n p (dot :: name :: us) vs P (by omega) (by simpa using hp) (by simp) ?_
  intro n' e' p' hn' he hp'
  obtain ⟨m, rfl⟩ : ∃ m, n' = m + 1 := ⟨n' - 1, by omega⟩
  rw [callTail]
  refine .refuse_bind hp' (by rw [At.cons_iff, hdot]; decide) ?_
  refine .accept_bind hp' (by simp) hdot (by decide) fun p₁ hp₁ => ?_
  refine (answers_property hp₁ hus hname).bind fun e'' p₂ he' hp₂ => ?_
  exact hgo m e'' p₂ (by omega) (by rw [he', he]) hp₂

theorem acceptedArguments_none {left right : Token} (hleft : left.kind = .leftParen)
    (hright : right.kind = .rightParen) : AcceptedArguments [left, right] [] := by
  refine ⟨left, [right], rfl, hleft, fun n p us hn hp hus => ?_⟩
  obtain ⟨m, rfl⟩ : ∃ m, n = m + 1 := ⟨n - 1, by simp at hn; omega⟩
  rw [arguments]
  refine .peek_bind hp ?_
  rw [if_pos hright]
  refine .expect_bind hp hus hright (by decide) fun p₁ hp₁ => ?_
  exact .pure rfl hp₁

theorem acceptedArguments_some {left right : Token} {ts : List Token}
    {values : List Expr} (hleft : left.kind = .leftParen) (hts : Begins .assignment ts)
    (hvalues : AcceptedValues ts values) (hlength : values.length ≤ 255)
    (hright : right.kind = .rightParen) :
    AcceptedArguments (left :: ts ++ [right]) values := by
  refine ⟨left, ts ++ [right], rfl, hleft, fun n p us hn hp hus => ?_⟩
  simp only [List.length_append, List.length_cons, List.length_nil] at hn
  obtain ⟨m, rfl⟩ : ∃ m, n = m + 1 := ⟨n - 1, by omega⟩
  have hp' : p.rest = ts ++ right :: us := by simpa using hp
  have hbegins := hts.append (right :: us)
  obtain ⟨t, zs, hcons, -⟩ := id hbegins
  rw [arguments]
  refine .peek_bind (hp'.trans hcons) ?_
  have hkind : t.kind ≠ .rightParen := by
    intro ht
    rw [hcons] at hbegins
    exact hbegins.not_at rfl (At.cons_iff.2 ht)
  rw [if_neg hkind]
  refine (hvalues m 0 p (right :: us) (by omega) (by omega) hp'
    (At.cons_iff.2 hright)).bind fun es p₁ hes hp₁ => ?_
  refine .expect_bind hp₁ hus hright (by decide) fun p₂ hp₂ => ?_
  exact .pure hes hp₂

theorem acceptedValues_one {ts : List Token} {value : Expr}
    (hvalue : Accepted .assignment ts value) : AcceptedValues ts [value] := by
  intro n count p us hn hcount hp hat
  obtain ⟨m, rfl⟩ : ∃ m, n = m + 1 := ⟨n - 1, by omega⟩
  obtain ⟨right, us, rfl, hright⟩ := hat
  rw [argumentValues, if_neg (by unfold maxArguments; simp at hcount; omega)]
  have hexpression := hvalue m p (right :: us) (by omega) hp (by simp)
    (.of_kind (by rw [hright]; rfl))
  refine hexpression.bind fun e p₁ he hp₁ => ?_
  refine .refuse_bind hp₁ (by rw [At.cons_iff, hright]; decide) ?_
  refine .pure ?_ hp₁
  rw [Expr.bareAll, Expr.bareAll, he]

theorem acceptedValues_more {ts us : List Token} {comma : Token} {value : Expr}
    {values : List Expr} (hvalue : Accepted .assignment ts value)
    (hcomma : comma.kind = .comma) (hvalues : AcceptedValues us values) :
    AcceptedValues (ts ++ comma :: us) (value :: values) := by
  intro n count p vs hn hcount hp hat
  simp only [List.length_append, List.length_cons] at hn hcount
  obtain ⟨m, rfl⟩ : ∃ m, n = m + 1 := ⟨n - 1, by omega⟩
  rw [argumentValues, if_neg (by unfold maxArguments; omega)]
  have hexpression := hvalue m p (comma :: (us ++ vs)) (by omega) (by simpa using hp)
    (by simp) (.of_kind (by rw [hcomma]; rfl))
  refine hexpression.bind fun e p₁ he hp₁ => ?_
  refine .accept_bind hp₁ (by simp [hat.ne_nil]) hcomma (by decide) fun p₂ hp₂ => ?_
  refine (hvalues m (count + 1) p₂ vs (by omega) (by omega) hp₂ hat).bind
    fun es p₃ hes hp₃ => ?_
  refine .pure ?_ hp₃
  rw [Expr.bareAll, he, hes]

/-! ## Operators -/

theorem accepted_unary {sign : Token} {ts : List Token} {op : UnaryOp} {operand : Expr}
    (hsign : UnarySign sign.kind op) (hoperand : Accepted .unary ts operand) :
    Accepted .unary (sign :: ts) (.unary .blank op operand) := by
  intro n p us hn hp hus hfollows
  simp only [List.length_cons] at hn
  obtain ⟨m, rfl⟩ : ∃ m, n = m + 1 := ⟨n - 1, by omega⟩
  have hop : UnaryOp.ofKind? sign.kind = some op := by
    generalize sign.kind = kind at hsign
    cases hsign <;> rfl
  rw [unary]
  refine .peek_bind hp ?_
  rw [hop]
  refine .here_bind fun start => ?_
  refine .advance_bind hp (by simp [hus]) (ne_eof_of_unarySign hsign) fun p₁ hp₁ => ?_
  refine (hoperand m p₁ us (by omega) hp₁ hus hfollows).bind fun e p₂ he hp₂ => ?_
  refine .freshNode_bind fun node p₃ hp₃ => .pure ?_ (hp₃.trans hp₂)
  rw [Expr.bare, he]

/-- Given enough budget, operands of the level are read from these tokens. -/
def AcceptedOperand (l : Level) (ts : List Token) (e : Expr) : Prop :=
  ∀ (n : Nat) (p : Parser) (us : List Token), 20 * ts.length ≤ n + 2 * rank l →
    p.rest = ts ++ us → us ≠ [] → Follows (rank l + 1) us →
      Answers [] (operand n l) p (fun e' => e'.bare = e) us

theorem rank_le (l : Level) : rank l ≤ 6 := by
  cases l <;> decide

/-- Reading operators of a level stops in front of a token that binds less tightly. -/
theorem answers_binaryTail {n : Nat} {l : Level} {e : Expr} {p : Parser}
    {us : List Token} (hn : 0 < n) (hp : p.rest = us) (hfollows : Follows (rank l) us) :
    Answers [] (binaryTail n l e) p (fun e' => e' = e) us := by
  obtain ⟨m, rfl⟩ : ∃ m, n = m + 1 := ⟨n - 1, by omega⟩
  have hrest : p.rest = p.current :: p.later := rfl
  rw [← hp, hrest] at hfollows
  rw [binaryTail]
  refine .peek_bind hrest ?_
  rw [hfollows.operator?_eq_none]
  exact .pure rfl hp

/-- An expression of a level that is read in full. -/
theorem answers_level {l : Level} {ts us : List Token} {e : Expr} {n : Nat} {p : Parser}
    (h : Accepted (.level l) ts e) (hn : 20 * ts.length + 1 ≤ n + 2 * rank l)
    (hts : 0 < ts.length) (hp : p.rest = ts ++ us) (hus : us ≠ [])
    (hfollows : Follows (rank l) us) :
    Answers [] (binary n l) p (fun e' => e'.bare = e) us := by
  have hrank := rank_le l
  refine h n p us us _ hn hp hus (hfollows.mono (by omega)) fun n' e' p' hn' he hp' => ?_
  exact (answers_binaryTail (by omega) hp' hfollows).mono fun e'' heq => heq ▸ he

theorem acceptedOperand_level {l l' : Level} {ts : List Token} {e : Expr}
    (hnext : l.next? = some l') (hts : Begins (.level l') ts)
    (h : Accepted (.level l') ts e) : AcceptedOperand l ts e := by
  intro n p us hn hp hus hfollows
  have hpos := hts.length_pos
  have hrank := rank_le l
  have hrank' : rank l' = rank l + 1 := by
    cases l <;> cases hnext <;> rfl
  obtain ⟨m, rfl⟩ : ∃ m, n = m + 1 := ⟨n - 1, by omega⟩
  rw [operand, hnext]
  exact answers_level h (by omega) hpos hp hus (hrank' ▸ hfollows)

theorem acceptedOperand_unary {ts : List Token} {e : Expr} (hts : Begins .unary ts)
    (h : Accepted .unary ts e) : AcceptedOperand .factor ts e := by
  intro n p us hn hp hus hfollows
  have hpos := hts.length_pos
  simp only [rank] at hn hfollows
  obtain ⟨m, rfl⟩ : ∃ m, n = m + 1 := ⟨n - 1, by omega⟩
  rw [operand]
  exact h m p us (by omega) hp hus hfollows

theorem acceptedOperand_of_includes {l : Level} {c : Category} {ts : List Token}
    {e : Expr} (hinclude : Includes (.level l) c) (hts : Begins c ts)
    (h : Accepted c ts e) : AcceptedOperand l ts e := by
  cases hinclude with
  | or => exact acceptedOperand_level rfl hts h
  | and => exact acceptedOperand_level rfl hts h
  | equality => exact acceptedOperand_level rfl hts h
  | comparison => exact acceptedOperand_level rfl hts h
  | term => exact acceptedOperand_level rfl hts h
  | factor => exact acceptedOperand_unary hts h

theorem accepted_level {l : Level} {ts : List Token} {e : Expr} (hpos : 0 < ts.length)
    (h : AcceptedOperand l ts e) : Accepted (.level l) ts e := by
  intro n p us vs P hn hp hus hfollows hgo
  have hrank := rank_le l
  obtain ⟨m, rfl⟩ : ∃ m, n = m + 1 := ⟨n - 1, by omega⟩
  rw [binary]
  refine (h m p us (by omega) hp hus hfollows).bind fun e' p₁ he hp₁ => ?_
  exact hgo m e' p₁ (by omega) he hp₁

theorem accepted_operator {l : Level} {ts us : List Token} {sign : Token} {op : Operator}
    {left right : Expr} (hts : 0 < ts.length) (hus : 0 < us.length)
    (hleft : Accepted (.level l) ts left) (hsign : BinarySign l sign.kind op)
    (hright : AcceptedOperand l us right) :
    Accepted (.level l) (ts ++ sign :: us) (op.apply .blank left right .blank) := by
  intro n p vs ws P hn hp hvs hfollows hgo
  have hrank := rank_le l
  simp only [List.length_append, List.length_cons] at hn hgo
  have hsigned : Follows (rank l + 1) (sign :: (us ++ vs)) := by
    intro kind hat s hs
    rw [← At.cons_iff.1 hat, strength?_of_binarySign hsign] at hs
    cases hs
    exact Nat.lt_succ_self _
  refine hleft n p (sign :: (us ++ vs)) ws P (by omega) (by simpa using hp) (by simp) hsigned ?_
  intro n' e' p' hn' he hp'
  obtain ⟨m, rfl⟩ : ∃ m, n' = m + 1 := ⟨n' - 1, by omega⟩
  rw [binaryTail]
  refine .peek_bind hp' ?_
  rw [operator?_of_binarySign hsign]
  refine .advance_bind hp' (by simp [hvs]) (ne_eof_of_binarySign hsign) fun p₁ hp₁ => ?_
  refine .before_bind fun opSpan => ?_
  refine (hright m p₁ vs (by omega) hp₁ hvs hfollows).bind fun e'' p₂ he' hp₂ => ?_
  refine .freshNode_bind fun node p₃ hp₃ => ?_
  refine hgo m _ p₃ (by omega) ?_ (hp₃.trans hp₂)
  rw [bare_apply, he, he']

/-! ## Assignments -/

/-- An assignment that is read after its target, which a reader takes for an
expression first. -/
theorem accepted_target {ts us : List Token} {equals : Token} {target value e : Expr}
    (hts : 0 < ts.length) (htarget : Accepted (.level .or) ts target)
    (hequals : equals.kind = .equal) (hvalue : Accepted .assignment us value)
    (hassign : ∀ target' value' p, target'.bare = target → value'.bare = value →
      Answers [] (assignTo target' value' equals) p (fun e' => e'.bare = e) p.rest) :
    Accepted .assignment (ts ++ equals :: us) e := by
  intro n p vs hn hp hvs hfollows
  simp only [List.length_append, List.length_cons] at hn
  obtain ⟨m, rfl⟩ : ∃ m, n = m + 1 := ⟨n - 1, by omega⟩
  have hequal : Follows (rank .or) (equals :: (us ++ vs)) := by
    intro kind hat s hs
    rw [← At.cons_iff.1 hat, hequals] at hs
    cases hs
    decide
  rw [expression]
  refine (answers_level htarget (by simp only [rank]; omega) hts (by simpa using hp)
    (by simp) hequal).bind fun target' p₁ htarget' hp₁ => ?_
  refine .peek_bind hp₁ ?_
  rw [if_pos hequals]
  refine .get_bind ?_
  rw [Parser.current_eq hp₁]
  refine .advance_bind hp₁ (by simp [hvs]) (by simp [hequals]) fun p₂ hp₂ => ?_
  refine (hvalue m p₂ vs (by omega) hp₂ hvs hfollows).bind fun value' p₃ hvalue' hp₃ => ?_
  have hanswer := hassign target' value' p₃ htarget' hvalue'
  rwa [hp₃] at hanswer

theorem accepted_expression {ts : List Token} {e : Expr} (hts : 0 < ts.length)
    (h : Accepted (.level .or) ts e) : Accepted .assignment ts e := by
  intro n p us hn hp hus hfollows
  obtain ⟨m, rfl⟩ : ∃ m, n = m + 1 := ⟨n - 1, by omega⟩
  obtain ⟨next, us', rfl⟩ := List.exists_cons_of_ne_nil hus
  rw [expression]
  refine (answers_level h (by simp only [rank]; omega) hts hp hus
    (hfollows.mono (by decide))).bind fun e' p₁ he hp₁ => ?_
  refine .peek_bind hp₁ ?_
  have hkind : next.kind ≠ .equal :=
    fun hequal => hfollows.not_at rfl (Nat.le_refl 0) (At.cons_iff.2 hequal)
  rw [if_neg hkind]
  exact .pure he hp₁

theorem accepted_of_includes {c c' : Category} {ts : List Token} {e : Expr}
    (hinclude : Includes c c') (hts : Begins c' ts) (h : Accepted c' ts e) :
    Accepted c ts e := by
  have hpos := hts.length_pos
  cases hinclude with
  | assignment => exact accepted_expression hpos h
  | or => exact accepted_level hpos (acceptedOperand_level rfl hts h)
  | and => exact accepted_level hpos (acceptedOperand_level rfl hts h)
  | equality => exact accepted_level hpos (acceptedOperand_level rfl hts h)
  | comparison => exact accepted_level hpos (acceptedOperand_level rfl hts h)
  | term => exact accepted_level hpos (acceptedOperand_level rfl hts h)
  | factor => exact accepted_level hpos (acceptedOperand_unary hts h)
  | unary =>
    intro n p us hn hp hus hfollows
    obtain ⟨t, ts, rfl, ht⟩ := hts
    obtain ⟨m, rfl⟩ : ∃ m, n = m + 1 := ⟨n - 1, by omega⟩
    rw [unary]
    refine .peek_bind hp ?_
    rw [ofKind?_eq_none ht]
    exact h m p us (by omega) hp hus hfollows
  | call =>
    intro n p us hn hp hus hfollows
    refine h n p us us _ hn hp hus fun n' e' p' hn' he hp' => ?_
    exact (answers_callTail (by omega) hp' hfollows).mono fun e'' heq => heq ▸ he
  | access =>
    intro n p us vs P hn hp hus hgo
    obtain ⟨t, ts, rfl, ht⟩ := hts
    obtain ⟨m, rfl⟩ : ∃ m, n = m + 1 := ⟨n - 1, by omega⟩
    rw [call]
    refine .peek_bind hp ?_
    have hkind : t.kind ≠ .new := by
      intro hnew
      rw [hnew] at ht
      cases ht
    rw [if_neg hkind]
    refine (h m p us (by omega) hp hus).bind fun e' p₁ he hp₁ => ?_
    exact hgo m e' p₁ (by omega) he hp₁

/-- What may have properties is an expression of every operator level. -/
theorem accepted_or_of_access {ts : List Token} {e : Expr} (hts : Begins .access ts)
    (h : Accepted .access ts e) : Accepted (.level .or) ts e := by
  have hcall := accepted_of_includes .call hts h
  have hunary := accepted_of_includes .unary (hts.of .call) hcall
  have hbegins : Begins .unary ts := (hts.of .call).of .unary
  have hfactor := accepted_of_includes .factor hbegins hunary
  have hterm := accepted_of_includes .term (hbegins.of .factor) hfactor
  have hbegins := (hbegins.of .factor).of .term
  have hcomparison := accepted_of_includes .comparison hbegins hterm
  have hequality := accepted_of_includes .equality (hbegins.of .comparison) hcomparison
  have hbegins := (hbegins.of .comparison).of .equality
  have hand := accepted_of_includes .and hbegins hequality
  exact accepted_of_includes .or (hbegins.of .and) hand

theorem accepted_assign {name equals : Token} {us : List Token} {value : Expr}
    (hname : name.kind = .identifier) (hequals : equals.kind = .equal)
    (hvalue : Accepted .assignment us value) :
    Accepted .assignment (name :: equals :: us) (.assign .blank name.lexeme value) := by
  have hbegins : Begins .primary [name] := begins_of_reads (.name hname)
  have htarget : Accepted .access [name] (.variable .blank name.lexeme) :=
    accepted_of_includes .access hbegins (accepted_name hname)
  have hlevel := accepted_or_of_access (hbegins.of .access) htarget
  have hlength : 0 < [name].length := Nat.zero_lt_one
  refine accepted_target hlength hlevel hequals hvalue ?_
  intro target' value' p htarget' hvalue'
  cases target' <;> simp only [Expr.bare, reduceCtorEq, Expr.variable.injEq] at htarget'
  refine .freshNode_bind fun node p₁ hp₁ => .pure ?_ hp₁
  rw [Expr.bare, hvalue', htarget'.2]

theorem accepted_set {ts us : List Token} {dot name equals : Token}
    {object value : Expr} (hts : Begins .access ts) (hobject : Accepted .access ts object)
    (hdot : dot.kind = .dot) (hname : name.kind = .identifier)
    (hequals : equals.kind = .equal) (hvalue : Accepted .assignment us value) :
    Accepted .assignment (ts ++ dot :: name :: equals :: us)
      (.set .blank object name.lexeme .blank value) := by
  have htarget := accepted_or_of_access (hts.append [dot, name])
    (accepted_get hobject hdot hname)
  have haccepted : Accepted .assignment (ts ++ [dot, name] ++ equals :: us)
      (.set .blank object name.lexeme .blank value) := by
    refine accepted_target (by simp) htarget hequals hvalue ?_
    intro target' value' p htarget' hvalue'
    cases target' <;> simp only [Expr.bare, reduceCtorEq, Expr.get.injEq] at htarget'
    refine .freshNode_bind fun node p₁ hp₁ => .pure ?_ hp₁
    rw [Expr.bare, hvalue', htarget'.2.1, htarget'.2.2.1]
  simpa using haccepted

/-! ## Derived expressions -/

theorem begins_of_values {ts : List Token} {es : List Expr} :
    Values ts es → Begins .assignment ts
  | .one hvalue => begins_of_reads hvalue
  | .more hvalue _ _ => (begins_of_reads hvalue).append _

mutual
/-- Every derived expression is read. -/
theorem accepted_of_reads {c : Category} {ts : List Token} {e : Expr} :
    Reads c ts e → Accepted c ts e
  | .of hinclude hinner =>
    accepted_of_includes hinclude (begins_of_reads hinner) (accepted_of_reads hinner)
  | .assign hname hequals hvalue =>
    accepted_assign hname hequals (accepted_of_reads hvalue)
  | .set hobject hdot hname hequals hvalue =>
    accepted_set (begins_of_reads hobject) (accepted_of_reads hobject) hdot hname hequals
      (accepted_of_reads hvalue)
  | .operator hleft hsign hinclude hright =>
    accepted_operator (begins_of_reads hleft).length_pos (begins_of_reads hright).length_pos
      (accepted_of_reads hleft) hsign
      (acceptedOperand_of_includes hinclude (begins_of_reads hright)
        (accepted_of_reads hright))
  | .unary hsign hoperand => accepted_unary hsign (accepted_of_reads hoperand)
  | .bareNew hword hcallee => accepted_bareNew hword (accepted_of_readsClass hcallee)
  | .new hword hcallee harguments =>
    accepted_new hword (accepted_of_readsClass hcallee) (accepted_of_arguments harguments)
  | .call hcallee harguments =>
    accepted_call (begins_of_reads hcallee) (accepted_of_reads hcallee)
      (accepted_of_arguments harguments)
  | .get hobject hdot hname => accepted_get (accepted_of_reads hobject) hdot hname
  | .literal hvalue => accepted_literal hvalue
  | .this hkind => accepted_this hkind
  | .name hkind => accepted_name hkind
  | .grouping hleft hinner hright => accepted_grouping hleft (accepted_of_reads hinner) hright

theorem accepted_of_readsClass {ts : List Token} {e : Expr} :
    ReadsClass ts e → AcceptedClass ts e
  | .primary h => acceptedClass_primary h (accepted_of_reads h)
  | .get hobject hdot hname =>
    acceptedClass_get (accepted_of_readsClass hobject) hdot hname

theorem accepted_of_arguments {ts : List Token} {es : List Expr} :
    Arguments ts es → AcceptedArguments ts es
  | .none hleft hright => acceptedArguments_none hleft hright
  | .some hleft hvalues hlength hright =>
    acceptedArguments_some hleft (begins_of_values hvalues) (accepted_of_values hvalues)
      hlength hright

theorem accepted_of_values {ts : List Token} {es : List Expr} :
    Values ts es → AcceptedValues ts es
  | .one hvalue => acceptedValues_one (accepted_of_reads hvalue)
  | .more hvalue hcomma hvalues =>
    acceptedValues_more (accepted_of_reads hvalue) hcomma (accepted_of_values hvalues)
end

end Parse

end Lox
