import Lox.Proofs.Syntax.Extent
import Lox.Proofs.Syntax.Progress
import Lox.Proofs.Syntax.SoundExpression

/-!
# Where trees are read

A tree that is read without error was read from the tokens between the place where its rule began
and the one where it ended (`located`).

**Errors.** Nothing is promised of a tree once an error was noted.  Errors are never taken back,
so it is enough to look at the course of a rule as long as there is none (`Finds`).

**Tails.** A rule that reads on after an expression finds what begins where that expression did.
-/

namespace Lox

/-- The cursor is at token `i`, and no error was noted. -/
structure Parser.CleanAt (tokens : List Token) (i : Nat) (p : Parser) : Prop where
  stands : p.StandsAt tokens i
  clean : p.noted = 0

namespace Parser.CleanAt

variable {tokens : List Token} {i j : Nat} {p q : Parser}

theorem eq (h : p.CleanAt tokens i) (h' : p.CleanAt tokens j) : j = i := by
  have := h.stands.length_eq
  have := h'.stands.length_eq
  omega

theorem isAt (h : p.CleanAt tokens i) : Extent.IsAt tokens i p.kind :=
  ⟨p.current, h.stands.current, rfl⟩

/-- Only the tokens and the errors count. -/
theorem same (h : p.CleanAt tokens i) (hprevious : q.previous = p.previous)
    (hcurrent : q.current = p.current) (hlater : q.later = p.later)
    (herrors : q.errors = p.errors) : q.CleanAt tokens i where
  stands := h.stands.same hprevious hcurrent hlater
  clean := by
    rw [noted, herrors]
    exact h.clean

theorem advance (hclosed : Closed tokens) (h : p.CleanAt tokens i) (hkind : p.kind ≠ .eof) :
    p.advance.CleanAt tokens (i + 1) where
  stands := h.stands.advance hclosed hkind
  clean := (congrArg Array.size p.errors_advance).trans h.clean

end Parser.CleanAt

namespace Extent

variable {tokens : List Token} {i j : Nat} {kind kind' : Token.Kind}

theorem IsAt.kind_eq (h : IsAt tokens i kind) (h' : IsAt tokens i kind') : kind' = kind := by
  obtain ⟨t, ht, rfl⟩ := h
  obtain ⟨t', ht', rfl⟩ := h'
  rw [ht] at ht'
  cases ht'
  rfl

end Extent

namespace Parse

open Extent

/-! ## The contract -/

/-- What a rule reads from the tokens from `i` up to `j`. -/
def Rule.Reads (tokens : List Token) (i : Nat) : (r : Rule) → r.Answer → Nat → Prop
  | .properties left, e, j => ∀ h, Expression tokens h i left → Expression tokens h j e
  | .parameterNames _, names, j => Names tokens i j names
  | .expression, e, j => Expression tokens i j e
  | .binary _, e, j => Expression tokens i j e
  | .operand _, e, j => Expression tokens i j e
  | .binaryTail _ left, e, j => ∀ h, Expression tokens h i left → Expression tokens h j e
  | .unary, e, j => Expression tokens i j e
  | .call, e, j => Expression tokens i j e
  | .callTail left, e, j => ∀ h, Expression tokens h i left → Expression tokens h j e
  | .instantiation, e, j => Expression tokens i j e
  | .arguments, values, j =>
    ∀ h, i = h + 1 → IsAt tokens h .leftParen → Arguments tokens h j values
  | .argumentValues _, values, j => Values tokens i j values
  | .primary, e, j => Expression tokens i j e
  | .declaration, s, j => Statement tokens i j s
  | .classDeclaration, s, j => Statement tokens i j s
  | .methods, fs, j => Functions tokens i j fs
  | .functionDeclaration, s, j => Statement tokens i j s
  | .function _, f, j => Function tokens i j f
  | .blockBody, ss, j => ∃ k, k + 1 = j ∧ Statements tokens i k ss ∧ IsAt tokens k .rightBrace
  | .blockItems, ss, j => Statements tokens i j ss
  | .statement, s, j => Statement tokens i j s
  | .block, s, j => Statement tokens i j s
  | .ifStatement, s, j => Statement tokens i j s
  | .whileStatement, s, j => Statement tokens i j s
  | .forStatement, s, j => Statement tokens i j s
  | .statements, ss, j => Statements tokens i j ss ∧ IsAt tokens j .eof

/-- The token that a rule moves past without a look at it. -/
def Rule.word? : Rule → Option Token.Kind
  | .instantiation => some .new
  | .classDeclaration => some .class
  | .functionDeclaration => some .fun
  | .block => some .leftBrace
  | .ifStatement => some .if
  | .whileStatement => some .while
  | .forStatement => some .for
  | .properties _ | .parameterNames _ | .expression | .binary _ | .operand _ | .binaryTail ..
  | .unary | .call | .callTail _ | .arguments | .argumentValues _ | .primary | .declaration
  | .methods | .function _ | .blockBody | .blockItems | .statement | .statements => none

/-- The contract of all rules: as long as no error is noted, what is read has its extent. -/
def located (tokens : List Token) : Contract where
  safe _ _ := True
  ready _ r p :=
    p.Inside tokens ∧ ∀ i, p.CleanAt tokens i → ∀ kind, r.word? = some kind → IsAt tokens i kind
  reads r p a q :=
    q.Inside tokens ∧ ∀ j, q.CleanAt tokens j → ∃ i, p.CleanAt tokens i ∧ r.Reads tokens i a j
  stops _ p _ q := q.Inside tokens ∧ (q.noted = 0 → p.noted = 0)

namespace Reading

/-- Where a reading answers without any error, `J` holds of the answer and the place. -/
def Finds {α : Type} (tokens : List Token) (n : Nat) (x : Reading α) (J : α → Nat → Prop)
    (q : Parser) : Prop :=
  x.Obeys (located tokens) n (fun a q' => q'.Inside tokens ∧ ∀ j, q'.CleanAt tokens j → J a j)
    (fun _ q' => q'.Inside tokens) q

/-- The rule keeps the contract, as long as there is no error. -/
def Locates (tokens : List Token) (r : Rule) : Prop :=
  ∀ n p i, p.CleanAt tokens i → (∀ kind, r.word? = some kind → IsAt tokens i kind) →
    Finds tokens n (ofRule r) (r.Reads tokens i) p

variable {α β : Type} {tokens : List Token} {n i j k : Nat} {p q : Parser}
  {J : α → Nat → Prop} {K : β → Nat → Prop}

/-! ## After an error -/

/-- An error was noted. -/
structure Spoiled (tokens : List Token) (q : Parser) : Prop where
  inside : q.Inside tokens
  noted : q.noted ≠ 0

namespace Spoiled

theorem not_cleanAt (h : Spoiled tokens q) : ¬ q.CleanAt tokens i := fun hi => h.noted hi.clean

theorem ready (h : Spoiled tokens q) (r : Rule) : (located tokens).ready n r q :=
  ⟨h.inside, fun _ hi => absurd hi h.not_cleanAt⟩

theorem of_reads {r : Rule} {a : r.Answer} (h : Spoiled tokens p)
    (hreads : (located tokens).reads r p a q) : Spoiled tokens q := by
  obtain ⟨⟨j, hj⟩, hread⟩ := hreads
  refine ⟨⟨j, hj⟩, fun hclean => ?_⟩
  obtain ⟨i, hi, -⟩ := hread j ⟨hj, hclean⟩
  exact h.not_cleanAt hi

theorem of_stops {r : Rule} {e : CompileError} (h : Spoiled tokens p)
    (hstops : (located tokens).stops r p e q) : Spoiled tokens q :=
  ⟨hstops.1, fun hclean => h.noted (hstops.2 hclean)⟩

theorem after (hclosed : Closed tokens) (h : Spoiled tokens q) (m : Move) :
    Spoiled tokens (m.after q) := by
  refine ⟨inside_after hclosed h.inside m, ?_⟩
  cases m with
  | advance => exact (congrArg Array.size q.errors_advance).trans_ne h.noted
  | note error =>
    rw [Move.after, Parser.noted, Array.size_push]
    exact Nat.succ_ne_zero _
  | _ => exact h.noted

/-- An error is never taken back. -/
theorem obeys (hclosed : Closed tokens) (x : Reading α) (h : Spoiled tokens q) :
    x.Obeys (located tokens) n (fun _ => Spoiled tokens) (fun _ => Spoiled tokens) q := by
  induction x generalizing q with
  | answer a => exact h
  | fail fault => exact ⟨trivial, h⟩
  | move m next ih => exact ⟨trivial, ih _ (h.after hclosed m)⟩
  | begin r next ih =>
    exact ⟨h.ready r, fun a q' ha => ih a (h.of_reads ha), fun e q' he => h.of_stops he⟩
  | attempt r next ih =>
    exact ⟨h.ready r, fun a q' ha => ih (.ok a) (h.of_reads ha),
      fun e q' he => ih (.error e) (h.of_stops he)⟩

theorem finds (hclosed : Closed tokens) (x : Reading α) (h : Spoiled tokens q) :
    Finds tokens n x J q :=
  (h.obeys hclosed x).mono (fun _ _ hq => ⟨hq.inside, fun _ hj => absurd hj hq.not_cleanAt⟩)
    fun _ _ hq => hq.inside

end Spoiled

/-- A rule keeps the contract if it does so as long as there is no error. -/
theorem Locates.kept (hclosed : Closed tokens) {r : Rule} (h : Locates tokens r) :
    (located tokens).KeptBy r := by
  rintro n p ⟨⟨i, hi⟩, hword⟩
  by_cases hclean : p.noted = 0
  · have hp : p.CleanAt tokens i := ⟨hi, hclean⟩
    exact (h n p i hp (hword i hp)).mono
      (fun a q ha => ⟨ha.1, fun j hj => ⟨i, hp, ha.2 j hj⟩⟩) fun e q he => ⟨he, fun _ => hclean⟩
  · have hp : Spoiled tokens p := ⟨⟨i, hi⟩, hclean⟩
    exact (hp.obeys hclosed _).mono
      (fun a q hq => ⟨hq.inside, fun j hj => absurd hj hq.not_cleanAt⟩)
      fun e q hq => ⟨hq.inside, fun hq' => absurd hq' hq.noted⟩

/-! ## Sequences -/

theorem Finds.mono {J' : α → Nat → Prop} {x : Reading α} (h : Finds tokens n x J q)
    (hJ : ∀ a j, J a j → J' a j) : Finds tokens n x J' q :=
  Obeys.mono h (fun a _ ha => ⟨ha.1, fun j hj => hJ a j (ha.2 j hj)⟩) fun _ _ => id

/-- In a sequence, the second reading is looked at only where the first one answers without
error. -/
theorem Finds.bind (hclosed : Closed tokens) {x : Reading β} {f : β → Reading α}
    (hx : Finds tokens n x K q)
    (hf : ∀ b j q', q'.CleanAt tokens j → K b j → Finds tokens n (f b) J q') :
    Finds tokens n (x >>= f) J q := by
  refine obeys_bind.2 (Obeys.mono hx (fun b q' hb => ?_) fun _ _ => id)
  obtain ⟨⟨j, hj⟩, hK⟩ := hb
  by_cases hclean : q'.noted = 0
  · exact hf b j q' ⟨hj, hclean⟩ (hK j ⟨hj, hclean⟩)
  · exact Spoiled.finds hclosed (f b) ⟨⟨j, hj⟩, hclean⟩

/-- What comes after two branches need not be split. -/
theorem finds_ite_bind {c : Prop} [Decidable c] {x y : Reading β} {f : β → Reading α} :
    Finds tokens n (if c then x >>= f else y >>= f) J q ↔
      Finds tokens n ((if c then x else y) >>= f) J q := by
  split <;> rfl

theorem Finds.map (hclosed : Closed tokens) {x : Reading β} {f : β → α}
    (hx : Finds tokens n x (fun b j => J (f b) j) q) : Finds tokens n (f <$> x) J q :=
  .bind hclosed hx fun _ _ _ hq hb => ⟨⟨_, hq.stands⟩, fun _ hj => hq.eq hj ▸ hb⟩

/-! ## Single steps -/

section Steps

variable (hq : q.CleanAt tokens i)

include hq

/-- A reading that ends where it began. -/
theorem finds_pure {a : α} (h : J a i) : Finds tokens n (pure a) J q :=
  ⟨⟨i, hq.stands⟩, fun _ hj => hq.eq hj ▸ h⟩

theorem finds_fail {fault : SyntaxFault} : Finds tokens n (.fail fault : Reading α) J q :=
  ⟨trivial, i, hq.stands⟩

theorem finds_look : Finds tokens n look (fun t j => i = j ∧ tokens[i]? = some t) q :=
  ⟨trivial, finds_pure hq ⟨rfl, hq.stands.current⟩⟩

theorem finds_peek : Finds tokens n peek (fun kind j => i = j ∧ IsAt tokens i kind) q :=
  ⟨trivial, finds_pure hq ⟨rfl, hq.isAt⟩⟩

theorem finds_atEnd :
    Finds tokens n atEnd (fun b j => i = j ∧ (b = true → IsAt tokens i .eof)) q :=
  ⟨trivial, finds_pure hq ⟨rfl, fun h => ⟨_, hq.stands.current, of_decide_eq_true h⟩⟩⟩

theorem finds_here : Finds tokens n here (fun s j => i = j ∧ PlaceAt tokens i s) q :=
  ⟨trivial, finds_pure hq ⟨rfl, _, hq.stands.current, rfl⟩⟩

theorem finds_before : Finds tokens n before (fun s j => i = j ∧ PlaceAt tokens (i - 1) s) q :=
  ⟨trivial, finds_pure hq ⟨rfl, _, hq.stands.previous, rfl⟩⟩

theorem finds_spanFrom (hordered : Ordered tokens) {span : Span}
    (h : span.FromTo tokens j k) (hle : k ≤ i) :
    Finds tokens n (spanFrom span) (fun s l => i = l ∧ s.FromTo tokens j i) q := by
  refine ⟨trivial, finds_pure hq ⟨rfl, ?_⟩⟩
  have hlast : Span.FromTo tokens (i - 1) i q.previous.span := by
    have hlt := h.lt
    have hplace : PlaceAt tokens (i - 1) q.previous.span := ⟨_, hq.stands.previous, rfl⟩
    have := hplace.fromTo
    rwa [Nat.sub_add_cancel (by omega)] at this
  exact h.through hordered hlast hle

theorem finds_advance (hclosed : Closed tokens) {kind : Token.Kind} (h : IsAt tokens i kind)
    (hkind : kind ≠ .eof) : Finds tokens n advance (fun _ j => j = i + 1) q := by
  have hne : q.kind ≠ .eof := hq.isAt.kind_eq h ▸ hkind
  exact ⟨trivial, finds_pure (hq.advance hclosed hne) rfl⟩

theorem finds_freshNode (span : Span) :
    Finds tokens n (freshNode span) (fun node j => i = j ∧ node.span = span) q :=
  ⟨trivial, finds_pure (q := (Move.freshNode span).after q) (hq.same rfl rfl rfl rfl) ⟨rfl, rfl⟩⟩

theorem finds_freshFunction : Finds tokens n freshFunction (fun _ j => i = j) q :=
  ⟨trivial, finds_pure (q := Move.freshFunction.after q) (hq.same rfl rfl rfl rfl) rfl⟩

/-- Nothing is found once an error is noted. -/
theorem finds_note (error : CompileError) (hclosed : Closed tokens) :
    Finds tokens n (note error) (fun _ _ => False) q := by
  refine ⟨trivial, inside_after hclosed ⟨i, hq.stands⟩ (.note error), fun j hj => ?_⟩
  have hclean := hj.clean
  rw [Move.after, Parser.noted, Array.size_push] at hclean
  exact absurd hclean (Nat.succ_ne_zero _)

theorem finds_accept (hclosed : Closed tokens) {kind : Token.Kind} (hkind : kind ≠ .eof) :
    Finds tokens n (accept kind)
      (fun b j => b = true ∧ IsAt tokens i kind ∧ j = i + 1 ∨ b = false ∧ i = j) q := by
  refine .bind hclosed (finds_peek hq) ?_
  rintro found _ q hq ⟨rfl, h⟩
  split
  · next heq =>
    rw [heq] at h
    refine .bind hclosed (finds_advance hq hclosed h hkind) ?_
    rintro _ _ q hq rfl
    exact finds_pure hq (.inl ⟨rfl, h, rfl⟩)
  · exact finds_pure hq (.inr ⟨rfl, rfl⟩)

theorem finds_expect (hclosed : Closed tokens) {kind : Token.Kind} (hkind : kind ≠ .eof)
    (missing : Missing) :
    Finds tokens n (expect kind missing) (fun _ j => j = i + 1 ∧ IsAt tokens i kind) q := by
  refine .bind hclosed (finds_peek hq) ?_
  rintro found _ q hq ⟨rfl, h⟩
  split
  · next heq =>
    rw [heq] at h
    exact (finds_advance hq hclosed h hkind).mono fun _ _ hj => ⟨hj, h⟩
  · exact finds_fail hq

theorem finds_expectName (hclosed : Closed tokens) (missing : Missing) :
    Finds tokens n (expectName missing)
      (fun name j => j = i + 1 ∧ NameAt tokens i name) q := by
  refine .bind hclosed (finds_peek hq) ?_
  rintro found _ q hq ⟨rfl, h⟩
  split
  · next heq =>
    rw [heq] at h
    refine .bind hclosed (finds_look hq) ?_
    rintro t _ q hq ⟨rfl, ht⟩
    refine .bind hclosed (finds_advance hq hclosed h (by decide)) ?_
    rintro _ _ q hq rfl
    obtain ⟨t', ht', hkind⟩ := h
    rw [ht] at ht'
    cases ht'
    exact finds_pure hq ⟨rfl, t, ht, hkind, rfl⟩
  · exact finds_fail hq

/-- A rule finds what the contract says. -/
theorem finds_worded {r : Rule} (hword : ∀ kind, r.word? = some kind → IsAt tokens i kind) :
    Finds tokens n (rule r) (r.Reads tokens i) q := by
  refine ⟨⟨⟨i, hq.stands⟩, fun j hj => hq.eq hj ▸ hword⟩, fun a q' ha => ⟨ha.1, fun j hj => ?_⟩,
    fun e q' he => he.1⟩
  obtain ⟨i', hi', hread⟩ := ha.2 j hj
  exact hq.eq hi' ▸ hread

theorem finds_rule {r : Rule} (hword : r.word? = none) :
    Finds tokens n (rule r) (r.Reads tokens i) q :=
  finds_worded hq fun kind hkind => by
    rw [hword] at hkind
    cases hkind

theorem finds_attempted {r : Rule} (hword : r.word? = none) :
    Finds tokens n (attempted r) (fun a j => ∀ b, a = .ok b → r.Reads tokens i b j) q := by
  refine ⟨⟨⟨i, hq.stands⟩, fun j hj kind hkind => ?_⟩, fun a q' ha => ⟨ha.1, fun j hj b hb => ?_⟩,
    fun e q' he => ⟨he.1, fun j hj b hb => ?_⟩⟩
  · rw [hword] at hkind
    cases hkind
  · cases hb
    obtain ⟨i', hi', hread⟩ := ha.2 j hj
    exact hq.eq hi' ▸ hread
  · cases hb

end Steps

/-- What begins with a word begins where the word does. -/
theorem finds_word (hclosed : Closed tokens) (hq : q.CleanAt tokens i) {kind : Token.Kind}
    (h : IsAt tokens i kind) (hkind : kind ≠ .eof) {f : Span → Reading α}
    (hf : ∀ start q', q'.CleanAt tokens (i + 1) → PlaceAt tokens i start →
      Finds tokens n (f start) J q') :
    Finds tokens n (here >>= fun start => advance >>= fun _ => f start) J q := by
  refine .bind hclosed (finds_here hq) ?_
  rintro start _ q hq ⟨rfl, hstart⟩
  refine .bind hclosed (finds_advance hq hclosed h hkind) ?_
  rintro _ _ q hq rfl
  exact hf start q hq hstart

end Reading

end Parse

end Lox
