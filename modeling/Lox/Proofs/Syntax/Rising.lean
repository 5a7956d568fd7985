import Lox.Proofs.Syntax.Contract
import Lox.Proofs.Syntax.Numbering

/-!
# Numbers rise towards the root

An expression takes its number when all of its operands have been read, so its number is greater
than theirs (`Parsed.isAboveOperands`).  This holds also of expressions that are made from others:
assignments, which are made when their target was read as something else, and loops, which are
put together from the parts of a `for` statement.

**Bounds.** All numbers given out so far are below the next one.  So what was read stays below
whatever number is given out later (`Rising.mono`).
-/

namespace Lox

/-! ## Parts of expressions -/

/-- The expressions that an expression is made of. -/
def Expr.operands : Expr → List Expr
  | .literal .. | .variable .. | .this _ => []
  | .grouping _ inner => [inner]
  | .unary _ _ operand => [operand]
  | .binary _ _ left right _ => [left, right]
  | .logical _ _ left right => [left, right]
  | .assign _ _ value => [value]
  | .call _ callee arguments _ => callee :: arguments
  | .new _ callee arguments _ => callee :: arguments
  | .get _ object _ _ => [object]
  | .set _ object _ _ value => [value, object]

theorem Expr.occurrencesAll_eq_flatMap (place : Place) (es : List Expr) :
    Expr.occurrencesAll place es = es.flatMap (Expr.occurrences place) := by
  induction es with
  | nil => rfl
  | cons e es ih => rw [Expr.occurrencesAll, ih, List.flatMap_cons]

/-- The operands of an expression occur before it. -/
theorem Expr.occurrences_eq (place : Place) (e : Expr) :
    e.occurrences place = e.operands.flatMap (Expr.occurrences place) ++ [⟨e, place⟩] := by
  cases e <;> simp [Expr.occurrences, Expr.operands, Expr.occurrencesAll_eq_flatMap]

namespace Occurrence

/-- The number of the expression is greater than all numbers in its operands. -/
def IsAboveOperands (o : Occurrence) : Prop :=
  ∀ operand ∈ o.expr.operands, ∀ i ∈ operand.ids, i < o.id

/-- The number of the expression is below the bound, and above all numbers in its operands. -/
structure Below (b : Nat) (o : Occurrence) : Prop where
  /-- The number is below the bound. -/
  lt : o.id < b
  /-- The number is above those in the operands. -/
  above : o.IsAboveOperands

end Occurrence

/-! ## What occurs below a bound -/

/-- All numbers are below the bound, and rise towards the root of each expression. -/
def Rising (b : Nat) (occurrences : Place → List Occurrence) : Prop :=
  ∀ place, ∀ o ∈ occurrences place, o.Below b

section

variable {b b' : Nat} {f g : Place → List Occurrence}

theorem rising_nil : Rising b fun _ => [] := fun _ => by simp

theorem Rising.mono (h : Rising b f) (hle : b ≤ b') : Rising b' f :=
  fun place o ho => ⟨Nat.lt_of_lt_of_le (h place o ho).lt hle, (h place o ho).above⟩

theorem Rising.append (hf : Rising b f) (hg : Rising b g) :
    Rising b fun place => f place ++ g place :=
  fun place => List.forall_mem_append.2 ⟨hf place, hg place⟩

/-- What is below a bound from every place is so from places that depend on the place. -/
theorem Rising.inside (hf : Rising b f) (enter : Place → Place) :
    Rising b fun place => f (enter place) :=
  fun place => hf (enter place)

theorem Rising.ids_lt {e : Expr} (h : Rising b fun place => e.occurrences place) :
    ∀ i ∈ e.ids, i < b := by
  intro i hi
  rw [← e.map_id_occurrences []] at hi
  obtain ⟨o, ho, rfl⟩ := List.mem_map.1 hi
  exact (h [] o ho).lt

/-- An expression is below a bound if its number is, and its operands are below its number. -/
theorem Expr.rising_of_operands {e : Expr} (hid : e.id < b)
    (hoperands : ∀ operand ∈ e.operands, Rising e.id fun place => operand.occurrences place) :
    Rising b fun place => e.occurrences place := by
  intro place
  show ∀ o ∈ e.occurrences place, o.Below b
  rw [e.occurrences_eq place]
  refine List.forall_mem_append.2 ⟨fun o ho => ?_, fun o ho => ?_⟩
  · obtain ⟨operand, hoperand, ho⟩ := List.mem_flatMap.1 ho
    exact (hoperands operand hoperand).mono (Nat.le_of_lt hid) place o ho
  · obtain rfl := List.mem_singleton.1 ho
    exact ⟨hid, fun operand hoperand => (hoperands operand hoperand).ids_lt⟩

theorem rising_of_mem {es : List Expr} (h : Rising b fun place => Expr.occurrencesAll place es)
    {e : Expr} (he : e ∈ es) : Rising b fun place => e.occurrences place := by
  intro place o ho
  refine h place o ?_
  show o ∈ Expr.occurrencesAll place es
  rw [Expr.occurrencesAll_eq_flatMap]
  exact List.mem_flatMap.2 ⟨e, he, ho⟩

/-- The occurrences in a statement that may be missing. -/
def Stmt.occurrencesOption (place : Place) : Option Stmt → List Occurrence
  | none => []
  | some s => s.occurrences place

theorem rising_cons {s : Stmt} {ss : List Stmt} (hs : Rising b fun place => s.occurrences place)
    (hss : Rising b fun place => Stmt.occurrencesAll place ss) :
    Rising b fun place => Stmt.occurrencesAll place (s :: ss) :=
  hs.append (Rising.inside hss fun place => s.leave place)

theorem rising_block {body : List Stmt} (span : Span)
    (h : Rising b fun place => Stmt.occurrencesAll place body) :
    Rising b fun place => (Stmt.block body span).occurrences place :=
  Rising.inside h fun place => place.enter (.block body)

theorem rising_ifElse {condition : Expr} {thenBranch : Stmt} {elseBranch : Option Stmt}
    {span : Span} (hcondition : Rising b fun place => condition.occurrences place)
    (hthen : Rising b fun place => thenBranch.occurrences place)
    (helse : Rising b fun place => Stmt.occurrencesOption place elseBranch) :
    Rising b fun place =>
      (Stmt.ifElse condition thenBranch elseBranch span).occurrences place := by
  cases elseBranch with
  | none => exact hcondition.append hthen
  | some elseBranch =>
    exact (hcondition.append hthen).append
      (Rising.inside helse fun place => thenBranch.leave place)

/-- A loop is put together from the parts of a `for` statement. -/
theorem rising_forLoop {initializer : Option Stmt} {condition : Expr} {increment : Option Expr}
    {body : Stmt} {span : Span}
    (hinitializer : Rising b fun place => Stmt.occurrencesOption place initializer)
    (hcondition : Rising b fun place => condition.occurrences place)
    (hincrement : Rising b fun place => Expr.occurrencesOption place increment)
    (hbody : Rising b fun place => body.occurrences place) :
    Rising b fun place =>
      (Stmt.forLoop initializer condition increment body span).occurrences place := by
  have hloop : ∀ round : Stmt, (Rising b fun place => round.occurrences place) →
      Rising b fun place =>
        (Stmt.forLoop initializer condition none round span).occurrences place := by
    intro round hround
    cases initializer with
    | none => exact hcondition.append hround
    | some first =>
      exact rising_block _ (rising_cons hinitializer
        (rising_cons (hcondition.append hround) rising_nil))
  cases increment with
  | none => exact hloop body hbody
  | some value =>
    exact hloop _ (rising_block _ (rising_cons hbody (rising_cons hincrement rising_nil)))

end

namespace Parse

/-! ## The contract -/

/-- What occurs in what a rule reads. -/
def Rule.occurrences (place : Place) : (r : Rule) → r.Answer → List Occurrence
  | .properties _, e => Expr.occurrences place e
  | .parameterNames _, _ => []
  | .expression, e => Expr.occurrences place e
  | .binary _, e => Expr.occurrences place e
  | .operand _, e => Expr.occurrences place e
  | .binaryTail .., e => Expr.occurrences place e
  | .unary, e => Expr.occurrences place e
  | .call, e => Expr.occurrences place e
  | .callTail _, e => Expr.occurrences place e
  | .instantiation, e => Expr.occurrences place e
  | .arguments, es => Expr.occurrencesAll place es
  | .argumentValues _, es => Expr.occurrencesAll place es
  | .primary, e => Expr.occurrences place e
  | .declaration, s => Stmt.occurrences place s
  | .classDeclaration, s => Stmt.occurrences place s
  | .methods, fs => FunctionDecl.occurrencesAll place fs
  | .functionDeclaration, s => Stmt.occurrences place s
  | .function _, f => FunctionDecl.occurrences place f
  | .blockBody, ss => Stmt.occurrencesAll place ss
  | .blockItems, ss => Stmt.occurrencesAll place ss
  | .statement, s => Stmt.occurrences place s
  | .block, s => Stmt.occurrences place s
  | .ifStatement, s => Stmt.occurrences place s
  | .whileStatement, s => Stmt.occurrences place s
  | .forStatement, s => Stmt.occurrences place s
  | .statements, ss => Stmt.occurrencesAll place ss

/-- What occurs in the expression that a rule reads on after. -/
def Rule.given (place : Place) : Rule → List Occurrence
  | .properties left | .binaryTail _ left | .callTail left => left.occurrences place
  | .parameterNames _ | .expression | .binary _ | .operand _ | .unary | .call | .instantiation
  | .arguments | .argumentValues _ | .primary | .declaration | .classDeclaration | .methods
  | .functionDeclaration | .function _ | .blockBody | .blockItems | .statement | .block
  | .ifStatement | .whileStatement | .forStatement | .statements => []

/-- The contract of all rules: what was read is below the next number. -/
def rising : Contract where
  safe _ _ := True
  ready _ r p := Rising p.supply.node fun place => r.given place
  reads r p a q := p.supply.node ≤ q.supply.node ∧
    Rising q.supply.node fun place => r.occurrences place a
  stops _ p _ q := p.supply.node ≤ q.supply.node

namespace Reading

/-- From a state where the next number is not below `b`, a reading answers with what is below
the next number then. -/
def Rises {α : Type} (n b : Nat) (x : Reading α) (occurrences : α → Place → List Occurrence) :
    Prop :=
  ∀ q : Parser, b ≤ q.supply.node →
    x.Obeys rising n
      (fun a q' => b ≤ q'.supply.node ∧ Rising q'.supply.node (occurrences a))
      (fun _ q' => b ≤ q'.supply.node) q

/-- A reading that takes no number. -/
def Quiet {α : Type} (n : Nat) (x : Reading α) : Prop :=
  ∀ q : Parser, x.Obeys rising n (fun _ q' => q'.supply.node = q.supply.node)
    (fun _ q' => q'.supply.node = q.supply.node) q

section

variable {α β : Type} {n b : Nat} {J : α → Place → List Occurrence}
  {K : β → Place → List Occurrence}

/-! ## Single steps -/

theorem rises_pure {a : α} (h : Rising b (J a)) : Rises n b (pure a) J :=
  fun _ hq => ⟨hq, h.mono hq⟩

theorem rises_fail {fault : SyntaxFault} : Rises n b (.fail fault : Reading α) J :=
  fun _ hq => ⟨trivial, hq⟩

theorem Rises.bind {x : Reading β} {f : β → Reading α} (hx : Rises n b x K)
    (hf : ∀ b' a, b ≤ b' → Rising b' (K a) → Rises n b' (f a) J) : Rises n b (x >>= f) J := by
  refine fun q hq => obeys_bind.2 ((hx q hq).mono (fun a q' ha => ?_) fun _ _ => id)
  exact (hf _ a ha.1 ha.2 q' (Nat.le_refl _)).mono
    (fun _ q'' hq'' => ⟨Nat.le_trans ha.1 hq''.1, hq''.2⟩)
    fun _ q'' hq'' => Nat.le_trans ha.1 hq''

theorem Rises.map {x : Reading β} {f : β → α} (hx : Rises n b x fun a => J (f a)) :
    Rises n b (f <$> x) J :=
  .bind hx fun _ _ _ ha => rises_pure ha

theorem rises_ite {c : Prop} [Decidable c] {x y : Reading α} (hx : Rises n b x J)
    (hy : Rises n b y J) : Rises n b (if c then x else y) J := by
  split
  · exact hx
  · exact hy

/-- What comes after two branches need not be split. -/
theorem rises_ite_bind {c : Prop} [Decidable c] {x y : Reading β} {f : β → Reading α} :
    Rises n b (if c then x >>= f else y >>= f) J ↔
      Rises n b ((if c then x else y) >>= f) J := by
  split <;> rfl

/-- A rule that reads on after what was read. -/
theorem rises_rule {r : Rule} (h : Rising b fun place => r.given place) :
    Rises n b (rule r) fun a place => r.occurrences place a :=
  fun _ hq => ⟨h.mono hq, fun _ _ ha => ⟨Nat.le_trans hq ha.1, ha.2⟩,
    fun _ _ he => Nat.le_trans hq he⟩

/-- A rule that does not read on after anything. -/
theorem rises_begin {r : Rule} (h : ∀ place, r.given place = []) :
    Rises n b (rule r) fun a place => r.occurrences place a :=
  rises_rule fun place => by simp [h place]

theorem rises_attempted {r : Rule} (h : ∀ place, r.given place = []) :
    Rises n b (attempted r) fun answer place =>
      match answer with
      | .ok a => r.occurrences place a
      | .error _ => [] := by
  refine fun q hq => ⟨fun place => by simp [h place], fun a q' ha => ?_, fun e q' he => ?_⟩
  · exact ⟨Nat.le_trans hq ha.1, ha.2⟩
  · exact ⟨Nat.le_trans hq he, rising_nil⟩

/-- What comes after a node was made. -/
theorem rises_node {span : Span} {f : Node → Reading α}
    (hf : ∀ b' node, b ≤ node.id → node.id < b' → Rises n b' (f node) J) :
    Rises n b (freshNode span >>= f) J := by
  refine fun q hq => ⟨trivial, ?_⟩
  exact (hf (q.supply.node + 1) ⟨q.supply.node, span⟩ hq (Nat.lt_succ_self _) _
    (Nat.le_refl _)).mono
    (fun _ q' hq' => ⟨Nat.le_trans hq (Nat.le_of_succ_le hq'.1), hq'.2⟩)
    fun _ q' hq' => Nat.le_trans hq (Nat.le_of_succ_le hq')

/-- What comes after a reading that takes no number. -/
theorem Quiet.bind {x : Reading β} {f : β → Reading α} (hx : Quiet n x)
    (hf : ∀ a, Rises n b (f a) J) : Rises n b (x >>= f) J := by
  refine fun q hq => obeys_bind.2 ((hx q).mono (fun a q' hq' => ?_) fun _ q' hq' => ?_)
  · exact hf a q' (hq'.symm ▸ hq)
  · exact hq'.symm ▸ hq

theorem Quiet.then {x : Reading β} {f : β → Reading α} (hx : Quiet n x)
    (hf : ∀ a, Quiet n (f a)) : Quiet n (x >>= f) := by
  refine fun q => obeys_bind.2 ((hx q).mono (fun a q' hq' => ?_) fun _ _ => id)
  exact (hf a q').mono (fun _ _ h => h.trans hq') fun _ _ h => h.trans hq'

theorem quiet_pure (a : α) : Quiet n (pure a) := fun _ => rfl

theorem quiet_fail (fault : SyntaxFault) : Quiet n (.fail fault : Reading α) :=
  fun _ => ⟨trivial, rfl⟩

theorem quiet_look : Quiet n look := fun _ => ⟨trivial, rfl⟩

theorem quiet_atEnd : Quiet n atEnd := fun _ => ⟨trivial, rfl⟩

theorem quiet_peek : Quiet n peek := fun _ => ⟨trivial, rfl⟩

theorem quiet_here : Quiet n here := fun _ => ⟨trivial, rfl⟩

theorem quiet_before : Quiet n before := fun _ => ⟨trivial, rfl⟩

theorem quiet_spanFrom (span : Span) : Quiet n (spanFrom span) := fun _ => ⟨trivial, rfl⟩

theorem quiet_note (error : CompileError) : Quiet n (note error) := fun _ => ⟨trivial, rfl⟩

theorem quiet_freshFunction : Quiet n freshFunction := fun _ => ⟨trivial, rfl⟩

theorem quiet_advance : Quiet n advance :=
  fun q => ⟨trivial, congrArg Supply.node q.supply_advance⟩

theorem quiet_ite {c : Prop} [Decidable c] {x y : Reading α} (hx : Quiet n x)
    (hy : Quiet n y) : Quiet n (if c then x else y) := by
  split
  · exact hx
  · exact hy

theorem quiet_accept (kind : Token.Kind) : Quiet n (accept kind) :=
  quiet_peek.then fun _ =>
    quiet_ite (quiet_advance.then fun _ => quiet_pure _) (quiet_pure _)

theorem quiet_expect (kind : Token.Kind) (missing : Missing) : Quiet n (expect kind missing) :=
  quiet_peek.then fun _ => quiet_ite quiet_advance (quiet_fail _)

theorem quiet_expectName (missing : Missing) : Quiet n (expectName missing) :=
  quiet_peek.then fun _ => quiet_ite
    (quiet_look.then fun _ => quiet_advance.then fun _ => quiet_pure _) (quiet_fail _)

theorem quiet_seekBoundary (k : Nat) : Quiet n (seekBoundary k) := by
  induction k with
  | zero => exact quiet_pure _
  | succ k ih =>
    have hback : Quiet n (move .lookBack answer) := fun _ => ⟨trivial, rfl⟩
    exact quiet_look.then fun _ => quiet_ite (quiet_pure _)
      (hback.then fun _ => quiet_ite (quiet_pure _) (quiet_advance.then fun _ => ih))

theorem quiet_synchronize : Quiet n synchronize := by
  have hremaining : Quiet n (move .remaining answer) := fun _ => ⟨trivial, rfl⟩
  exact quiet_advance.then fun _ => hremaining.then fun _ => quiet_seekBoundary _

end

/-! ## Expressions -/

section

variable {n b : Nat}

/-- What a rule reads is below the next number, if what it reads on after is. -/
def Ascends (r : Rule) : Prop :=
  ∀ n b, (Rising b fun place => r.given place) →
    Rises n b (ofRule r) fun a place => r.occurrences place a

theorem rises_property {object : Expr} (h : Rising b fun place => object.occurrences place) :
    Rises n b (property object) fun e place => e.occurrences place :=
  (quiet_expectName _).bind fun _ => quiet_before.bind fun _ =>
    rises_node fun _ _ hle hlt =>
      rises_pure (Expr.rising_of_operands hlt (List.forall_mem_singleton.2 (h.mono hle)))

theorem rises_assignTo {target value : Expr} {equals : Token}
    (htarget : Rising b fun place => target.occurrences place)
    (hvalue : Rising b fun place => value.occurrences place) :
    Rises n b (assignTo target value equals) fun e place => e.occurrences place := by
  unfold assignTo
  split
  · exact rises_node fun _ _ hle hlt =>
      rises_pure (Expr.rising_of_operands hlt (List.forall_mem_singleton.2 (hvalue.mono hle)))
  · next node object name nameSpan =>
    have hobject : Rising b fun place => object.occurrences place := fun place o ho =>
      htarget place o (List.mem_append_left _ ho)
    exact rises_node fun _ _ hle hlt =>
      rises_pure (Expr.rising_of_operands hlt (List.forall_mem_cons.2
        ⟨hvalue.mono hle, List.forall_mem_singleton.2 (hobject.mono hle)⟩))
  · exact (quiet_note _).bind fun _ => rises_pure htarget

theorem ascends_properties (object : Expr) : Ascends (.properties object) := by
  intro n b h
  simp only [ofRule]
  exact (quiet_accept _).bind fun _ => rises_ite
    (.bind (rises_property h) fun _ _ _ hnext => rises_rule hnext) (rises_pure h)

theorem ascends_parameterNames (count : Nat) : Ascends (.parameterNames count) := by
  intro n b _
  simp only [ofRule]
  exact rises_ite rises_fail ((quiet_expectName _).bind fun _ => (quiet_accept _).bind fun _ =>
    rises_ite (.bind (rises_begin fun _ => rfl) fun _ _ _ _ => rises_pure rising_nil)
      (rises_pure rising_nil))

theorem ascends_expression : Ascends .expression := by
  intro n b _
  simp only [ofRule]
  exact .bind (rises_begin fun _ => rfl) fun _ _ _ htarget => quiet_peek.bind fun _ => rises_ite
    (quiet_look.bind fun _ => quiet_advance.bind fun _ =>
      .bind (rises_begin fun _ => rfl) fun _ _ hle hvalue =>
        rises_assignTo (htarget.mono hle) hvalue)
    (rises_pure htarget)

theorem ascends_operand (level : Level) : Ascends (.operand level) := by
  intro n b _
  simp only [ofRule]
  split <;> exact rises_begin fun _ => rfl

theorem ascends_binaryTail (level : Level) (left : Expr) : Ascends (.binaryTail level left) := by
  intro n b h
  simp only [ofRule]
  refine quiet_peek.bind fun _ => ?_
  split
  · exact rises_pure h
  · next op _ =>
    refine quiet_advance.bind fun _ => quiet_before.bind fun opSpan =>
      .bind (rises_begin fun _ => rfl) fun _ right hle hright =>
        rises_node fun _ node hle' hlt => rises_rule ?_
    have hleft := (Rising.mono h hle).mono hle'
    cases op with
    | logical op =>
      exact Expr.rising_of_operands hlt
        (List.forall_mem_cons.2 ⟨hleft, List.forall_mem_singleton.2 (hright.mono hle')⟩)
    | binary op =>
      exact Expr.rising_of_operands hlt
        (List.forall_mem_cons.2 ⟨hleft, List.forall_mem_singleton.2 (hright.mono hle')⟩)

theorem ascends_unary : Ascends .unary := by
  intro n b _
  simp only [ofRule]
  refine quiet_peek.bind fun _ => ?_
  split
  · exact rises_begin fun _ => rfl
  · exact quiet_here.bind fun _ => quiet_advance.bind fun _ =>
      .bind (rises_begin fun _ => rfl) fun _ _ _ hoperand => rises_node fun _ _ hle hlt =>
        rises_pure (Expr.rising_of_operands hlt (List.forall_mem_singleton.2 (hoperand.mono hle)))

theorem ascends_call : Ascends .call := by
  intro n b _
  simp only [ofRule]
  refine quiet_peek.bind fun _ => ?_
  rw [rises_ite_bind]
  exact .bind (K := fun (e : Expr) place => e.occurrences place)
    (rises_ite (rises_begin (r := .instantiation) fun _ => rfl)
      (rises_begin (r := .primary) fun _ => rfl))
    fun _ _ _ hcallee => rises_rule hcallee

theorem rising_call {node : Node} {callee : Expr} {arguments : List Expr} {paren : Span}
    (hlt : node.id < b) (hcallee : Rising node.id fun place => callee.occurrences place)
    (harguments : Rising node.id fun place => Expr.occurrencesAll place arguments) :
    Rising b fun place => (Expr.call node callee arguments paren).occurrences place :=
  Expr.rising_of_operands hlt
    (List.forall_mem_cons.2 ⟨hcallee, fun _ he => rising_of_mem harguments he⟩)

theorem ascends_callTail (callee : Expr) : Ascends (.callTail callee) := by
  intro n b h
  simp only [ofRule]
  refine (quiet_accept _).bind fun _ => rises_ite ?_ ?_
  · exact .bind (rises_begin fun _ => rfl) fun _ _ hle harguments => quiet_before.bind fun _ =>
      rises_node fun _ _ hle' hlt =>
        rises_rule (rising_call hlt (h.mono (Nat.le_trans hle hle')) (harguments.mono hle'))
  · exact (quiet_accept _).bind fun _ => rises_ite
      (.bind (rises_property h) fun _ _ _ hnext => rises_rule hnext) (rises_pure h)

theorem ascends_instantiation : Ascends .instantiation := by
  intro n b _
  simp only [ofRule]
  refine quiet_here.bind fun _ => quiet_advance.bind fun _ =>
    .bind (rises_begin fun _ => rfl) fun _ _ _ hhead => .bind (rises_rule hhead)
      fun _ _ _ hcallee => (quiet_accept _).bind fun _ => ?_
  rw [rises_ite_bind]
  exact .bind (K := fun (es : List Expr) place => Expr.occurrencesAll place es)
    (rises_ite (rises_begin (r := .arguments) fun _ => rfl) (rises_pure rising_nil))
    fun _ _ hle harguments => quiet_before.bind fun _ => rises_node fun _ _ hle' hlt =>
      rises_pure (Expr.rising_of_operands hlt (List.forall_mem_cons.2
        ⟨hcallee.mono (Nat.le_trans hle hle'),
          fun _ he => rising_of_mem (harguments.mono hle') he⟩))

theorem ascends_arguments : Ascends .arguments := by
  intro n b _
  simp only [ofRule]
  refine quiet_peek.bind fun _ => ?_
  rw [rises_ite_bind]
  exact .bind (K := fun (es : List Expr) place => Expr.occurrencesAll place es)
    (rises_ite (rises_pure rising_nil) (rises_begin (r := .argumentValues 0) fun _ => rfl))
    fun _ _ _ hvalues => (quiet_expect _ _).bind fun _ => rises_pure hvalues

theorem ascends_argumentValues (count : Nat) : Ascends (.argumentValues count) := by
  intro n b _
  simp only [ofRule]
  exact rises_ite rises_fail (.bind (rises_begin fun _ => rfl) fun _ _ _ hvalue =>
    (quiet_accept _).bind fun _ => rises_ite
      (.bind (rises_begin fun _ => rfl) fun _ _ hle hvalues =>
        rises_pure ((hvalue.mono hle).append hvalues))
      (rises_pure (hvalue.append rising_nil)))

theorem ascends_primary : Ascends .primary := by
  intro n b _
  simp only [ofRule]
  refine quiet_look.bind fun token => ?_
  have hsingle : ∀ make : Node → Expr, (∀ node, (make node).id = node.id) →
      (∀ node, (make node).operands = []) →
      Rises n b (advance >>= fun _ => freshNode token.span >>= fun node => pure (make node))
        fun e place => e.occurrences place :=
    fun make hid hoperands => quiet_advance.bind fun _ => rises_node fun _ node _ hlt =>
      rises_pure (Expr.rising_of_operands (by rwa [hid]) (by simp [hoperands]))
  split
  · exact hsingle _ (fun _ => rfl) fun _ => rfl
  · exact rises_fail
  · split
    · exact hsingle _ (fun _ => rfl) fun _ => rfl
    · exact hsingle _ (fun _ => rfl) fun _ => rfl
    · exact quiet_advance.bind fun _ => .bind (rises_begin fun _ => rfl) fun _ _ _ hinner =>
        (quiet_expect _ _).bind fun _ => (quiet_spanFrom _).bind fun _ =>
          rises_node fun _ _ hle hlt => rises_pure
            (Expr.rising_of_operands hlt (List.forall_mem_singleton.2 (hinner.mono hle)))
    · exact rises_fail

/-! ## Statements -/

theorem rises_optional (c : Prop) [Decidable c] :
    Rises n b (if c then some <$> rule .expression else pure none)
      fun e place => Expr.occurrencesOption place e :=
  rises_ite (.map (rises_begin (r := .expression) fun _ => rfl)) (rises_pure rising_nil)

theorem rises_unless (c : Prop) [Decidable c] :
    Rises n b (if c then pure none else some <$> rule .expression)
      fun e place => Expr.occurrencesOption place e :=
  rises_ite (rises_pure rising_nil) (.map (rises_begin (r := .expression) fun _ => rfl))

theorem quiet_parameters : Rises n b parameters fun _ _ => [] := by
  refine quiet_peek.bind fun _ => ?_
  rw [rises_ite_bind]
  exact .bind (K := fun (_ : List String) _ => [])
    (rises_ite (rises_pure rising_nil) (rises_begin (r := .parameterNames 0) fun _ => rfl))
    fun _ _ _ _ => (quiet_expect _ _).bind fun _ => rises_pure rising_nil

theorem rises_expressionStatement :
    Rises n b expressionStatement fun s place => s.occurrences place :=
  .bind (rises_begin fun _ => rfl) fun _ _ _ hvalue => (quiet_expect _ _).bind fun _ =>
    quiet_before.bind fun _ => rises_pure hvalue

theorem rises_varDeclaration : Rises n b varDeclaration fun s place => s.occurrences place := by
  refine quiet_here.bind fun _ => quiet_advance.bind fun _ => (quiet_expectName _).bind fun name =>
    (quiet_accept _).bind fun _ => ?_
  rw [rises_ite_bind]
  exact .bind (rises_optional _) fun _ _ _ hvalue => (quiet_expect _ _).bind fun _ =>
    (quiet_spanFrom _).bind fun _ =>
      rises_pure (Rising.inside hvalue fun place => place.bind name false)

theorem rises_printStatement : Rises n b printStatement fun s place => s.occurrences place :=
  quiet_here.bind fun _ => quiet_advance.bind fun _ => .bind (rises_begin fun _ => rfl)
    fun _ _ _ hvalue => (quiet_expect _ _).bind fun _ => (quiet_spanFrom _).bind fun _ =>
      rises_pure hvalue

theorem rises_returnStatement : Rises n b returnStatement fun s place => s.occurrences place := by
  refine quiet_here.bind fun _ => quiet_advance.bind fun _ => quiet_peek.bind fun _ => ?_
  rw [rises_ite_bind]
  exact .bind (rises_unless _) fun _ _ _ hvalue => (quiet_expect _ _).bind fun _ =>
    (quiet_spanFrom _).bind fun _ => rises_pure hvalue

theorem rises_forInitializer :
    Rises n b forInitializer fun s place => Stmt.occurrencesOption place s :=
  (quiet_accept _).bind fun _ => rises_ite (rises_pure rising_nil)
    (quiet_peek.bind fun _ => rises_ite (.map rises_varDeclaration)
      (.map rises_expressionStatement))

theorem rises_forCondition : Rises n b forCondition fun e place => e.occurrences place :=
  quiet_peek.bind fun _ => rises_ite
    (quiet_here.bind fun _ => rises_node fun _ _ _ hlt =>
      rises_pure (Expr.rising_of_operands hlt (by simp [Expr.operands])))
    (rises_begin fun _ => rfl)

theorem ascends_declaration : Ascends .declaration := by
  intro n b _
  simp only [ofRule]
  refine quiet_peek.bind fun _ => ?_
  split
  · exact rises_begin (r := .classDeclaration) fun _ => rfl
  · exact rises_begin (r := .functionDeclaration) fun _ => rfl
  · exact rises_varDeclaration
  · exact rises_fail
  · exact rises_fail
  · exact rises_begin (r := .statement) fun _ => rfl

theorem ascends_statement : Ascends .statement := by
  intro n b _
  simp only [ofRule]
  refine quiet_peek.bind fun _ => ?_
  split
  · exact rises_printStatement
  · exact rises_returnStatement
  · exact rises_begin (r := .block) fun _ => rfl
  · exact rises_begin (r := .ifStatement) fun _ => rfl
  · exact rises_begin (r := .whileStatement) fun _ => rfl
  · exact rises_begin (r := .forStatement) fun _ => rfl
  · exact rises_expressionStatement

theorem ascends_classDeclaration : Ascends .classDeclaration := by
  intro n b _
  simp only [ofRule]
  exact quiet_here.bind fun _ => quiet_advance.bind fun _ => (quiet_expectName _).bind fun name =>
    (quiet_expect _ _).bind fun _ => .bind (rises_begin fun _ => rfl) fun _ methods _ hmethods =>
      (quiet_expect _ _).bind fun _ => (quiet_spanFrom _).bind fun _ =>
        rises_pure (Rising.inside hmethods fun place => (place.bind name true).insideClass methods)

theorem ascends_methods : Ascends .methods := by
  intro n b _
  simp only [ofRule]
  exact quiet_atEnd.bind fun _ => quiet_peek.bind fun _ => rises_ite (rises_pure rising_nil)
    (.bind (rises_begin fun _ => rfl) fun _ _ _ hmethod =>
      .bind (rises_begin fun _ => rfl) fun _ _ hle hmethods =>
        rises_pure ((hmethod.mono hle).append hmethods))

theorem ascends_functionDeclaration : Ascends .functionDeclaration := by
  intro n b _
  simp only [ofRule]
  exact quiet_here.bind fun _ => quiet_advance.bind fun _ => .bind (rises_begin fun _ => rfl)
    fun _ decl _ hdecl => (quiet_spanFrom _).bind fun _ =>
      rises_pure (Rising.inside hdecl fun place => place.bind decl.name true)

theorem ascends_function (role : FunctionRole) : Ascends (.function role) := by
  intro n b _
  simp only [ofRule]
  exact quiet_here.bind fun _ => (quiet_expectName _).bind fun _ => (quiet_expect _ _).bind fun _ =>
    .bind quiet_parameters fun _ _ _ _ => (quiet_expect _ _).bind fun _ =>
      .bind (rises_begin fun _ => rfl) fun _ _ _ hbody => quiet_freshFunction.bind fun _ =>
        (quiet_spanFrom _).bind fun _ => rises_pure (Rising.inside hbody fun place =>
          FunctionDecl.inside place _)

theorem ascends_blockBody : Ascends .blockBody := by
  intro n b _
  simp only [ofRule]
  exact .bind (rises_begin fun _ => rfl) fun _ _ _ hbody => (quiet_expect _ _).bind fun _ =>
    rises_pure hbody

theorem ascends_blockItems : Ascends .blockItems := by
  intro n b _
  simp only [ofRule]
  refine quiet_atEnd.bind fun _ => quiet_peek.bind fun _ => rises_ite (rises_pure rising_nil)
    (.bind (rises_attempted fun _ => rfl) fun _ answer _ hanswer => ?_)
  cases answer with
  | ok s =>
    exact .bind (rises_begin fun _ => rfl) fun _ _ hle hothers =>
      rises_pure (rising_cons (hanswer.mono hle) hothers)
  | error error =>
    refine (quiet_note _).bind fun _ => quiet_peek.bind fun _ => ?_
    exact rises_ite (quiet_synchronize.bind fun _ => rises_begin fun _ => rfl)
      (rises_begin fun _ => rfl)

theorem ascends_statements : Ascends .statements := by
  intro n b _
  simp only [ofRule]
  refine quiet_atEnd.bind fun _ => rises_ite (rises_pure rising_nil)
    (.bind (rises_attempted fun _ => rfl) fun _ answer _ hanswer => ?_)
  cases answer with
  | ok s =>
    exact .bind (rises_begin fun _ => rfl) fun _ _ hle hothers =>
      rises_pure (rising_cons (hanswer.mono hle) hothers)
  | error error =>
    exact (quiet_note _).bind fun _ => quiet_synchronize.bind fun _ => rises_begin fun _ => rfl

theorem ascends_block : Ascends .block := by
  intro n b _
  simp only [ofRule]
  exact quiet_here.bind fun _ => quiet_advance.bind fun _ => .bind (rises_begin fun _ => rfl)
    fun _ _ _ hbody => (quiet_spanFrom _).bind fun span =>
      rises_pure (rising_block span hbody)

theorem ascends_ifStatement : Ascends .ifStatement := by
  intro n b _
  simp only [ofRule]
  refine quiet_here.bind fun _ => quiet_advance.bind fun _ => (quiet_expect _ _).bind fun _ =>
    .bind (rises_begin fun _ => rfl) fun _ _ _ hcondition => (quiet_expect _ _).bind fun _ =>
      .bind (rises_begin fun _ => rfl) fun _ _ hle hthen => (quiet_accept _).bind fun _ => ?_
  rw [rises_ite_bind]
  exact .bind (K := fun (s : Option Stmt) place => Stmt.occurrencesOption place s)
    (rises_ite (.map (rises_begin (r := .statement) fun _ => rfl)) (rises_pure rising_nil))
    fun _ _ hle' helse => (quiet_spanFrom _).bind fun _ =>
      rises_pure (rising_ifElse (hcondition.mono (Nat.le_trans hle hle')) (hthen.mono hle') helse)

theorem ascends_whileStatement : Ascends .whileStatement := by
  intro n b _
  simp only [ofRule]
  exact quiet_here.bind fun _ => quiet_advance.bind fun _ => (quiet_expect _ _).bind fun _ =>
    .bind (rises_begin fun _ => rfl) fun _ _ _ hcondition => (quiet_expect _ _).bind fun _ =>
      .bind (rises_begin fun _ => rfl) fun _ _ hle hbody => (quiet_spanFrom _).bind fun _ =>
        rises_pure ((hcondition.mono hle).append hbody)

theorem ascends_forStatement : Ascends .forStatement := by
  intro n b _
  simp only [ofRule]
  refine quiet_here.bind fun _ => quiet_advance.bind fun _ => (quiet_expect _ _).bind fun _ =>
    .bind rises_forInitializer fun b₁ _ _ hinitializer =>
      .bind rises_forCondition fun b₂ _ hle₂ hcondition => (quiet_expect _ _).bind fun _ =>
        quiet_peek.bind fun _ => ?_
  rw [rises_ite_bind]
  exact .bind (rises_unless _) fun b₃ _ hle₃ hincrement => (quiet_expect _ _).bind fun _ =>
    .bind (rises_begin fun _ => rfl) fun b₄ _ hle₄ hbody => (quiet_spanFrom _).bind fun _ =>
      have hle₃₄ := Nat.le_trans hle₃ hle₄
      rises_pure (rising_forLoop (hinitializer.mono (Nat.le_trans hle₂ hle₃₄))
        (hcondition.mono hle₃₄) (hincrement.mono hle₄) hbody)

/-- Whatever is read is below the next number. -/
theorem rising_kept : rising.Kept where
  zero _ p _ _ := Nat.le_refl _
  succ r := by
    suffices hascends : Ascends r from fun n p h => hascends n p.supply.node h p (Nat.le_refl _)
    cases r with
    | properties object => exact ascends_properties object
    | parameterNames count => exact ascends_parameterNames count
    | expression => exact ascends_expression
    | binary level =>
      exact fun n b _ => .bind (rises_begin fun _ => rfl) fun _ _ _ hleft => rises_rule hleft
    | operand level => exact ascends_operand level
    | binaryTail level left => exact ascends_binaryTail level left
    | unary => exact ascends_unary
    | call => exact ascends_call
    | callTail callee => exact ascends_callTail callee
    | instantiation => exact ascends_instantiation
    | arguments => exact ascends_arguments
    | argumentValues count => exact ascends_argumentValues count
    | primary => exact ascends_primary
    | declaration => exact ascends_declaration
    | classDeclaration => exact ascends_classDeclaration
    | methods => exact ascends_methods
    | functionDeclaration => exact ascends_functionDeclaration
    | function role => exact ascends_function role
    | blockBody => exact ascends_blockBody
    | blockItems => exact ascends_blockItems
    | statement => exact ascends_statement
    | block => exact ascends_block
    | ifStatement => exact ascends_ifStatement
    | whileStatement => exact ascends_whileStatement
    | forStatement => exact ascends_forStatement
    | statements => exact ascends_statements

end

end Reading

end Parse

/-! ## Programs -/

/-- The number of each expression that is read is greater than those in its operands. -/
theorem Parsed.isAboveOperands {supply : Supply} {tokens : List Token} {o : Occurrence}
    (ho : o ∈ (Parsed.ofTokens supply tokens).program.occurrences) : o.IsAboveOperands := by
  have hends := Parse.Reading.rising_kept.ends (n := Parse.budget tokens) (r := .statements)
    (p := Parser.start supply tokens) fun _ => by simp [Parse.Rule.given]
  unfold Parsed.ofTokens at ho
  cases hrun : Parse.statements (Parse.budget tokens) (Parser.start supply tokens) with
  | ok statements p =>
    rw [hrun] at ho
    rw [Parse.Rule.run, hrun] at hends
    exact (hends.2 [] o ho).above
  | error e p =>
    rw [hrun] at ho
    cases ho

end Lox
