import Lox.Proofs.Syntax.Extent

/-!
# Nesting of places

In statements that were read from tokens, one behind the other, all places are nested
(`Extent.Statement.nested`), and all expressions were read from tokens, apart from the conditions
that were left out (`Extent.Statement.occurrences`).  The statements that a `for` loop is made of
all have its span.
-/

namespace Lox

/-! ## Trees of loops -/

theorem Stmt.span_forLoop (initializer : Option Stmt) (condition : Expr)
    (increment : Option Expr) (body : Stmt) (span : Span) :
    (Stmt.forLoop initializer condition increment body span).span = span := by
  cases initializer <;> rfl

section

variable {initializer : Option Stmt} {condition : Expr} {increment : Option Expr} {body : Stmt}
  {span : Span}

/-- The statements of a loop are nested if its parts lie inside of its span. -/
theorem Stmt.nested_forLoop
    (hinitializer : ∀ s, initializer = some s → s.Nested ∧ s.span.Within span)
    (hcondition : condition.span.Within span)
    (hincrement : ∀ e, increment = some e → e.span.Within span)
    (hbody : body.Nested) (hinside : body.span.Within span) :
    (Stmt.forLoop initializer condition increment body span).Nested := by
  have hround : ∀ round : Stmt, round.Nested → round.span.Within span →
      (Stmt.while condition round span).Nested := by
    intro round hnested hwithin
    rw [Stmt.Nested]
    exact ⟨by simp [Span.Encloses, hcondition, hwithin], hnested⟩
  have hloop : (Stmt.forLoop none condition increment body span).Nested := by
    cases increment with
    | none => exact hround body hbody hinside
    | some value =>
      have hvalue : (Stmt.expression value value.span).Nested := by
        rw [Stmt.Nested]
        exact Extent.encloses_cons value.span.within_refl (Extent.encloses_nil _)
      have hparts : span.Encloses [body.span, value.span] :=
        Extent.encloses_cons hinside
          (Extent.encloses_cons (hincrement value rfl) (Extent.encloses_nil _))
      exact hround (.block [body, .expression value value.span] span)
        ⟨hparts, hbody, hvalue, trivial⟩ span.within_refl
  cases initializer with
  | none => exact hloop
  | some first =>
    obtain ⟨hfirst, hwithin⟩ := hinitializer first rfl
    have hspan : (Stmt.forLoop none condition increment body span).span.Within span := by
      rw [Stmt.span_forLoop]
      exact span.within_refl
    refine ⟨?_, hfirst, hloop, trivial⟩
    simp only [Span.Encloses, List.map_cons, List.map_nil, List.forall_mem_cons,
      List.not_mem_nil, false_implies, implies_true, and_true]
    exact ⟨hwithin, hspan⟩

/-- The occurrences in the tree of a loop are those in its parts. -/
theorem Stmt.mem_occurrences_forLoop {o : Occurrence} {place : Place}
    (h : o ∈ (Stmt.forLoop initializer condition increment body span).occurrences place) :
    (∃ s p, initializer = some s ∧ o ∈ s.occurrences p) ∨ (∃ p, o ∈ condition.occurrences p) ∨
      (∃ e p, increment = some e ∧ o ∈ e.occurrences p) ∨ ∃ p, o ∈ body.occurrences p := by
  have hloop : ∀ place, o ∈ (Stmt.forLoop none condition increment body span).occurrences place →
      (∃ p, o ∈ condition.occurrences p) ∨ (∃ e p, increment = some e ∧ o ∈ e.occurrences p) ∨
        ∃ p, o ∈ body.occurrences p := by
    intro place h
    cases increment with
    | none =>
      simp only [Stmt.forLoop, Stmt.occurrences, List.mem_append] at h
      exact h.imp (fun h => ⟨_, h⟩) fun h => .inr ⟨_, h⟩
    | some value =>
      simp only [Stmt.forLoop, Stmt.occurrences, Stmt.occurrencesAll, List.append_nil,
        List.mem_append] at h
      rcases h with h | h | h
      · exact .inl ⟨_, h⟩
      · exact .inr (.inr ⟨_, h⟩)
      · exact .inr (.inl ⟨value, _, rfl, h⟩)
  cases initializer with
  | none => exact .inr (hloop place h)
  | some first =>
    replace h : o ∈ Stmt.occurrencesAll _
      [first, Stmt.forLoop none condition increment body span] := h
    simp only [Stmt.occurrencesAll, List.append_nil, List.mem_append] at h
    exact h.imp (fun h => ⟨first, _, rfl, h⟩) (hloop _)

end

namespace Extent

variable {tokens : List Token} {i j : Nat}

/-! ## Extents of statements -/

theorem Statement.fromTo {s : Stmt} (h : Statement tokens i j s) :
    s.span.FromTo tokens i j := by
  cases h with
  | «for» _ _ _ _ _ _ _ _ _ hspan =>
    rw [Stmt.span_forLoop]
    exact hspan
  | expression _ _ hspan | print _ _ _ hspan | var _ _ _ _ hspan | «return» _ _ _ hspan
  | block _ _ _ hspan | ifThen _ _ _ _ _ hspan | ifElse _ _ _ _ _ _ _ hspan
  | «while» _ _ _ _ _ hspan | function _ _ hspan | «class» _ _ _ _ _ hspan => exact hspan

theorem Function.fromTo {f : FunctionDecl} (h : Function tokens i j f) :
    f.span.FromTo tokens i j := by
  cases h with
  | mk _ _ _ _ _ _ _ hspan => exact hspan

theorem Maybe.le {value : Option Expr} (h : Maybe tokens i j value) : i ≤ j := by
  cases h with
  | none => exact Nat.le_refl _
  | some h => exact Nat.le_of_lt h.fromTo.lt

theorem Initializer.le {value : Option Expr} (h : Initializer tokens i j value) : i ≤ j := by
  cases h with
  | none => exact Nat.le_refl _
  | some _ h => exact Nat.le_of_lt (Nat.lt_of_succ_lt h.fromTo.lt)

theorem LoopStart.le {s : Option Stmt} (h : LoopStart tokens i j s) : i ≤ j := by
  cases h with
  | none => exact Nat.le_refl _
  | some h => exact Nat.le_of_lt_succ h.fromTo.lt

/-- A condition that is left out stands at the semicolon after it. -/
theorem Condition.fromTo {e : Expr} (h : Condition tokens i j e) :
    i ≤ j ∧ ∃ k, k ≤ j + 1 ∧ e.span.FromTo tokens i k := by
  cases h with
  | none hspan => exact ⟨Nat.le_refl _, _, Nat.le_refl _, hspan.fromTo⟩
  | some h => exact ⟨Nat.le_of_lt h.fromTo.lt, _, Nat.le_succ _, h.fromTo⟩

theorem Names.lt {names : List String} (h : Names tokens i j names) : i < j := by
  induction h with
  | one => omega
  | more _ _ _ ih => omega

theorem Parameters.le {names : List String} (h : Parameters tokens i j names) : i ≤ j := by
  cases h with
  | none => exact Nat.le_refl _
  | some h => exact Nat.le_of_lt h.lt

theorem Statements.of_mem : ∀ {i j : Nat} {ss : List Stmt}, Statements tokens i j ss →
    i ≤ j ∧ ∀ s ∈ ss, ∃ i' j', i ≤ i' ∧ j' ≤ j ∧ Statement tokens i' j' s
  | _, _, _, .nil => ⟨Nat.le_refl _, by simp⟩
  | _, _, _, .cons hfirst hothers => by
    obtain ⟨hle, hmem⟩ := hothers.of_mem
    have hlt := hfirst.fromTo.lt
    refine ⟨by omega, fun s hs => ?_⟩
    rcases List.mem_cons.1 hs with rfl | hs
    · exact ⟨_, _, Nat.le_refl _, hle, hfirst⟩
    · obtain ⟨i', j', hi, hj, h⟩ := hmem s hs
      exact ⟨i', j', by omega, hj, h⟩

theorem Functions.of_mem : ∀ {i j : Nat} {fs : List FunctionDecl}, Functions tokens i j fs →
    i ≤ j ∧ ∀ f ∈ fs, ∃ i' j', i ≤ i' ∧ j' ≤ j ∧ Function tokens i' j' f
  | _, _, _, .nil => ⟨Nat.le_refl _, by simp⟩
  | _, _, _, .cons hfirst hothers => by
    obtain ⟨hle, hmem⟩ := hothers.of_mem
    have hlt := hfirst.fromTo.lt
    refine ⟨by omega, fun f hf => ?_⟩
    rcases List.mem_cons.1 hf with rfl | hf
    · exact ⟨_, _, Nat.le_refl _, hle, hfirst⟩
    · obtain ⟨i', j', hi, hj, h⟩ := hmem f hf
      exact ⟨i', j', by omega, hj, h⟩

/-! ## Nesting -/

section

variable (hordered : Ordered tokens)

include hordered

theorem Statements.encloses {k l : Nat} {ss : List Stmt} {span : Span}
    (hspan : span.FromTo tokens k l) (h : Statements tokens i j ss) (hi : k ≤ i) (hj : j ≤ l) :
    span.Encloses (ss.map Stmt.span) := by
  rw [Span.Encloses, List.forall_mem_map]
  intro s hs
  obtain ⟨i', j', hi', hj', h⟩ := h.of_mem.2 s hs
  exact hspan.within hordered h.fromTo (by omega) (by omega)

end

mutual
/-- All places in a statement are nested. -/
theorem Statement.nested (hordered : Ordered tokens) : ∀ {i j : Nat} {s : Stmt},
    Statement tokens i j s → s.Nested
  | _, _, _, .expression hvalue _ hspan => by
    rw [Stmt.Nested]
    exact encloses_cons (hspan.within hordered hvalue.fromTo (by omega) (by omega))
      (encloses_nil _)
  | _, _, _, .print _ hvalue _ hspan => by
    rw [Stmt.Nested]
    exact encloses_cons (hspan.within hordered hvalue.fromTo (by omega) (by omega))
      (encloses_nil _)
  | _, _, _, .var _ _ hinitializer _ hspan => by
    rw [Stmt.Nested]
    cases hinitializer with
    | none => exact encloses_nil _
    | some _ h =>
      exact encloses_cons (hspan.within hordered h.fromTo (by omega) (by omega)) (encloses_nil _)
  | _, _, _, .return _ hvalue _ hspan => by
    rw [Stmt.Nested]
    cases hvalue with
    | none => exact encloses_nil _
    | some h =>
      exact encloses_cons (hspan.within hordered h.fromTo (by omega) (by omega)) (encloses_nil _)
  | _, _, _, .block _ hbody _ hspan => by
    rw [Stmt.Nested]
    exact ⟨hbody.encloses hordered hspan (by omega) (by omega), hbody.nested hordered⟩
  | _, _, _, .ifThen _ _ hcondition _ hthen hspan => by
    have := hcondition.fromTo.lt
    have := hthen.fromTo.lt
    rw [Stmt.Nested]
    exact ⟨encloses_cons (hspan.within hordered hcondition.fromTo (by omega) (by omega))
      (encloses_cons (hspan.within hordered hthen.fromTo (by omega) (by omega)) (encloses_nil _)),
      hthen.nested hordered⟩
  | _, _, _, .ifElse _ _ hcondition _ hthen _ helse hspan => by
    have := hcondition.fromTo.lt
    have := hthen.fromTo.lt
    have := helse.fromTo.lt
    rw [Stmt.Nested]
    exact ⟨encloses_cons (hspan.within hordered hcondition.fromTo (by omega) (by omega))
      (encloses_cons (hspan.within hordered hthen.fromTo (by omega) (by omega))
        (encloses_cons (hspan.within hordered helse.fromTo (by omega) (by omega))
          (encloses_nil _))),
      hthen.nested hordered, helse.nested hordered⟩
  | _, _, _, .while _ _ hcondition _ hbody hspan => by
    have := hcondition.fromTo.lt
    have := hbody.fromTo.lt
    rw [Stmt.Nested]
    exact ⟨encloses_cons (hspan.within hordered hcondition.fromTo (by omega) (by omega))
      (encloses_cons (hspan.within hordered hbody.fromTo (by omega) (by omega)) (encloses_nil _)),
      hbody.nested hordered⟩
  | _, _, _, .for _ _ hinitializer _ hcondition _ hincrement _ hbody hspan => by
    have := hinitializer.le
    have := hincrement.le
    have := hbody.fromTo.lt
    obtain ⟨hle, k, hk, hplace⟩ := hcondition.fromTo
    have hfirst := hinitializer.nested hordered
    refine Stmt.nested_forLoop ?_ (hspan.within hordered hplace (by omega) (by omega)) ?_
      (hbody.nested hordered) (hspan.within hordered hbody.fromTo (by omega) (by omega))
    · intro s hs
      subst hs
      exact ⟨hfirst s rfl, by
        cases hinitializer with
        | some h => exact hspan.within hordered h.fromTo (by omega) (by omega)⟩
    · intro e he
      subst he
      cases hincrement with
      | some h => exact hspan.within hordered h.fromTo (by omega) (by omega)
  | _, _, _, .function _ hdecl hspan => by
    rw [Stmt.Nested]
    exact ⟨encloses_cons (hspan.within hordered hdecl.fromTo (by omega) (by omega))
      (encloses_nil _), hdecl.nested hordered⟩
  | _, _, _, .class _ _ _ hmethods _ hspan => by
    rw [Stmt.Nested]
    refine ⟨?_, hmethods.nested hordered⟩
    rw [Span.Encloses, List.forall_mem_map]
    intro f hf
    obtain ⟨i', j', hi', hj', h⟩ := hmethods.of_mem.2 f hf
    exact hspan.within hordered h.fromTo (by omega) (by omega)

theorem LoopStart.nested (hordered : Ordered tokens) : ∀ {i j : Nat} {s? : Option Stmt},
    LoopStart tokens i j s? → ∀ s, s? = some s → s.Nested
  | _, _, _, .none, _, hs => by cases hs
  | _, _, _, .some h, _, hs => by
    cases hs
    exact h.nested hordered

theorem Statements.nested (hordered : Ordered tokens) : ∀ {i j : Nat} {ss : List Stmt},
    Statements tokens i j ss → Stmt.NestedAll ss
  | _, _, _, .nil => trivial
  | _, _, _, .cons hfirst hothers => ⟨hfirst.nested hordered, hothers.nested hordered⟩

theorem Function.nested (hordered : Ordered tokens) : ∀ {i j : Nat} {f : FunctionDecl},
    Function tokens i j f → f.Nested
  | _, _, _, .mk _ _ hparams _ _ hbody _ hspan => by
    have := hparams.le
    rw [FunctionDecl.Nested]
    exact ⟨hbody.encloses hordered hspan (by omega) (by omega), hbody.nested hordered⟩

theorem Functions.nested (hordered : Ordered tokens) : ∀ {i j : Nat} {fs : List FunctionDecl},
    Functions tokens i j fs → FunctionDecl.NestedAll fs
  | _, _, _, .nil => trivial
  | _, _, _, .cons hfirst hothers => ⟨hfirst.nested hordered, hothers.nested hordered⟩
end

/-! ## All expressions were read from tokens -/

/-- The expression is a condition that was left out between two semicolons: a `true` at the second
of them. -/
def Supplied (tokens : List Token) (e : Expr) : Prop :=
  ∃ i node, e = .literal node (.bool true) ∧ IsAt tokens i .semicolon ∧
    IsAt tokens (i + 1) .semicolon ∧ PlaceAt tokens (i + 1) node.span

/-- The expression was read from some of the tokens, or is a condition that was left out. -/
def Known (tokens : List Token) (e : Expr) : Prop := HasExtent tokens e ∨ Supplied tokens e

theorem Expression.known {e : Expr} (h : Expression tokens i j e) (place : Place) :
    ∀ o ∈ e.occurrences place, Known tokens o.expr :=
  fun o ho => .inl (h.occurrences place o ho)

theorem Maybe.known {value : Option Expr} (h : Maybe tokens i j value) (place : Place) :
    ∀ o ∈ Expr.occurrencesOption place value, Known tokens o.expr := by
  cases h with
  | none => simp [Expr.occurrencesOption]
  | some h => exact h.known place

theorem Initializer.known {value : Option Expr} (h : Initializer tokens i j value)
    (place : Place) : ∀ o ∈ Expr.occurrencesOption place value, Known tokens o.expr := by
  cases h with
  | none => simp [Expr.occurrencesOption]
  | some _ h => exact h.known place

theorem Condition.known {e : Expr} (hfirst : IsAt tokens i .semicolon)
    (h : Condition tokens (i + 1) j e) (hsecond : IsAt tokens j .semicolon) (place : Place) :
    ∀ o ∈ e.occurrences place, Known tokens o.expr := by
  cases h with
  | none hspan =>
    simp only [Expr.occurrences, List.forall_mem_singleton]
    exact .inr ⟨i, _, rfl, hfirst, hsecond, hspan⟩
  | some h => exact h.known place

mutual
/-- All expressions in a statement were read from tokens, or are conditions left out. -/
theorem Statement.occurrences : ∀ {i j : Nat} {s : Stmt}, Statement tokens i j s →
    ∀ place, ∀ o ∈ s.occurrences place, Known tokens o.expr
  | _, _, _, .expression hvalue _ _, place => hvalue.known place
  | _, _, _, .print _ hvalue _ _, place => hvalue.known place
  | _, _, _, .var _ _ hinitializer _ _, _ => hinitializer.known _
  | _, _, _, .return _ hvalue _ _, place => hvalue.known place
  | _, _, _, .block _ hbody _ _, _ => hbody.occurrences _
  | _, _, _, .ifThen _ _ hcondition _ hthen _, place => by
    rw [Stmt.occurrences, List.forall_mem_append]
    exact ⟨hcondition.known place, hthen.occurrences place⟩
  | _, _, _, .ifElse _ _ hcondition _ hthen _ helse _, place => by
    simp only [Stmt.occurrences, List.forall_mem_append]
    exact ⟨⟨hcondition.known place, hthen.occurrences place⟩, helse.occurrences _⟩
  | _, _, _, .while _ _ hcondition _ hbody _, place => by
    rw [Stmt.occurrences, List.forall_mem_append]
    exact ⟨hcondition.known place, hbody.occurrences place⟩
  | _, _, _, .for _ _ hinitializer hfirst hcondition hsecond hincrement _ hbody _, place => by
    intro o ho
    have hfirst' := hinitializer.occurrences
    rcases Stmt.mem_occurrences_forLoop ho with
      ⟨s, p, hs, ho⟩ | ⟨p, ho⟩ | ⟨e, p, he, ho⟩ | ⟨p, ho⟩
    · exact hfirst' s hs p o ho
    · exact hcondition.known hfirst hsecond p o ho
    · rw [he] at hincrement
      exact hincrement.known p o ‹_›
    · exact hbody.occurrences p o ho
  | _, _, _, .function _ hdecl _, _ => hdecl.occurrences _
  | _, _, _, .class _ _ _ hmethods _ _, _ => hmethods.occurrences _

theorem LoopStart.occurrences : ∀ {i j : Nat} {s? : Option Stmt}, LoopStart tokens i j s? →
    ∀ s, s? = some s → ∀ place, ∀ o ∈ s.occurrences place, Known tokens o.expr
  | _, _, _, .none, _, hs => by cases hs
  | _, _, _, .some h, _, hs => by
    cases hs
    exact h.occurrences

theorem Statements.occurrences : ∀ {i j : Nat} {ss : List Stmt}, Statements tokens i j ss →
    ∀ place, ∀ o ∈ Stmt.occurrencesAll place ss, Known tokens o.expr
  | _, _, _, .nil, _ => by simp [Stmt.occurrencesAll]
  | _, _, _, .cons hfirst hothers, place => by
    rw [Stmt.occurrencesAll, List.forall_mem_append]
    exact ⟨hfirst.occurrences place, hothers.occurrences _⟩

theorem Function.occurrences : ∀ {i j : Nat} {f : FunctionDecl}, Function tokens i j f →
    ∀ place, ∀ o ∈ f.occurrences place, Known tokens o.expr
  | _, _, _, .mk _ _ _ _ _ hbody _ _, _ => by
    rw [FunctionDecl.occurrences]
    exact hbody.occurrences _

theorem Functions.occurrences : ∀ {i j : Nat} {fs : List FunctionDecl}, Functions tokens i j fs →
    ∀ place, ∀ o ∈ FunctionDecl.occurrencesAll place fs, Known tokens o.expr
  | _, _, _, .nil, _ => by simp [FunctionDecl.occurrencesAll]
  | _, _, _, .cons hfirst hothers, place => by
    rw [FunctionDecl.occurrencesAll, List.forall_mem_append]
    exact ⟨hfirst.occurrences place, hothers.occurrences place⟩
end

end Extent

end Lox
