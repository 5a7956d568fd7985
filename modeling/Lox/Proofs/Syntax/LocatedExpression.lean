import Lox.Proofs.Syntax.Located

/-!
# Where expressions are read

Each rule of expressions finds the extent of what it reads.  An expression with several parts
reaches from where its first part begins to where its last part ends.
-/

namespace Lox

namespace Parse

namespace Reading

open Extent

section Rules

variable {tokens : List Token} (hclosed : Closed tokens) (hordered : Ordered tokens)

include hclosed

theorem locates_parameterNames (count : Nat) : Locates tokens (.parameterNames count) := by
  intro n p i hp _
  simp only [ofRule]
  split
  · exact finds_fail hp
  · refine .bind hclosed (finds_expectName hp hclosed _) ?_
    rintro name _ q hq ⟨rfl, hname⟩
    refine .bind hclosed (finds_accept hq hclosed (by decide)) ?_
    rintro more j q hq (⟨rfl, hcomma, rfl⟩ | ⟨rfl, rfl⟩)
    · rw [if_pos rfl]
      refine .bind hclosed (finds_rule hq rfl) ?_
      intro names j q hq hnames
      exact finds_pure hq (.more hname hcomma hnames)
    · rw [if_neg Bool.false_ne_true]
      exact finds_pure hq (.one hname)

omit hclosed in
theorem locates_operand (level : Level) : Locates tokens (.operand level) := by
  intro n p i hp _
  simp only [ofRule]
  split
  · exact finds_rule hp rfl
  · exact finds_rule hp rfl

theorem locates_binary (level : Level) : Locates tokens (.binary level) := by
  intro n p i hp _
  simp only [ofRule]
  refine .bind hclosed (finds_rule hp rfl) ?_
  intro left j q hq hleft
  exact (finds_rule hq rfl).mono fun e k he => he i hleft

theorem locates_call : Locates tokens .call := by
  intro n p i hp _
  simp only [ofRule]
  refine .bind hclosed (finds_peek hp) ?_
  rintro kind _ q hq ⟨rfl, hkind⟩
  rw [finds_ite_bind]
  refine .bind hclosed (K := fun e j => Expression tokens i j e) ?_ ?_
  · split
    · next heq =>
      refine finds_worded hq fun word hword => ?_
      cases hword
      rwa [heq] at hkind
    · exact finds_rule hq rfl
  · intro callee j q hq hcallee
    exact (finds_rule hq rfl).mono fun e k he => he i hcallee

theorem locates_arguments : Locates tokens .arguments := by
  intro n p i hp _
  simp only [ofRule]
  refine .bind hclosed (finds_peek hp) ?_
  rintro kind _ q hq ⟨rfl, hkind⟩
  rw [finds_ite_bind]
  refine .bind hclosed (K := fun vs j => vs = [] ∧ i = j ∨ Values tokens i j vs) ?_ ?_
  · split
    · exact finds_pure hq (.inl ⟨rfl, rfl⟩)
    · exact (finds_rule hq rfl).mono fun _ _ => .inr
  · intro values j q hq hvalues
    refine .bind hclosed (finds_expect hq hclosed (by decide) _) ?_
    rintro _ _ q hq ⟨rfl, hright⟩
    refine finds_pure hq fun h hi hleft => ?_
    subst hi
    rcases hvalues with ⟨rfl, rfl⟩ | hvalues
    · exact .none hleft hright
    · exact .some hleft hvalues hright

theorem locates_argumentValues (count : Nat) : Locates tokens (.argumentValues count) := by
  intro n p i hp _
  simp only [ofRule]
  split
  · exact finds_fail hp
  · refine .bind hclosed (finds_rule hp rfl) ?_
    intro value j q hq hvalue
    refine .bind hclosed (finds_accept hq hclosed (by decide)) ?_
    rintro more k q hq (⟨rfl, hcomma, rfl⟩ | ⟨rfl, rfl⟩)
    · rw [if_pos rfl]
      refine .bind hclosed (finds_rule hq rfl) ?_
      intro values k q hq hvalues
      exact finds_pure hq (.more hvalue hcomma hvalues)
    · rw [if_neg Bool.false_ne_true]
      exact finds_pure hq (.one hvalue)

include hordered

theorem finds_property {n i : Nat} {q : Parser} {object : Expr} (hq : q.CleanAt tokens (i + 1))
    (hdot : IsAt tokens i .dot) :
    Finds tokens n (property object)
      (fun e j => ∀ h, Expression tokens h i object → Expression tokens h j e) q := by
  refine .bind hclosed (finds_expectName hq hclosed _) ?_
  rintro name _ q hq ⟨rfl, hname⟩
  refine .bind hclosed (finds_before hq) ?_
  rintro nameSpan _ q hq ⟨rfl, hplace⟩
  refine .bind hclosed (finds_freshNode hq _) ?_
  rintro node _ q hq ⟨rfl, hspan⟩
  refine finds_pure hq fun h hobject => .get hobject hdot hname hplace ?_
  rw [hspan]
  exact hobject.fromTo.through hordered hplace.fromTo (by omega)

theorem locates_properties (object : Expr) : Locates tokens (.properties object) := by
  intro n p i hp _
  simp only [ofRule]
  refine .bind hclosed (finds_accept hp hclosed (by decide)) ?_
  rintro found j q hq (⟨rfl, hdot, rfl⟩ | ⟨rfl, rfl⟩)
  · rw [if_pos rfl]
    refine .bind hclosed (finds_property hclosed hordered hq hdot) ?_
    intro next j q hq hnext
    exact (finds_rule hq rfl).mono fun e k he h hobject => he h (hnext h hobject)
  · rw [if_neg Bool.false_ne_true]
    exact finds_pure hq fun h hobject => hobject

theorem locates_callTail (callee : Expr) : Locates tokens (.callTail callee) := by
  intro n p i hp _
  simp only [ofRule]
  refine .bind hclosed (finds_accept hp hclosed (by decide)) ?_
  rintro found j q hq (⟨rfl, hleft, rfl⟩ | ⟨rfl, rfl⟩)
  · rw [if_pos rfl]
    refine .bind hclosed (finds_rule hq rfl) ?_
    intro arguments j q hq harguments
    replace harguments := harguments i rfl hleft
    have hlt := harguments.of_mem.1
    refine .bind hclosed (finds_before hq) ?_
    rintro paren _ q hq ⟨rfl, hparen⟩
    refine .bind hclosed (finds_freshNode hq _) ?_
    rintro node _ q hq ⟨rfl, hspan⟩
    refine (finds_rule hq rfl).mono fun e k he h hcallee => he h ?_
    refine .call hcallee harguments hparen ?_
    rw [hspan]
    have hlast := hparen.fromTo
    rw [Nat.sub_add_cancel (by omega)] at hlast
    exact hcallee.fromTo.through hordered hlast (by omega)
  · rw [if_neg Bool.false_ne_true]
    refine .bind hclosed (finds_accept hq hclosed (by decide)) ?_
    rintro found j q hq (⟨rfl, hdot, rfl⟩ | ⟨rfl, rfl⟩)
    · rw [if_pos rfl]
      refine .bind hclosed (finds_property hclosed hordered hq hdot) ?_
      intro next j q hq hnext
      exact (finds_rule hq rfl).mono fun e k he h hcallee => he h (hnext h hcallee)
    · rw [if_neg Bool.false_ne_true]
      exact finds_pure hq fun h hcallee => hcallee

theorem locates_binaryTail (level : Level) (left : Expr) :
    Locates tokens (.binaryTail level left) := by
  intro n p i hp _
  simp only [ofRule]
  refine .bind hclosed (finds_peek hp) ?_
  rintro kind _ q hq ⟨rfl, hkind⟩
  split
  · exact finds_pure hq fun h hleft => hleft
  · next op hop =>
    have hsign := binarySign_of_operator? hop
    refine .bind hclosed (finds_advance hq hclosed hkind (ne_eof_of_binarySign hsign)) ?_
    rintro _ _ q hq rfl
    refine .bind hclosed (finds_before hq) ?_
    rintro opSpan _ q hq ⟨rfl, hopSpan⟩
    refine .bind hclosed (finds_rule hq rfl) ?_
    intro right k q hq hright
    refine .bind hclosed (finds_freshNode hq _) ?_
    rintro node _ q hq ⟨rfl, hspan⟩
    refine (finds_rule hq rfl).mono fun e l he h hleft => he h ?_
    have hlt := hright.fromTo.lt
    have hnode : node.span.FromTo tokens h k := by
      rw [hspan]
      exact hleft.fromTo.through hordered hright.fromTo (by omega)
    cases op with
    | logical op => exact .logical hleft hkind hsign hright hnode
    | binary op => exact .binary hleft hkind hsign hopSpan hright hnode

theorem locates_unary : Locates tokens .unary := by
  intro n p i hp _
  simp only [ofRule]
  refine .bind hclosed (finds_peek hp) ?_
  rintro kind _ q hq ⟨rfl, hkind⟩
  split
  · exact finds_rule hq rfl
  · next op hop =>
    have hsign := unarySign_of_ofKind? hop
    refine finds_word hclosed hq hkind (ne_eof_of_unarySign hsign) fun start q hq hstart => ?_
    refine .bind hclosed (finds_rule hq rfl) ?_
    intro operand j q hq hoperand
    refine .bind hclosed (finds_freshNode hq _) ?_
    rintro node _ q hq ⟨rfl, hspan⟩
    refine finds_pure hq (.unary hkind hsign hoperand ?_)
    rw [hspan]
    exact hstart.fromTo.through hordered hoperand.fromTo (Nat.le_of_lt hoperand.fromTo.lt)

/-- The arguments of `new` may be left out. -/
theorem locates_instantiation : Locates tokens .instantiation := by
  intro n p i hp hword
  replace hword := hword _ rfl
  simp only [ofRule]
  refine finds_word hclosed hp hword (by decide) fun start q hq hstart => ?_
  refine .bind hclosed (finds_rule hq rfl) ?_
  intro head j q hq hhead
  refine .bind hclosed (finds_rule hq rfl) ?_
  intro callee j q hq hcallee
  replace hcallee := hcallee _ hhead
  have hlt := hcallee.fromTo.lt
  refine .bind hclosed (finds_accept hq hclosed (by decide)) ?_
  intro found k q hq hfound
  rw [finds_ite_bind]
  refine .bind hclosed
    (K := fun vs k => vs = [] ∧ j = k ∨ Arguments tokens j k vs) ?_ ?_
  · rcases hfound with ⟨rfl, hleft, rfl⟩ | ⟨rfl, rfl⟩
    · rw [if_pos rfl]
      exact (finds_rule hq rfl).mono fun vs k hvs => .inr (hvs j rfl hleft)
    · rw [if_neg Bool.false_ne_true]
      exact finds_pure hq (.inl ⟨rfl, rfl⟩)
  · intro arguments k q hq harguments
    refine .bind hclosed (finds_before hq) ?_
    rintro paren _ q hq ⟨rfl, hparen⟩
    refine .bind hclosed (finds_freshNode hq _) ?_
    rintro node _ q hq ⟨rfl, hspan⟩
    have hle : j ≤ k := by
      rcases harguments with ⟨-, rfl⟩ | harguments
      · exact Nat.le_refl _
      · exact Nat.le_of_lt harguments.of_mem.1
    have hnode : node.span.FromTo tokens i k := by
      have hlast := hparen.fromTo
      rw [Nat.sub_add_cancel (by omega)] at hlast
      rw [hspan]
      exact hstart.fromTo.through hordered hlast (by omega)
    rcases harguments with ⟨rfl, rfl⟩ | harguments
    · exact finds_pure hq (.bareNew hword hcallee hparen hnode)
    · exact finds_pure hq (.new hword hcallee harguments hparen hnode)

/-- What is assigned to is a name or a property; the tree before the sign tells which, and where
it stands. -/
theorem finds_assignTo {n i j k : Nat} {q : Parser}
    {target value : Expr} {equals : Token} (hq : q.CleanAt tokens k)
    (htarget : Expression tokens i j target) (hequals : IsAt tokens j .equal)
    (hvalue : Expression tokens (j + 1) k value) :
    Finds tokens n (assignTo target value equals) (fun e l => Expression tokens i l e) q := by
  have hlt := hvalue.fromTo.lt
  have hspan : (target.span.through value.span).FromTo tokens i k :=
    htarget.fromTo.through hordered hvalue.fromTo (by omega)
  unfold assignTo
  split
  · refine .bind hclosed (finds_freshNode hq _) ?_
    rintro node _ q hq ⟨rfl, hnode⟩
    rw [← hnode] at hspan
    cases htarget with
    | name hname _ => exact finds_pure hq (.assign hname hequals hvalue hspan)
  · refine .bind hclosed (finds_freshNode hq _) ?_
    rintro node _ q hq ⟨rfl, hnode⟩
    rw [← hnode] at hspan
    cases htarget with
    | get hobject hdot hname hplace _ =>
      exact finds_pure hq (.set hobject hdot hname hplace hequals hvalue hspan)
  · exact .bind hclosed (finds_note hq _ hclosed) fun _ _ _ _ h => h.elim

theorem locates_expression : Locates tokens .expression := by
  intro n p i hp _
  simp only [ofRule]
  refine .bind hclosed (finds_rule hp rfl) ?_
  intro target j q hq htarget
  refine .bind hclosed (finds_peek hq) ?_
  rintro kind _ q hq ⟨rfl, hkind⟩
  split
  · next heq =>
    rw [heq] at hkind
    refine .bind hclosed (finds_look hq) ?_
    rintro equals _ q hq ⟨rfl, -⟩
    refine .bind hclosed (finds_advance hq hclosed hkind (by decide)) ?_
    rintro _ _ q hq rfl
    refine .bind hclosed (finds_rule hq rfl) ?_
    intro value k q hq hvalue
    exact finds_assignTo hclosed hordered hq htarget hkind hvalue
  · exact finds_pure hq htarget

theorem locates_primary : Locates tokens .primary := by
  intro n p i hp _
  simp only [ofRule]
  refine .bind hclosed (finds_look hp) ?_
  rintro token _ q hq ⟨rfl, htoken⟩
  have hplace {span : Span} (h : span = token.span) : PlaceAt tokens i span := ⟨token, htoken, h⟩
  split
  · next value hvalue =>
    have hwritten := written_of_constant? hvalue
    refine .bind hclosed
      (finds_advance hq hclosed ⟨token, htoken, rfl⟩ (ne_eof_of_written hwritten)) ?_
    rintro _ _ q hq rfl
    refine .bind hclosed (finds_freshNode hq _) ?_
    rintro node _ q hq ⟨rfl, hspan⟩
    exact finds_pure hq (.literal htoken hwritten hspan)
  · exact finds_fail hq
  · split
    · next hkind =>
      have hword : IsAt tokens i .this := ⟨token, htoken, hkind⟩
      refine .bind hclosed (finds_advance hq hclosed hword (by decide)) ?_
      rintro _ _ q hq rfl
      refine .bind hclosed (finds_freshNode hq _) ?_
      rintro node _ q hq ⟨rfl, hspan⟩
      exact finds_pure hq (.this hword (hplace hspan))
    · next hkind =>
      refine .bind hclosed (finds_advance hq hclosed ⟨token, htoken, hkind⟩ (by decide)) ?_
      rintro _ _ q hq rfl
      refine .bind hclosed (finds_freshNode hq _) ?_
      rintro node _ q hq ⟨rfl, hspan⟩
      exact finds_pure hq (.name ⟨token, htoken, hkind, rfl⟩ (hplace hspan))
    · next hkind =>
      have hleft : IsAt tokens i .leftParen := ⟨token, htoken, hkind⟩
      refine .bind hclosed (finds_advance hq hclosed hleft (by decide)) ?_
      rintro _ _ q hq rfl
      refine .bind hclosed (finds_rule hq rfl) ?_
      intro inner j q hq hinner
      have hlt := hinner.fromTo.lt
      refine .bind hclosed (finds_expect hq hclosed (by decide) _) ?_
      rintro _ _ q hq ⟨rfl, hright⟩
      refine .bind hclosed (finds_spanFrom hq hordered (.token htoken) (by omega)) ?_
      rintro span _ q hq ⟨rfl, hspan⟩
      refine .bind hclosed (finds_freshNode hq _) ?_
      rintro node _ q hq ⟨rfl, rfl⟩
      exact finds_pure hq (.grouping hleft hinner hright hspan)
    · exact finds_fail hq

end Rules

end Reading

end Parse

end Lox
