import Lox.Proofs.Echo.Lines
import Lox.Proofs.Syntax.Grammar

/-!
# Equals signs

In a program an equals sign stands behind a name, so that the echo finds it among the characters
of a line without comments and backslashes exactly if it is one of the tokens
(`Scanned.isAssignment_iff`).  An expression that writes nothing has none
(`Grammar.Reads.not_equal`).

**Neighbours.** The characters next to an equals sign tell whether it is part of another operator:
what stands before a token is the end of another one, or blank, and what stands behind it is not
joined to it.
-/

namespace Lox

open Piece Grammar

/-! ## Equals signs behind names -/

namespace Grammar

/-- Every equals sign stands right behind a name; the flag tells whether a name stands before the
tokens. -/
def EqualsNamed : Bool → List Token → Prop
  | _, [] => True
  | named, t :: ts =>
    (t.kind = .equal → named = true) ∧ EqualsNamed (decide (t.kind = .identifier)) ts

@[simp] theorem equalsNamed_nil (named : Bool) : EqualsNamed named [] := trivial

@[simp] theorem equalsNamed_cons {named : Bool} {t : Token} {ts : List Token} :
    EqualsNamed named (t :: ts) ↔
      (t.kind = .equal → named = true) ∧ EqualsNamed (decide (t.kind = .identifier)) ts :=
  Iff.rfl

theorem EqualsNamed.mono {named : Bool} {ts : List Token} (h : EqualsNamed false ts) :
    EqualsNamed named ts := by
  cases ts with
  | nil => trivial
  | cons t ts => exact ⟨fun ht => absurd (h.1 ht) (by decide), h.2⟩

theorem EqualsNamed.append {named : Bool} {ts us : List Token} (h : EqualsNamed named ts)
    (h' : EqualsNamed false us) : EqualsNamed named (ts ++ us) := by
  induction ts generalizing named with
  | nil => exact h'.mono
  | cons t ts ih => exact ⟨h.1, ih h.2⟩

theorem EqualsNamed.of_append {named : Bool} {ts us : List Token}
    (h : EqualsNamed named (ts ++ us)) : EqualsNamed named ts := by
  induction ts generalizing named with
  | nil => trivial
  | cons t ts ih => exact ⟨h.1, ih h.2⟩

/-- A token that is neither a name nor an equals sign can stand before the tokens. -/
theorem EqualsNamed.cons {t : Token} {ts : List Token} (ht : t.kind ≠ .equal)
    (h : EqualsNamed false ts) : EqualsNamed false (t :: ts) :=
  ⟨fun hequal => absurd hequal ht, h.mono⟩

theorem ne_equal_of_binarySign {l : Level} {kind : Token.Kind} {op : Operator}
    (h : BinarySign l kind op) : kind ≠ .equal := by
  cases h <;> decide

theorem ne_equal_of_unarySign {kind : Token.Kind} {op : UnaryOp} (h : UnarySign kind op) :
    kind ≠ .equal := by
  cases h <;> decide

theorem ne_equal_of_written {t : Token} {value : Constant} (h : Written t value) :
    t.kind ≠ .equal := by
  cases h with
  | integer hkind _ | float hkind _ => rcases hkind with hkind | hkind <;> rw [hkind] <;> decide
  | text hkind _ | true hkind | false hkind | nil hkind => rw [hkind]; decide

mutual
theorem Reads.named {c : Category} {ts : List Token} {e : Expr} :
    Reads c ts e → EqualsNamed false ts
  | .of _ hinner => hinner.named
  | .assign hname hequals hvalue => by simp [hname, hequals, hvalue.named]
  | .set hobject hdot hname hequals hvalue =>
    hobject.named.append (by simp [hdot, hname, hequals, hvalue.named])
  | .operator hleft hsign _ hright =>
    hleft.named.append (hright.named.cons (ne_equal_of_binarySign hsign))
  | .unary hsign hoperand => hoperand.named.cons (ne_equal_of_unarySign hsign)
  | .bareNew hword hcallee => hcallee.named.cons (by simp [hword])
  | .new hword hcallee harguments =>
    (hcallee.named.cons (by simp [hword])).append harguments.named
  | .call hcallee harguments => hcallee.named.append harguments.named
  | .get hobject hdot hname => hobject.named.append (by simp [hdot, hname])
  | .literal hvalue => ⟨fun hequal => absurd hequal (ne_equal_of_written hvalue), trivial⟩
  | .this hkind | .name hkind => by simp [hkind]
  | .grouping hleft hinner hright =>
    (hinner.named.cons (by simp [hleft])).append (by simp [hright])

theorem ReadsClass.named {ts : List Token} {e : Expr} : ReadsClass ts e → EqualsNamed false ts
  | .primary h => h.named
  | .get hobject hdot hname => hobject.named.append (by simp [hdot, hname])

theorem Arguments.named {ts : List Token} {es : List Expr} :
    Arguments ts es → EqualsNamed false ts
  | .none hleft hright => by simp [hleft, hright]
  | .some hleft hvalues _ hright =>
    (hvalues.named.cons (by simp [hleft])).append (by simp [hright])

theorem Values.named {ts : List Token} {es : List Expr} : Values ts es → EqualsNamed false ts
  | .one hvalue => hvalue.named
  | .more hvalue hcomma hvalues => hvalue.named.append (hvalues.named.cons (by simp [hcomma]))
end

theorem Maybe.named {ts : List Token} {e : Option Expr} (h : Maybe ts e) :
    EqualsNamed false ts := by
  cases h with
  | none => trivial
  | some h => exact h.named

theorem Names.named {ts : List Token} {names : List String} (h : Names ts names) :
    EqualsNamed false ts := by
  induction h with
  | one hname => simp [hname]
  | more hname hcomma _ ih => simp [hname, hcomma, ih]

theorem Parameters.named {ts : List Token} {params : List String} (h : Parameters ts params) :
    EqualsNamed false ts := by
  cases h with
  | none => trivial
  | some hnames _ => exact hnames.named

theorem ExpressionStatement.named {ts : List Token} {s : Stmt} (h : ExpressionStatement ts s) :
    EqualsNamed false ts := by
  obtain ⟨hvalue, hsemicolon⟩ := h
  exact hvalue.named.append (by simp [hsemicolon])

theorem VarDeclaration.named {ts : List Token} {s : Stmt} (h : VarDeclaration ts s) :
    EqualsNamed false ts := by
  cases h with
  | bare hword hname hsemicolon => simp [hword, hname, hsemicolon]
  | initialized hword hname hequals hvalue hsemicolon =>
    refine EqualsNamed.append ?_ (by simp [hsemicolon])
    simp [hword, hname, hequals, hvalue.named]

theorem LoopStart.named {ts : List Token} {s : Option Stmt} (h : LoopStart ts s) :
    EqualsNamed false ts := by
  cases h with
  | none hsemicolon => simp [hsemicolon]
  | var h => exact h.named
  | expression h => exact h.named

mutual
theorem Declares.named {ts : List Token} {s : Stmt} : Declares ts s → EqualsNamed false ts
  | .class hword hname hleft hmethods hright =>
    EqualsNamed.append (by simp [hword, hname, hleft, hmethods.named]) (by simp [hright])
  | .function hword hdecl => hdecl.named.cons (by simp [hword])
  | .var h => h.named
  | .statement h => h.named

theorem States.named {isOpen : Bool} {ts : List Token} {s : Stmt} :
    States isOpen ts s → EqualsNamed false ts
  | .expression h => h.named
  | .print hword hvalue hsemicolon =>
    (hvalue.named.cons (by simp [hword])).append (by simp [hsemicolon])
  | .return hword hvalue hsemicolon =>
    (hvalue.named.cons (by simp [hword])).append (by simp [hsemicolon])
  | .block hleft hbody hright =>
    (hbody.named.cons (by simp [hleft])).append (by simp [hright])
  | .ifThen hword hleft hcondition hright hthen =>
    EqualsNamed.append (by simp [hword, hleft, hcondition.named])
      (hthen.named.cons (by simp [hright]))
  | .ifElse hword hleft hcondition hright hthen hother helse =>
    (EqualsNamed.append (by simp [hword, hleft, hcondition.named])
      (hthen.named.cons (by simp [hright]))).append (helse.named.cons (by simp [hother]))
  | .while hword hleft hcondition hright hbody =>
    EqualsNamed.append (by simp [hword, hleft, hcondition.named])
      (hbody.named.cons (by simp [hright]))
  | .for hword hleft hinitializer hcondition hsemicolon hincrement hright hbody =>
    (((EqualsNamed.append (by simp [hword, hleft, hinitializer.named])
      hcondition.named).append (hincrement.named.cons (by simp [hsemicolon]))).append
        (hbody.named.cons (by simp [hright])))

theorem Defines.named {ts : List Token} {f : FunctionDecl} : Defines ts f → EqualsNamed false ts
  | .mk hname hleft hparams hright hleftBrace hbody hrightBrace =>
    (EqualsNamed.append (by simp [hname, hleft, hparams.named])
      ((hbody.named.cons (by simp [hleftBrace])).cons (by simp [hright]))).append
        (by simp [hrightBrace])

theorem Items.named {ts : List Token} {ss : List Stmt} : Items ts ss → EqualsNamed false ts
  | .nil => trivial
  | .cons hfirst hothers => hfirst.named.append hothers.named

theorem Methods.named {ts : List Token} {fs : List FunctionDecl} :
    Methods ts fs → EqualsNamed false ts
  | .nil => trivial
  | .cons hfirst hothers => hfirst.named.append hothers.named
end

end Grammar

/-! ## Expressions that write -/

mutual
/-- The expression has an assignment or a property write in it. -/
def Expr.writes : Expr → Bool
  | .literal .. | .variable .. | .this _ => false
  | .grouping _ inner => inner.writes
  | .unary _ _ operand => operand.writes
  | .binary _ _ left right _ => left.writes || right.writes
  | .logical _ _ left right => left.writes || right.writes
  | .assign .. | .set .. => true
  | .call _ callee arguments _ => callee.writes || Expr.writesAny arguments
  | .new _ callee arguments _ => callee.writes || Expr.writesAny arguments
  | .get _ object _ _ => object.writes

/-- One of the expressions has. -/
def Expr.writesAny : List Expr → Bool
  | [] => false
  | e :: es => e.writes || Expr.writesAny es
end

theorem Operator.writes_apply (op : Operator) (node : Node) (left right : Expr) (span : Span) :
    (op.apply node left right span).writes = (left.writes || right.writes) := by
  cases op <;> rfl

namespace Grammar

mutual
/-- An expression that writes nothing has no equals sign. -/
theorem Reads.not_equal {c : Category} {ts : List Token} {e : Expr} :
    Reads c ts e → e.writes = false → ∀ t ∈ ts, t.kind ≠ .equal
  | .of _ hinner, h => hinner.not_equal h
  | .assign .., h | .set .., h => by cases h
  | .operator hleft hsign _ hright, h => by
    rw [Operator.writes_apply, Bool.or_eq_false_iff] at h
    simp only [List.forall_mem_append, List.forall_mem_cons]
    exact ⟨hleft.not_equal h.1, ne_equal_of_binarySign hsign, hright.not_equal h.2⟩
  | .unary hsign hoperand, h =>
    List.forall_mem_cons.2 ⟨ne_equal_of_unarySign hsign, hoperand.not_equal h⟩
  | .bareNew hword hcallee, h => by
    rw [Expr.writes, Bool.or_eq_false_iff] at h
    exact List.forall_mem_cons.2 ⟨by simp [hword], hcallee.not_equal h.1⟩
  | .new hword hcallee harguments, h => by
    rw [Expr.writes, Bool.or_eq_false_iff] at h
    simp only [List.forall_mem_append, List.forall_mem_cons, hword]
    exact ⟨⟨by decide, hcallee.not_equal h.1⟩, harguments.not_equal h.2⟩
  | .call hcallee harguments, h => by
    rw [Expr.writes, Bool.or_eq_false_iff] at h
    exact List.forall_mem_append.2 ⟨hcallee.not_equal h.1, harguments.not_equal h.2⟩
  | .get hobject hdot hname, h => by
    simp only [List.forall_mem_append, List.forall_mem_cons, hdot, hname]
    exact ⟨hobject.not_equal h, by decide, by decide, by simp⟩
  | .literal hvalue, _ => List.forall_mem_singleton.2 (ne_equal_of_written hvalue)
  | .this hkind, _ | .name hkind, _ => List.forall_mem_singleton.2 (by simp [hkind])
  | .grouping hleft hinner hright, h => by
    simp only [List.forall_mem_append, List.forall_mem_cons, hleft, hright]
    exact ⟨⟨by decide, hinner.not_equal h⟩, by decide, by simp⟩

theorem ReadsClass.not_equal {ts : List Token} {e : Expr} :
    ReadsClass ts e → e.writes = false → ∀ t ∈ ts, t.kind ≠ .equal
  | .primary h', h => h'.not_equal h
  | .get hobject hdot hname, h => by
    simp only [List.forall_mem_append, List.forall_mem_cons, hdot, hname]
    exact ⟨hobject.not_equal h, by decide, by decide, by simp⟩

theorem Arguments.not_equal {ts : List Token} {es : List Expr} :
    Arguments ts es → Expr.writesAny es = false → ∀ t ∈ ts, t.kind ≠ .equal
  | .none hleft hright, _ => by simp [hleft, hright]
  | .some hleft hvalues _ hright, h => by
    simp only [List.forall_mem_append, List.forall_mem_cons, hleft, hright]
    exact ⟨⟨by decide, hvalues.not_equal h⟩, by decide, by simp⟩

theorem Values.not_equal {ts : List Token} {es : List Expr} :
    Values ts es → Expr.writesAny es = false → ∀ t ∈ ts, t.kind ≠ .equal
  | .one hvalue, h => by
    rw [Expr.writesAny, Bool.or_eq_false_iff] at h
    exact hvalue.not_equal h.1
  | .more hvalue hcomma hvalues, h => by
    rw [Expr.writesAny, Bool.or_eq_false_iff] at h
    simp only [List.forall_mem_append, List.forall_mem_cons, hcomma]
    exact ⟨hvalue.not_equal h.1, by decide, hvalues.not_equal h.2⟩
end

end Grammar

/-! ## Equals signs among characters -/

namespace Echo

variable {before : Option Char} {text rest : List Char}

/-- Characters without quotes and equals signs are passed. -/
theorem hasSingleEqual_append (hquote : '"' ∉ text) (hequal : '=' ∉ text) :
    hasSingleEqual before false (text ++ rest) =
      hasSingleEqual (text.getLast?.or before) false rest := by
  induction text generalizing before with
  | nil => simp
  | cons c text ih =>
    simp only [List.mem_cons, not_or] at hquote hequal
    have hpassed : hasSingleEqual before false (c :: text ++ rest) =
        hasSingleEqual (some c) false (text ++ rest) := by
      simp [hasSingleEqual, Ne.symm hquote.1, Ne.symm hequal.1]
    rw [hpassed, ih hquote.2 hequal.2, List.getLast?_cons]
    cases text.getLast? <;> rfl

/-- What stands between quotes is passed. -/
theorem hasSingleEqual_quoted (hquote : '"' ∉ text) :
    hasSingleEqual before false ('"' :: (text ++ '"' :: rest)) =
      hasSingleEqual (some '"') false rest := by
  have hinside (before : Option Char) :
      hasSingleEqual before true (text ++ '"' :: rest) = hasSingleEqual (some '"') false rest := by
    induction text generalizing before with
    | nil => simp [hasSingleEqual]
    | cons c text ih =>
      simp only [List.mem_cons, not_or] at hquote
      rw [← ih hquote.2 (some c)]
      simp [hasSingleEqual, Ne.symm hquote.1]
  rw [hasSingleEqual, if_pos rfl]
  exact hinside _

theorem joinsEqual_of_isWordPart {c : Char} (h : Piece.isWordPart c) :
    joinsEqual (some c) = false := by
  unfold joinsEqual
  split <;> first | rfl | (next heq => cases heq; cases h)

theorem joinsEqual_of_isBlank {c : Char} (h : isBlank c) : joinsEqual (some c) = false := by
  unfold joinsEqual
  split <;> first | rfl | (next heq => cases heq; cases h)

end Echo

/-- A string without backslashes has no quotes inside. -/
theorem StringText.quote_not_mem {raw value : List Char} (h : StringText raw value)
    (hbackslash : '\\' ∉ raw) : '"' ∉ raw := by
  induction h with
  | nil => simp
  | plain hquote _ _ ih =>
    simp only [List.mem_cons, not_or] at hbackslash ⊢
    exact ⟨hquote.symm, ih hbackslash.2⟩
  | escape _ _ => simp at hbackslash

/-- A token without quotes and equals signs is passed. -/
theorem Echo.hasSingleEqual_passed {kind : Token.Kind} {lexeme : List Char} (hne : lexeme ≠ [])
    (hkind : kind ≠ .equal) (hquote : '"' ∉ lexeme) (hequal : '=' ∉ lexeme)
    (before : Option Char) (rest : List Char) :
    Echo.hasSingleEqual before false (lexeme ++ rest) =
      ((kind = .equal && !Echo.joinsEqual before) ||
        Echo.hasSingleEqual lexeme.getLast? false rest) := by
  rw [Echo.hasSingleEqual_append hquote hequal, List.getLast?_eq_some_getLast hne]
  simp [hkind]

theorem eq_sign_of_singleKind?_equal {c : Char} (h : singleKind? c = some .equal) : c = '=' := by
  unfold singleKind? at h
  split at h <;> first | rfl | cases h

/-- A sign of one character is passed, unless it is an equals sign, behind which no other one
follows. -/
theorem Echo.hasSingleEqual_single {c : Char} {kind : Token.Kind} {rest : List Char}
    (hsingle : singleKind? c = some kind) (hnext : kind = .equal → rest.head? ≠ some '=')
    (before : Option Char) :
    Echo.hasSingleEqual before false ([c] ++ rest) =
      ((kind = .equal && !Echo.joinsEqual before) ||
        Echo.hasSingleEqual [c].getLast? false rest) := by
  by_cases hequal : kind = .equal
  · obtain rfl := eq_sign_of_singleKind?_equal (hequal ▸ hsingle)
    cases hjoins : Echo.joinsEqual before <;>
      simp [Echo.hasSingleEqual, hequal, hjoins, hnext hequal]
  · refine Echo.hasSingleEqual_passed (by simp) hequal ?_ ?_ before rest
    · rintro hmem
      obtain rfl := List.mem_singleton.1 hmem
      cases hsingle
    · rintro hmem
      obtain rfl := List.mem_singleton.1 hmem
      cases hsingle
      exact hequal rfl

/-- A token is passed, unless it is an equals sign by itself. -/
theorem Piece.Fits.hasSingleEqual {kind : Token.Kind} {lexeme rest : List Char}
    {literal : Option Literal} (h : (token kind lexeme literal).Fits rest)
    (hbackslash : '\\' ∉ lexeme) (before : Option Char) :
    Echo.hasSingleEqual before false (lexeme ++ rest) =
      ((kind = .equal && !Echo.joinsEqual before) ||
        Echo.hasSingleEqual lexeme.getLast? false rest) := by
  obtain ⟨hlexeme, hlongest, -⟩ := h
  have not_digit {c : Char} {digits : List Char} (hdigits : ∀ d ∈ digits, d.isDigit)
      (hc : c.isDigit = false) : c ∉ digits := fun hmem => by simp [hdigits c hmem] at hc
  cases hlexeme with
  | @string raw _ hraw =>
    simp only [List.mem_cons, List.mem_append, not_or] at hbackslash
    rw [List.cons_append, List.append_assoc, List.singleton_append,
      Echo.hasSingleEqual_quoted (hraw.quote_not_mem hbackslash.2.1)]
    simp [List.getLast?_cons]
  | whole hne hdigits =>
    exact Echo.hasSingleEqual_passed hne (by decide) (not_digit hdigits rfl)
      (not_digit hdigits rfl) before rest
  | @fraction whole fraction _ hdigits _ hdigits' =>
    have hparts {c : Char} (hc : c.isDigit = false) (hpoint : c ≠ '.') :
        c ∉ whole ++ '.' :: fraction := by
      simp [not_digit hdigits hc, not_digit hdigits' hc, hpoint]
    exact Echo.hasSingleEqual_passed (by simp) (by decide) (hparts rfl (by decide))
      (hparts rfl (by decide)) before rest
  | @word first others hfirst hothers =>
    have hparts {c : Char} (hc : isWordPart c = false) : c ∉ first :: others := by
      intro hmem
      rcases List.mem_cons.1 hmem with rfl | hmem
      · simp [isWordPart, hfirst] at hc
      · simp [hothers c hmem] at hc
    refine Echo.hasSingleEqual_passed (by simp) ?_ (hparts rfl) (hparts rfl) before rest
    unfold Token.Kind.ofWord Token.Kind.keyword?
    split <;> decide
  | pair hpair =>
    unfold pairKind? at hpair
    split at hpair <;> cases hpair <;> simp [Echo.hasSingleEqual, Echo.joinsEqual]
  | @single c kind hsingle =>
    refine Echo.hasSingleEqual_single hsingle (fun hequal hnext => ?_) before
    -- otherwise the two signs would be one token
    subst hequal
    obtain ⟨others, rfl⟩ := List.head?_eq_some_iff.1 hnext
    have hpair : Lexeme .equalEqual ['=', '='] none := .pair rfl
    obtain rfl := eq_sign_of_singleKind?_equal hsingle
    exact absurd (hlongest _ _ _ hpair ⟨others, rfl⟩) (by decide)

/-- An equals sign behind a name stands by itself. -/
theorem Lexeme.joinsEqual_of_identifier {lexeme : List Char} {literal : Option Literal}
    (h : Lexeme .identifier lexeme literal) : Echo.joinsEqual lexeme.getLast? = false := by
  obtain ⟨first, others, rfl, hfirst, hparts⟩ := h.of_identifier
  rw [List.getLast?_eq_some_getLast (by simp)]
  refine Echo.joinsEqual_of_isWordPart ?_
  rcases List.mem_cons.1 (List.getLast_mem (List.cons_ne_nil first others)) with hc | hc
  · rw [hc]
    simp [isWordPart, hfirst]
  · exact hparts _ hc

/-- In a text without comments and backslashes, a single equals sign is found exactly if it is
one of the tokens. -/
theorem Piece.Splits.hasSingleEqual_iff {pieces : List Piece} {text : List Char}
    (h : Splits pieces text) {tokens : List Token} {named : Bool} {before : Option Char}
    (hmarks : pieces.filter isMark = tokens.map Token.piece)
    (hcomments : ∀ text, .comment text ∉ pieces) (hbackslash : '\\' ∉ text)
    (hnamed : EqualsNamed named tokens)
    (hbefore : named = true → Echo.joinsEqual before = false) :
    Echo.hasSingleEqual before false text = true ↔ ∃ t ∈ tokens, t.kind = .equal := by
  induction h generalizing tokens named before with
  | nil =>
    obtain rfl := List.map_eq_nil_iff.1 hmarks.symm
    simp [Echo.hasSingleEqual]
  | @cons piece pieces rest hfits _ ih =>
    simp only [List.mem_cons, not_or] at hcomments
    rw [List.mem_append, not_or] at hbackslash
    have hothers := fun text => (hcomments text).2
    cases piece with
    | blank blanks =>
      obtain ⟨hne, hall, -⟩ := hfits
      have hlast : Echo.joinsEqual (blanks.getLast?.or before) = false := by
        rw [List.getLast?_eq_some_getLast hne]
        exact Echo.joinsEqual_of_isBlank (hall _ (List.getLast_mem hne))
      have hplain {c : Char} (hc : isBlank c = false) : c ∉ blanks := fun hmem => by
        simp [hall c hmem] at hc
      rw [Piece.text, Echo.hasSingleEqual_append (hplain rfl) (hplain rfl)]
      exact ih hmarks hothers hbackslash.2 hnamed fun _ => hlast
    | comment text => exact absurd rfl (hcomments text).1
    | token kind lexeme literal =>
      rw [List.filter_cons_of_pos rfl] at hmarks
      obtain ⟨t, ts, rfl, htoken, hts⟩ := List.map_eq_cons_iff.1 hmarks.symm
      cases htoken
      obtain ⟨hequal, hnamed⟩ := hnamed
      have hlast : decide (t.kind = .identifier) = true →
          Echo.joinsEqual t.lexeme.toList.getLast? = false := by
        intro hkind
        have hlexeme := hfits.1
        rw [of_decide_eq_true hkind] at hlexeme
        exact hlexeme.joinsEqual_of_identifier
      rw [Piece.text, hfits.hasSingleEqual hbackslash.1 before, Bool.or_eq_true,
        ih hts.symm hothers hbackslash.2 hnamed hlast]
      constructor
      · rintro (hsign | ⟨t', ht', hkind⟩)
        · simp only [Bool.and_eq_true, decide_eq_true_eq] at hsign
          exact ⟨t, List.mem_cons_self, hsign.1⟩
        · exact ⟨t', List.mem_cons_of_mem _ ht', hkind⟩
      · rintro ⟨t', ht', hkind⟩
        rcases List.mem_cons.1 ht' with rfl | ht'
        · simp [hkind, hbefore (hequal hkind)]
        · exact .inr ⟨t', ht', hkind⟩
    | stray c =>
      rw [List.filter_cons_of_pos rfl] at hmarks
      obtain ⟨t, -, -, htoken, -⟩ := List.map_eq_cons_iff.1 hmarks.symm
      cases htoken
    | openString raw =>
      rw [List.filter_cons_of_pos rfl] at hmarks
      obtain ⟨t, -, -, htoken, -⟩ := List.map_eq_cons_iff.1 hmarks.symm
      cases htoken

/-- A line without comments and backslashes is taken for an assignment exactly if an equals sign
is one of its tokens. -/
theorem Scanned.isAssignment_iff {line : List Char} {pieces : List Piece} {tokens : List Token}
    (h : Scanned line pieces tokens) (hcomments : ∀ text, .comment text ∉ pieces)
    (hbackslash : '\\' ∉ line) (hnamed : EqualsNamed false tokens) :
    Echo.isAssignment line = true ↔ ∃ t ∈ tokens, t.kind = .equal :=
  h.splits.hasSingleEqual_iff h.marks hcomments hbackslash hnamed (by simp)

end Lox
