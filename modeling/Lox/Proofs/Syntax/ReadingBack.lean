import Lox.Proofs.Number.Plain
import Lox.Proofs.Syntax.Prefix
import Lox.Proofs.Token.Layout
import Mathlib.Data.Set.Function

/-!
# Reading prefix forms back

The prefix form of a derived tree can be read back (`Stmt.ReadsBack.of_declares`).  The word in
front tells the node, and for a minus sign the number of parts does.  So two programs are written
in the same way only if they are the same, apart from numbers and places
(`program_sexp_unambiguous`).

**Atoms.** A name begins with a letter and is no keyword; every other value is written with a
digit, a sign or a quote in front, or as a keyword.  The texts of constants are told apart if
numbers are finite and strings have no quotes.

**Statements.** An expression statement is written as its expression.  No expression has a word in
front with which another statement is written.
-/

namespace Lox

/-! ## Atoms -/

/-- The text is spelled like an identifier. -/
def isName (text : String) : Bool :=
  text.toList.head?.any Char.isAlpha && text.toList.all Piece.isWordPart &&
    (Token.Kind.keyword? text).isNone

/-- The number is finite, and the string has no quotes. -/
def Constant.Plain : Constant → Prop
  | .number value => Binary64.magnitude value < Binary64.infinity
  | .text value => '"' ∉ value.toList
  | .bool _ | .nil => True

instance {text : List Char} : Decidable (IsWord text) :=
  decidable_of_iff (text ≠ [] ∧ text.all (fun c => c ∉ [' ', '(', ')', '"', '\n']) = true)
    ⟨fun h => ⟨h.1, by simpa using h.2⟩, fun h => ⟨h.ne_nil, by simpa using h.plain⟩⟩

theorem isWord_of_isName {name : String} (h : isName name = true) : IsWord name.toList := by
  simp only [isName, Bool.and_eq_true, List.all_eq_true] at h
  obtain ⟨⟨hfirst, hparts⟩, -⟩ := h
  refine ⟨fun hnil => by simp [hnil] at hfirst, fun c hc hmem => ?_⟩
  have hpart := hparts c hc
  simp only [List.mem_cons, List.not_mem_nil, or_false] at hmem
  rcases hmem with rfl | rfl | rfl | rfl | rfl <;> cases hpart

namespace Constant

variable {c c' : Constant}

theorem sexp_number_head {x : Float} (hx : (number x).Plain) :
    ∃ c rest, (number x).sexp.toList = c :: rest ∧ (c.isDigit = true ∨ c = '-') :=
  (NumberStyle.plain_format_chars hx).2

/-- A constant is written as one atom. -/
theorem isAtom_sexp (h : c.Plain) : IsAtom c.sexp.toList := by
  cases c with
  | number x =>
    refine .word ⟨fun hnil => ?_, fun c hc hmem => ?_⟩
    · obtain ⟨_, _, htext, -⟩ := sexp_number_head h
      rw [hnil] at htext
      cases htext
    · have hchar := (NumberStyle.plain_format_chars h).1 c hc
      simp only [List.mem_cons, List.not_mem_nil, or_false] at hmem
      rcases hmem with rfl | rfl | rfl | rfl | rfl <;> simp at hchar
  | text value =>
    rw [sexp, String.toList_append, String.toList_append, List.append_assoc]
    exact .quoted h
  | bool value => cases value <;> exact .word (by decide)
  | nil => exact .word (by decide)

/-- A constant is not written like a name. -/
theorem sexp_not_name (h : c.Plain) : isName c.sexp = false ∧ c.sexp ≠ "this" := by
  cases c with
  | number x =>
    obtain ⟨c, rest, htext, hc⟩ := sexp_number_head h
    have halpha : c.isAlpha = false := by
      rcases hc with hc | rfl
      · exact isAlpha_of_isDigit hc
      · rfl
    constructor
    · simp [isName, htext, halpha]
    · intro hthis
      rw [hthis] at htext
      cases (List.cons.inj htext).1
      cases halpha
  | text value =>
    have htext : (text value).sexp.toList = '"' :: (value.toList ++ ['"']) := by simp [sexp]
    constructor
    · simp [isName, htext]
    · intro hthis
      rw [hthis] at htext
      cases (List.cons.inj htext).1
  | bool value => cases value <;> exact ⟨by decide, by decide⟩
  | nil => exact ⟨by decide, by decide⟩

/-- A number begins with a digit or a sign. -/
theorem sexp_number_ne {x : Float} {text rest : List Char} {c : Char} (hx : (number x).Plain)
    (htext : text = c :: rest) (hdigit : c.isDigit = false) (hsign : c ≠ '-') :
    (number x).sexp.toList ≠ text := by
  intro hsame
  obtain ⟨d, others, hnumber, hd⟩ := sexp_number_head hx
  rw [hsame, htext] at hnumber
  obtain ⟨rfl, -⟩ := List.cons.inj hnumber
  rcases hd with hd | hd
  · rw [hdigit] at hd
    cases hd
  · exact hsign hd

/-- Different constants have different texts. -/
theorem sexp_inj (h : c.Plain) (h' : c'.Plain) (heq : c.sexp = c'.sexp) : c = c' := by
  have hchars := congrArg String.toList heq
  have text_eq (value : String) : (text value).sexp.toList = '"' :: (value.toList ++ ['"']) := by
    simp [sexp]
  cases c with
  | number x =>
    cases c' with
    | number y => rw [NumberStyle.plain_format_inj h h' heq]
    | text value => exact absurd hchars (sexp_number_ne h (text_eq value) rfl (by decide))
    | bool value => cases value <;> exact absurd hchars (sexp_number_ne h rfl rfl (by decide))
    | nil => exact absurd hchars (sexp_number_ne h rfl rfl (by decide))
  | text value =>
    rw [text_eq] at hchars
    cases c' with
    | number y =>
      exact absurd hchars.symm (sexp_number_ne h' rfl rfl (by decide))
    | text value' =>
      rw [text_eq] at hchars
      rw [String.toList_injective (List.append_cancel_right (List.cons.inj hchars).2)]
    | bool value' => cases value' <;> cases (List.cons.inj hchars).1
    | nil => cases (List.cons.inj hchars).1
  | bool value =>
    cases c' with
    | number y =>
      cases value <;> exact absurd hchars.symm (sexp_number_ne h' rfl rfl (by decide))
    | text value' =>
      rw [text_eq] at hchars
      cases value <;> cases (List.cons.inj hchars).1
    | bool value' => cases value <;> cases value' <;> first | rfl | exact absurd heq (by decide)
    | nil => cases value <;> exact absurd heq (by decide)
  | nil =>
    cases c' with
    | number y => exact absurd hchars.symm (sexp_number_ne h' rfl rfl (by decide))
    | text value' =>
      rw [text_eq] at hchars
      cases (List.cons.inj hchars).1
    | bool value' => cases value' <;> exact absurd heq (by decide)
    | nil => rfl

/-- A way to read plain constants back from their texts. -/
structure Reading where
  /-- The constant of a text. -/
  value : String → Constant
  /-- Plain constants are read back. -/
  value_sexp : ∀ c : Constant, c.Plain → value c.sexp = c

theorem nonempty_reading : Nonempty Reading := by
  have : Nonempty Constant := ⟨.nil⟩
  have hinj : Set.InjOn sexp {c | c.Plain} := fun c h c' h' heq => sexp_inj h h' heq
  exact ⟨Function.invFunOn sexp {c | c.Plain}, fun c h => hinj.leftInvOn_invFunOn h⟩

end Constant

/-! ## Reading -/

/-- The expression with the word in front and the parts behind it. -/
def Expr.ofParts : String → List Expr → Expr
  | "group", [inner] => .grouping .blank inner
  | "-", [operand] => .unary .blank .negate operand
  | "!", [operand] => .unary .blank .not operand
  | "+", [left, right] => .binary .blank .add left right .blank
  | "-", [left, right] => .binary .blank .subtract left right .blank
  | "*", [left, right] => .binary .blank .multiply left right .blank
  | "/", [left, right] => .binary .blank .divide left right .blank
  | "==", [left, right] => .binary .blank .equal left right .blank
  | "!=", [left, right] => .binary .blank .notEqual left right .blank
  | "<", [left, right] => .binary .blank .less left right .blank
  | "<=", [left, right] => .binary .blank .lessEqual left right .blank
  | ">", [left, right] => .binary .blank .greater left right .blank
  | ">=", [left, right] => .binary .blank .greaterEqual left right .blank
  | "and", [left, right] => .logical .blank .and left right
  | "or", [left, right] => .logical .blank .or left right
  | "=", [.variable _ name, value] => .assign .blank name value
  | "call", callee :: arguments => .call .blank callee arguments .blank
  | "new", callee :: arguments => .new .blank callee arguments .blank
  | ".", [object, .variable _ name] => .get .blank object name .blank
  | ".=", [object, .variable _ name, value] => .set .blank object name .blank value
  | _, _ => .this .blank

mutual
/-- The expression of a bracketed text, with a reading of its constants. -/
def Expr.ofBracketed (read : Constant.Reading) : Bracketed → Expr
  | .atom text =>
    if isName text then .variable .blank text
    else if text = "this" then .this .blank
    else .literal .blank (read.value text)
  | .list (.atom word :: items) => Expr.ofParts word (Expr.ofBracketedAll read items)
  | .list _ => .this .blank

/-- The expressions of bracketed texts. -/
def Expr.ofBracketedAll (read : Constant.Reading) : List Bracketed → List Expr
  | [] => []
  | x :: xs => Expr.ofBracketed read x :: Expr.ofBracketedAll read xs
end

/-- The text of an atom. -/
def Bracketed.text : Bracketed → String
  | atom text => text
  | list _ => ""

/-- The declaration in a statement. -/
def Stmt.decl? : Stmt → Option FunctionDecl
  | .function decl _ => some decl
  | _ => none

/-- The statement with the word in front and the parts behind it, which are given as texts and as
statements; none if the word is not one of a statement. -/
def Stmt.ofParts : String → List Bracketed → List Stmt → Option Stmt
  | "print", _, [.expression value _] => some (.print value .blank)
  | "var", _, [.expression (.variable _ name) _] => some (.var name none .blank)
  | "var", _, [.expression (.variable _ name) _, .expression value _] =>
    some (.var name (some value) .blank)
  | "block", _, body => some (.block body .blank)
  | "if", _, [.expression condition _, thenBranch] =>
    some (.ifElse condition thenBranch none .blank)
  | "if", _, [.expression condition _, thenBranch, elseBranch] =>
    some (.ifElse condition thenBranch (some elseBranch) .blank)
  | "while", _, [.expression condition _, body] => some (.while condition body .blank)
  | "fun", .atom name :: .list params :: _, _ :: _ :: body =>
    some (.function (.mk 0 name (params.map Bracketed.text) body .blank) .blank)
  | "class", _, .expression (.variable _ name) _ :: methods =>
    some (.class name (methods.filterMap Stmt.decl?) .blank)
  | "return", _, [] => some (.return none .blank)
  | "return", _, [.expression value _] => some (.return (some value) .blank)
  | _, _, _ => none

mutual
/-- The statement of a bracketed text, with a reading of its constants. -/
def Stmt.ofBracketed (read : Constant.Reading) : Bracketed → Stmt
  | .list (.atom word :: items) =>
    (Stmt.ofParts word items (Stmt.ofBracketedAll read items)).getD
      (.expression (Expr.ofBracketed read (.list (.atom word :: items))) .blank)
  | .atom text => .expression (Expr.ofBracketed read (.atom text)) .blank
  | .list items => .expression (Expr.ofBracketed read (.list items)) .blank

/-- The statements of bracketed texts. -/
def Stmt.ofBracketedAll (read : Constant.Reading) : List Bracketed → List Stmt
  | [] => []
  | x :: xs => Stmt.ofBracketed read x :: Stmt.ofBracketedAll read xs
end

/-! ## Expressions are read back -/

section

variable {read : Constant.Reading}

/-- The expression is read back from its text, also as a statement. -/
structure Expr.ReadsBack (read : Constant.Reading) (e : Expr) : Prop where
  /-- The text can be taken apart. -/
  proper : e.bracketed.Proper
  /-- It is read as the expression. -/
  expr : Expr.ofBracketed read e.bracketed = e
  /-- It is read as the expression statement. -/
  stmt : Stmt.ofBracketed read e.bracketed = .expression e .blank

namespace Expr.ReadsBack

theorem of_all {es : List Expr} (h : ∀ e ∈ es, e.ReadsBack read) :
    Bracketed.ProperAll (bracketedAll es) ∧ ofBracketedAll read (bracketedAll es) = es := by
  induction es with
  | nil => exact ⟨trivial, rfl⟩
  | cons e es ih =>
    obtain ⟨he, hes⟩ := List.forall_mem_cons.1 h
    obtain ⟨hproper, hread⟩ := ih hes
    exact ⟨⟨he.proper, hproper⟩, by rw [bracketedAll, ofBracketedAll, he.expr, hread]⟩

theorem atom {text : String} {e : Expr} (hatom : IsAtom text.toList)
    (hbracketed : e.bracketed = .atom text) (hread : ofBracketed read (.atom text) = e) :
    e.ReadsBack read := by
  refine ⟨hbracketed ▸ hatom, hbracketed ▸ hread, ?_⟩
  rw [hbracketed, Stmt.ofBracketed, hread]

/-- An expression with parts is read back if the parts are. -/
theorem node {word : String} {parts : List Expr} {e : Expr} (hword : IsWord word.toList)
    (hparts : ∀ part ∈ parts, part.ReadsBack read)
    (hbracketed : e.bracketed = .list (.atom word :: bracketedAll parts))
    (hread : ofParts word parts = e)
    (hstmt : ∀ items statements, Stmt.ofParts word items statements = none) :
    e.ReadsBack read := by
  obtain ⟨hproper, hall⟩ := of_all hparts
  have hexpr : ofBracketed read (.list (.atom word :: bracketedAll parts)) = e := by
    rw [ofBracketed, hall, hread]
  refine ⟨hbracketed ▸ ⟨.word hword, hproper⟩, hbracketed ▸ hexpr, ?_⟩
  rw [hbracketed, Stmt.ofBracketed, hstmt, hexpr, Option.getD_none]

theorem of_name {name : String} (hname : isName name = true) :
    (Expr.variable .blank name).ReadsBack read :=
  atom (.word (isWord_of_isName hname)) rfl (by rw [ofBracketed, if_pos hname])

theorem this : (Expr.this .blank).ReadsBack read :=
  atom (.word (by decide)) rfl (by rw [ofBracketed]; rfl)

theorem literal {value : Constant} (hvalue : value.Plain) :
    (Expr.literal .blank value).ReadsBack read := by
  obtain ⟨hname, hthis⟩ := Constant.sexp_not_name hvalue
  refine atom (Constant.isAtom_sexp hvalue) rfl ?_
  rw [ofBracketed, if_neg (by simp [hname]), if_neg hthis, read.value_sexp value hvalue]

theorem unary {op : UnaryOp} {operand : Expr} (h : operand.ReadsBack read) :
    (Expr.unary .blank op operand).ReadsBack read := by
  have hparts : ∀ part ∈ [operand], part.ReadsBack read := by simpa using h
  cases op <;> exact node (by decide) hparts rfl rfl fun _ _ => rfl

theorem operator {l : Level} {kind : Token.Kind} {op : Operator} {left right : Expr}
    (hsign : Grammar.BinarySign l kind op) (hleft : left.ReadsBack read)
    (hright : right.ReadsBack read) : (op.apply .blank left right .blank).ReadsBack read := by
  have hparts : ∀ part ∈ [left, right], part.ReadsBack read := by simp [hleft, hright]
  cases hsign <;> exact node (by decide) hparts rfl rfl fun _ _ => rfl

theorem grouping {inner : Expr} (h : inner.ReadsBack read) :
    (Expr.grouping .blank inner).ReadsBack read := by
  have hparts : ∀ part ∈ [inner], part.ReadsBack read := by simpa using h
  exact node (by decide) hparts rfl rfl fun _ _ => rfl

theorem assign {name : String} {value : Expr} (hname : isName name = true)
    (hvalue : value.ReadsBack read) : (Expr.assign .blank name value).ReadsBack read := by
  have hparts : ∀ part ∈ [.variable .blank name, value], part.ReadsBack read := by
    simp [of_name hname, hvalue]
  exact node (by decide) hparts rfl rfl fun _ _ => rfl

theorem call {callee : Expr} {arguments : List Expr} (hcallee : callee.ReadsBack read)
    (harguments : ∀ e ∈ arguments, e.ReadsBack read) :
    (Expr.call .blank callee arguments .blank).ReadsBack read :=
  node (by decide) (List.forall_mem_cons.2 ⟨hcallee, harguments⟩) rfl rfl fun _ _ => rfl

theorem new {callee : Expr} {arguments : List Expr} (hcallee : callee.ReadsBack read)
    (harguments : ∀ e ∈ arguments, e.ReadsBack read) :
    (Expr.new .blank callee arguments .blank).ReadsBack read :=
  node (by decide) (List.forall_mem_cons.2 ⟨hcallee, harguments⟩) rfl rfl fun _ _ => rfl

theorem get {object : Expr} {name : String} (hobject : object.ReadsBack read)
    (hname : isName name = true) : (Expr.get .blank object name .blank).ReadsBack read := by
  have hparts : ∀ part ∈ [object, .variable .blank name], part.ReadsBack read := by
    simp [hobject, of_name hname]
  exact node (by decide) hparts rfl rfl fun _ _ => rfl

theorem set {object value : Expr} {name : String} (hobject : object.ReadsBack read)
    (hname : isName name = true) (hvalue : value.ReadsBack read) :
    (Expr.set .blank object name .blank value).ReadsBack read := by
  have hparts : ∀ part ∈ [object, .variable .blank name, value], part.ReadsBack read := by
    simp [hobject, of_name hname, hvalue]
  exact node (by decide) hparts rfl rfl fun _ _ => rfl

end Expr.ReadsBack

/-- The name is spelled like an identifier, and the value is finite or has no quotes. -/
structure Token.Plain (t : Token) : Prop where
  /-- Identifiers are spelled like identifiers. -/
  name : t.kind = .identifier → isName t.lexeme = true
  /-- Written values are plain. -/
  constant : ∀ c : Constant, Grammar.Written t c → c.Plain

section

open Grammar

mutual
/-- Every expression that is derived from plain tokens is read back. -/
theorem Expr.ReadsBack.of_reads {c : Category} {ts : List Token} {e : Expr} :
    Reads c ts e → (∀ t ∈ ts, t.Plain) → e.ReadsBack read
  | .of _ hinner, hts => of_reads hinner hts
  | .assign hname _ hvalue, hts => by
    simp only [List.forall_mem_cons] at hts
    exact .assign (hts.1.name hname) (of_reads hvalue hts.2.2)
  | .set hobject _ hname _ hvalue, hts => by
    simp only [List.forall_mem_append, List.forall_mem_cons] at hts
    obtain ⟨hobjects, -, hplain, -, hvalues⟩ := hts
    exact .set (of_reads hobject hobjects) (hplain.name hname) (of_reads hvalue hvalues)
  | .operator hleft hsign _ hright, hts => by
    simp only [List.forall_mem_append, List.forall_mem_cons] at hts
    exact .operator hsign (of_reads hleft hts.1) (of_reads hright hts.2.2)
  | .unary _ hoperand, hts => .unary (of_reads hoperand (List.forall_mem_cons.1 hts).2)
  | .bareNew _ hcallee, hts =>
    .new (of_readsClass hcallee (List.forall_mem_cons.1 hts).2) (by simp)
  | .new _ hcallee harguments, hts => by
    simp only [List.forall_mem_append, List.forall_mem_cons] at hts
    exact .new (of_readsClass hcallee hts.1.2) (of_arguments harguments hts.2)
  | .call hcallee harguments, hts => by
    simp only [List.forall_mem_append] at hts
    exact .call (of_reads hcallee hts.1) (of_arguments harguments hts.2)
  | .get hobject _ hname, hts => by
    simp only [List.forall_mem_append, List.forall_mem_cons] at hts
    exact .get (of_reads hobject hts.1) (hts.2.2.1.name hname)
  | .literal hvalue, hts => .literal ((hts _ (List.mem_singleton_self _)).constant _ hvalue)
  | .this _, _ => .this
  | .name hkind, hts => .of_name ((hts _ (List.mem_singleton_self _)).name hkind)
  | .grouping _ hinner _, hts => by
    simp only [List.forall_mem_append, List.forall_mem_cons] at hts
    exact .grouping (of_reads hinner hts.1.2)

theorem Expr.ReadsBack.of_readsClass {ts : List Token} {e : Expr} :
    ReadsClass ts e → (∀ t ∈ ts, t.Plain) → e.ReadsBack read
  | .primary h, hts => of_reads h hts
  | .get hobject _ hname, hts => by
    simp only [List.forall_mem_append, List.forall_mem_cons] at hts
    exact .get (of_readsClass hobject hts.1) (hts.2.2.1.name hname)

theorem Expr.ReadsBack.of_arguments {ts : List Token} {es : List Expr} :
    Arguments ts es → (∀ t ∈ ts, t.Plain) → ∀ e ∈ es, e.ReadsBack read
  | .none .., _ => by simp
  | .some _ hvalues _ _, hts => by
    simp only [List.forall_mem_append, List.forall_mem_cons] at hts
    exact of_values hvalues hts.1.2

theorem Expr.ReadsBack.of_values {ts : List Token} {es : List Expr} :
    Values ts es → (∀ t ∈ ts, t.Plain) → ∀ e ∈ es, e.ReadsBack read
  | .one hvalue, hts => by simpa using of_reads hvalue hts
  | .more hvalue _ hvalues, hts => by
    simp only [List.forall_mem_append, List.forall_mem_cons] at hts
    exact List.forall_mem_cons.2 ⟨of_reads hvalue hts.1, of_values hvalues hts.2.2⟩
end

end

/-! ## Statements are read back -/

/-- The statement is read back from its text. -/
structure Stmt.ReadsBack (read : Constant.Reading) (s : Stmt) : Prop where
  /-- The text can be taken apart. -/
  proper : s.bracketed.Proper
  /-- It is read as the statement. -/
  stmt : Stmt.ofBracketed read s.bracketed = s

/-- The function is read back from its text. -/
abbrev FunctionDecl.ReadsBack (read : Constant.Reading) (f : FunctionDecl) : Prop :=
  (Stmt.function f .blank).ReadsBack read

namespace Stmt.ReadsBack

theorem of_all {ss : List Stmt} (h : ∀ s ∈ ss, s.ReadsBack read) :
    Bracketed.ProperAll (bracketedAll ss) ∧ ofBracketedAll read (bracketedAll ss) = ss := by
  induction ss with
  | nil => exact ⟨trivial, rfl⟩
  | cons s ss ih =>
    obtain ⟨hs, hss⟩ := List.forall_mem_cons.1 h
    obtain ⟨hproper, hread⟩ := ih hss
    exact ⟨⟨hs.proper, hproper⟩, by rw [bracketedAll, ofBracketedAll, hs.stmt, hread]⟩

theorem of_expr {e : Expr} (h : e.ReadsBack read) : (Stmt.expression e .blank).ReadsBack read :=
  ⟨h.proper, h.stmt⟩

/-- A statement with parts is read back if the parts are. -/
theorem node {word : String} {parts : List Stmt} {s : Stmt} (hword : IsWord word.toList)
    (hparts : ∀ part ∈ parts, part.ReadsBack read)
    (hbracketed : s.bracketed = .list (.atom word :: bracketedAll parts))
    (hread : ∀ items, ofParts word items parts = some s) : s.ReadsBack read := by
  obtain ⟨hproper, hall⟩ := of_all hparts
  refine ⟨hbracketed ▸ ⟨.word hword, hproper⟩, ?_⟩
  rw [hbracketed, ofBracketed, hall, hread, Option.getD_some]

theorem print {value : Expr} (h : value.ReadsBack read) :
    (Stmt.print value .blank).ReadsBack read := by
  have hparts : ∀ part ∈ [Stmt.expression value .blank], part.ReadsBack read := by
    simpa using of_expr h
  exact node (by decide) hparts rfl fun _ => rfl

theorem return_none : (Stmt.return none .blank).ReadsBack read := by
  have hparts : ∀ part ∈ ([] : List Stmt), part.ReadsBack read := by simp
  exact node (by decide) hparts rfl fun _ => rfl

theorem return_some {value : Expr} (h : value.ReadsBack read) :
    (Stmt.return (some value) .blank).ReadsBack read := by
  have hparts : ∀ part ∈ [Stmt.expression value .blank], part.ReadsBack read := by
    simpa using of_expr h
  exact node (by decide) hparts rfl fun _ => rfl

theorem var_none {name : String} (hname : isName name = true) :
    (Stmt.var name none .blank).ReadsBack read := by
  have hparts : ∀ part ∈ [Stmt.expression (.variable .blank name) .blank],
      part.ReadsBack read := by
    simpa using of_expr (.of_name hname)
  exact node (by decide) hparts rfl fun _ => rfl

theorem var_some {name : String} {value : Expr} (hname : isName name = true)
    (h : value.ReadsBack read) : (Stmt.var name (some value) .blank).ReadsBack read := by
  have hparts : ∀ part ∈ [Stmt.expression (.variable .blank name) .blank,
      .expression value .blank], part.ReadsBack read := by
    simp [of_expr (.of_name hname), of_expr h]
  exact node (by decide) hparts rfl fun _ => rfl

theorem block {body : List Stmt} (h : ∀ s ∈ body, s.ReadsBack read) :
    (Stmt.block body .blank).ReadsBack read :=
  node (by decide) h rfl fun _ => rfl

theorem ifThen {condition : Expr} {thenBranch : Stmt} (hcondition : condition.ReadsBack read)
    (hthen : thenBranch.ReadsBack read) :
    (Stmt.ifElse condition thenBranch none .blank).ReadsBack read := by
  have hparts : ∀ part ∈ [Stmt.expression condition .blank, thenBranch],
      part.ReadsBack read := by
    simp [of_expr hcondition, hthen]
  exact node (by decide) hparts rfl fun _ => rfl

theorem ifElse {condition : Expr} {thenBranch elseBranch : Stmt}
    (hcondition : condition.ReadsBack read) (hthen : thenBranch.ReadsBack read)
    (helse : elseBranch.ReadsBack read) :
    (Stmt.ifElse condition thenBranch (some elseBranch) .blank).ReadsBack read := by
  have hparts : ∀ part ∈ [Stmt.expression condition .blank, thenBranch, elseBranch],
      part.ReadsBack read := by
    simp [of_expr hcondition, hthen, helse]
  exact node (by decide) hparts rfl fun _ => rfl

theorem whileLoop {condition : Expr} {body : Stmt} (hcondition : condition.ReadsBack read)
    (hbody : body.ReadsBack read) : (Stmt.while condition body .blank).ReadsBack read := by
  have hparts : ∀ part ∈ [Stmt.expression condition .blank, body], part.ReadsBack read := by
    simp [of_expr hcondition, hbody]
  exact node (by decide) hparts rfl fun _ => rfl

theorem functionDeclaration {name : String} {params : List String} {body : List Stmt}
    (hname : isName name = true) (hparams : ∀ param ∈ params, isName param = true)
    (hbody : ∀ s ∈ body, s.ReadsBack read) :
    FunctionDecl.ReadsBack read (.mk 0 name params body .blank) := by
  obtain ⟨hproper, hall⟩ := of_all hbody
  have hnames : Bracketed.ProperAll (params.map .atom) := by
    induction params with
    | nil => trivial
    | cons param params ih =>
      obtain ⟨hparam, hparams⟩ := List.forall_mem_cons.1 hparams
      exact ⟨.word (isWord_of_isName hparam), ih hparams⟩
  have htexts : (params.map Bracketed.atom).map Bracketed.text = params := by
    rw [List.map_map]
    exact List.map_id params
  refine ⟨⟨.word (by decide), .word (isWord_of_isName hname), hnames, hproper⟩, ?_⟩
  rw [Stmt.bracketed, FunctionDecl.bracketed, ofBracketed, ofBracketedAll, ofBracketedAll, hall,
    ofParts, htexts, Option.getD_some]

theorem bracketedAll_functions (fs : List FunctionDecl) :
    bracketedAll (fs.map fun f => .function f .blank) = FunctionDecl.bracketedAll fs := by
  induction fs with
  | nil => rfl
  | cons f fs ih => rw [List.map_cons, bracketedAll, ih, bracketed, FunctionDecl.bracketedAll]

theorem classDeclaration {name : String} {methods : List FunctionDecl} (hname : isName name = true)
    (hmethods : ∀ f ∈ methods, f.ReadsBack read) :
    (Stmt.class name methods .blank).ReadsBack read := by
  have hparts : ∀ part ∈ Stmt.expression (.variable .blank name) .blank ::
      methods.map fun f => .function f .blank, part.ReadsBack read :=
    List.forall_mem_cons.2 ⟨of_expr (.of_name hname), List.forall_mem_map.2 hmethods⟩
  have hword : IsWord "class".toList := by decide
  have hdecls : (methods.map fun f => .function f .blank).filterMap decl? = methods := by
    rw [List.filterMap_map]
    exact List.filterMap_some
  refine node hword hparts ?_ fun items => ?_
  · rw [bracketed, bracketedAll, bracketedAll_functions]
    rfl
  · rw [ofParts, hdecls]

end Stmt.ReadsBack

section

open Grammar

theorem isName_of_names {ts : List Token} {names : List String} (h : Names ts names)
    (hts : ∀ t ∈ ts, t.Plain) : ∀ name ∈ names, isName name = true := by
  induction h with
  | one hname => simpa using (hts _ (List.mem_singleton_self _)).name hname
  | more hname _ _ ih =>
    simp only [List.forall_mem_cons] at hts
    exact List.forall_mem_cons.2 ⟨hts.1.name hname, ih hts.2.2⟩

namespace Stmt.ReadsBack

theorem of_expressionStatement {ts : List Token} {s : Stmt} (h : ExpressionStatement ts s)
    (hts : ∀ t ∈ ts, t.Plain) : s.ReadsBack read := by
  obtain ⟨hvalue, -⟩ := h
  exact of_expr (.of_reads hvalue (List.forall_mem_append.1 hts).1)

theorem of_varDeclaration {ts : List Token} {s : Stmt} (h : VarDeclaration ts s)
    (hts : ∀ t ∈ ts, t.Plain) : s.ReadsBack read := by
  cases h with
  | bare _ hname _ =>
    simp only [List.forall_mem_cons] at hts
    exact var_none (hts.2.1.name hname)
  | initialized _ hname _ hvalue _ =>
    simp only [List.forall_mem_append, List.forall_mem_cons] at hts
    exact var_some (hts.1.2.1.name hname) (.of_reads hvalue hts.1.2.2.2)

theorem of_loopStart {ts : List Token} {s : Stmt} (h : LoopStart ts (some s))
    (hts : ∀ t ∈ ts, t.Plain) : s.ReadsBack read := by
  cases h with
  | var h => exact of_varDeclaration h hts
  | expression h => exact of_expressionStatement h hts

/-- The tree of a `for` statement is read back, although its words are those of other statements. -/
theorem loopTree {initializer : Option Stmt} {condition : Expr} {increment : Option Expr}
    {body : Stmt} (hinitializer : ∀ s ∈ initializer, s.ReadsBack read)
    (hcondition : condition.ReadsBack read) (hincrement : ∀ e ∈ increment, e.ReadsBack read)
    (hbody : body.ReadsBack read) :
    (Grammar.loopTree initializer condition increment body).ReadsBack read := by
  have hloop : (Grammar.loopTree none condition increment body).ReadsBack read := by
    cases increment with
    | none => exact whileLoop hcondition hbody
    | some increment =>
      have hstep : (Stmt.expression increment .blank).ReadsBack read :=
        of_expr (hincrement increment rfl)
      exact whileLoop hcondition (block (by simp [hbody, hstep]))
  cases initializer with
  | none => exact hloop
  | some initializer =>
    have hstart := hinitializer initializer rfl
    cases increment <;> exact block (by simpa using ⟨hstart, hloop⟩)

end Stmt.ReadsBack

theorem Expr.ReadsBack.of_maybe {ts : List Token} {e : Expr} (h : Maybe ts (some e))
    (hts : ∀ t ∈ ts, t.Plain) : e.ReadsBack read := by
  obtain _ | hvalue := h
  exact .of_reads hvalue hts

mutual
/-- Every statement that is derived from plain tokens is read back. -/
theorem Stmt.ReadsBack.of_declares {ts : List Token} {s : Stmt} :
    Declares ts s → (∀ t ∈ ts, t.Plain) → s.ReadsBack read
  | .class _ hname _ hmethods _, hts => by
    simp only [List.forall_mem_append, List.forall_mem_cons] at hts
    exact .classDeclaration (hts.1.2.1.name hname) (of_methods hmethods hts.1.2.2.2)
  | .function _ hdecl, hts => of_defines hdecl (List.forall_mem_cons.1 hts).2
  | .var h, hts => .of_varDeclaration h hts
  | .statement h, hts => of_states h hts

theorem Stmt.ReadsBack.of_states {isOpen : Bool} {ts : List Token} {s : Stmt} :
    States isOpen ts s → (∀ t ∈ ts, t.Plain) → s.ReadsBack read
  | .expression h, hts => .of_expressionStatement h hts
  | .print _ hvalue _, hts => by
    simp only [List.forall_mem_append, List.forall_mem_cons] at hts
    exact .print (.of_reads hvalue hts.1.2)
  | .return _ hvalue _, hts => by
    simp only [List.forall_mem_append, List.forall_mem_cons] at hts
    cases hvalue with
    | none => exact .return_none
    | some hvalue => exact .return_some (.of_reads hvalue hts.1.2)
  | .block _ hbody _, hts => by
    simp only [List.forall_mem_append, List.forall_mem_cons] at hts
    exact .block (of_items hbody hts.1.2)
  | .ifThen _ _ hcondition _ hthen, hts => by
    simp only [List.forall_mem_append, List.forall_mem_cons] at hts
    exact .ifThen (.of_reads hcondition hts.1.2.2) (of_states hthen hts.2.2)
  | .ifElse _ _ hcondition _ hthen _ helse, hts => by
    simp only [List.forall_mem_append, List.forall_mem_cons] at hts
    obtain ⟨⟨⟨-, -, hconditions⟩, -, hthens⟩, -, helses⟩ := hts
    exact .ifElse (.of_reads hcondition hconditions) (of_states hthen hthens)
      (of_states helse helses)
  | .while _ _ hcondition _ hbody, hts => by
    simp only [List.forall_mem_append, List.forall_mem_cons] at hts
    exact .whileLoop (.of_reads hcondition hts.1.2.2) (of_states hbody hts.2.2)
  | .for _ _ hinitializer hcondition _ hincrement _ hbody, hts => by
    simp only [List.forall_mem_append, List.forall_mem_cons] at hts
    obtain ⟨⟨⟨⟨-, -, hstarts⟩, hconditions⟩, -, hincrements⟩, -, hbodies⟩ := hts
    refine .loopTree (fun s hs => ?_) ?_ (fun e he => ?_) (of_states hbody hbodies)
    · exact .of_loopStart (hs ▸ hinitializer) hstarts
    · cases hcondition with
      | none => exact .literal trivial
      | some hcondition => exact .of_reads hcondition hconditions
    · exact .of_maybe (he ▸ hincrement) hincrements

theorem Stmt.ReadsBack.of_defines {ts : List Token} {f : FunctionDecl} :
    Defines ts f → (∀ t ∈ ts, t.Plain) → f.ReadsBack read
  | .mk hname _ hparams _ _ hbody _, hts => by
    simp only [List.forall_mem_append, List.forall_mem_cons] at hts
    obtain ⟨⟨⟨hplain, -, hnames⟩, -, -, hbodies⟩, -⟩ := hts
    refine .functionDeclaration (hplain.name hname) ?_ (of_items hbody hbodies)
    cases hparams with
    | none => simp
    | some hparams _ => exact isName_of_names hparams hnames

theorem Stmt.ReadsBack.of_items {ts : List Token} {ss : List Stmt} :
    Items ts ss → (∀ t ∈ ts, t.Plain) → ∀ s ∈ ss, s.ReadsBack read
  | .nil, _ => by simp
  | .cons hfirst hothers, hts => by
    obtain ⟨hts, hus⟩ := List.forall_mem_append.1 hts
    exact List.forall_mem_cons.2 ⟨of_declares hfirst hts, of_items hothers hus⟩

theorem Stmt.ReadsBack.of_methods {ts : List Token} {fs : List FunctionDecl} :
    Methods ts fs → (∀ t ∈ ts, t.Plain) → ∀ f ∈ fs, f.ReadsBack read
  | .nil, _ => by simp
  | .cons hfirst hothers, hts => by
    obtain ⟨hts, hus⟩ := List.forall_mem_append.1 hts
    exact List.forall_mem_cons.2 ⟨of_defines hfirst hts, of_methods hothers hus⟩
end

end

end

/-! ## Programs -/

open Grammar

/-- An identifier of a text is spelled like one. -/
theorem isName_of_scan {source : String} {tokens : List Token} (h : scan source = .ok tokens)
    {t : Token} (ht : t ∈ tokens) (hkind : t.kind = .identifier) : isName t.lexeme = true := by
  have hcut := Cutting.isOf_ofSource source
  have hfits : t.piece.Fits [] := by
    obtain ⟨-, rfl⟩ := hcut.scan_eq_ok.1 h
    rcases List.mem_append.1 ht with ht | ht
    · exact hcut.fits_last ht
    · rw [List.mem_singleton.1 ht] at hkind
      cases hkind
  have hlexeme := hfits.1
  rw [hkind] at hlexeme
  obtain ⟨first, others, htext, hfirst, hothers⟩ := hlexeme.of_identifier
  have hpart : Piece.isWordPart first = true := by simp [Piece.isWordPart, hfirst]
  have hall : others.all Piece.isWordPart = true := List.all_eq_true.2 hothers
  simp [isName, htext, hfirst, hpart, hall, keyword?_of_scan h ht hkind]

/-- The number is finite, or the string has no quotes. -/
def Literal.Plain : Literal → Prop
  | .integer value => Binary64.magnitude (Binary64.ofInt value) < Binary64.infinity
  | .float value => Binary64.magnitude value < Binary64.infinity
  | .text value => '"' ∉ value.toList

instance : DecidablePred Literal.Plain
  | .integer _ => inferInstanceAs (Decidable (_ < _))
  | .float _ => inferInstanceAs (Decidable (_ < _))
  | .text _ => inferInstanceAs (Decidable (_ ∉ _))

theorem Grammar.Written.plain {t : Token} {c : Constant} (h : Written t c)
    (ht : ∀ l ∈ t.literal, l.Plain) : c.Plain := by
  cases h with
  | integer _ hvalue => exact ht _ hvalue
  | float _ hvalue => exact ht _ hvalue
  | text _ hvalue => exact ht _ hvalue
  | _ => trivial

/-- The statements of a program without errors are read back, if numbers are finite and strings
have no quotes. -/
theorem Parsed.readsBack {source : String} {tokens : List Token} {supply : Supply}
    (read : Constant.Reading) (hscan : scan source = .ok tokens)
    (hplain : ∀ t ∈ tokens, ∀ l ∈ t.literal, l.Plain)
    (herrors : (Parsed.ofTokens supply tokens).errors = []) :
    ∀ s ∈ (Parsed.ofTokens supply tokens).program.bare.statements, s.ReadsBack read := by
  have htokens : ∀ t ∈ tokens, t.Plain := fun t ht =>
    ⟨isName_of_scan hscan ht, fun c hc => hc.plain (hplain t ht)⟩
  have hderives := Parsed.derives (endsOnce_of_scan hscan) herrors
  generalize (Parsed.ofTokens supply tokens).program.bare = tree at hderives
  obtain ⟨hitems, -⟩ := hderives
  exact .of_items hitems (List.forall_mem_append.1 htokens).1

/-- Two programs without errors, with finite numbers and without quotes in their strings, are
written in the same way exactly if they differ in nothing but numbers and places. -/
theorem program_sexp_unambiguous {source source' : String} {tokens tokens' : List Token}
    (supply supply' : Supply) (hscan : scan source = .ok tokens)
    (hscan' : scan source' = .ok tokens') (hplain : ∀ t ∈ tokens, ∀ l ∈ t.literal, l.Plain)
    (hplain' : ∀ t ∈ tokens', ∀ l ∈ t.literal, l.Plain)
    (herrors : (Parsed.ofTokens supply tokens).errors = [])
    (herrors' : (Parsed.ofTokens supply' tokens').errors = []) :
    (Parsed.ofTokens supply tokens).program.sexp =
        (Parsed.ofTokens supply' tokens').program.sexp ↔
      (Parsed.ofTokens supply tokens).program.bare =
        (Parsed.ofTokens supply' tokens').program.bare := by
  obtain ⟨read⟩ := Constant.nonempty_reading
  obtain ⟨hproper, hread⟩ :=
    Stmt.ReadsBack.of_all (Parsed.readsBack read hscan hplain herrors)
  obtain ⟨hproper', hread'⟩ :=
    Stmt.ReadsBack.of_all (Parsed.readsBack read hscan' hplain' herrors')
  rw [← Program.sexp_bare, ← Program.sexp_bare (Parsed.ofTokens supply' tokens').program]
  constructor
  · intro hsame
    have hchars := congrArg String.toList hsame
    rw [Program.toList_sexp, Program.toList_sexp] at hchars
    have htexts := Bracketed.charsLines_inj hproper hproper' hchars
    rw [htexts, hread'] at hread
    exact congrArg Program.mk hread.symm
  · intro hsame
    rw [hsame]

/-- A minus sign in front of an operand and one between two operands. -/
theorem program_sexp_unambiguous_minus :
    ∃ tokens tokens' : List Token,
      scan "-a - \"b (1\" - 7;" = .ok tokens ∧ scan "-(a - \"b (1\") - 7;" = .ok tokens' ∧
      (∀ t ∈ tokens, ∀ l ∈ t.literal, l.Plain) ∧ (∀ t ∈ tokens', ∀ l ∈ t.literal, l.Plain) ∧
      (Parsed.ofTokens .initial tokens).errors = [] ∧
      (Parsed.ofTokens .initial tokens').errors = [] ∧
      ((Parsed.ofTokens .initial tokens).program.sexp =
          (Parsed.ofTokens .initial tokens').program.sexp ↔
        (Parsed.ofTokens .initial tokens).program.bare =
          (Parsed.ofTokens .initial tokens').program.bare) := by
  have of_scan (source : String) (h : (scan source).toOption.any fun tokens =>
      (tokens.all fun t => t.literal.all fun l => decide l.Plain) &&
        (Parsed.ofTokens .initial tokens).errors.isEmpty) :
      ∃ tokens, scan source = .ok tokens ∧ (∀ t ∈ tokens, ∀ l ∈ t.literal, l.Plain) ∧
        (Parsed.ofTokens .initial tokens).errors = [] := by
    cases hscan : scan source with
    | error errors =>
      rw [hscan] at h
      exact Bool.noConfusion h
    | ok tokens =>
      rw [hscan] at h
      obtain ⟨hplain, herrors⟩ := Bool.and_eq_true_iff.1 h
      refine ⟨tokens, rfl, fun t ht l hl => ?_, List.isEmpty_iff.1 herrors⟩
      have hall := List.all_eq_true.1 hplain t ht
      rw [Option.mem_def.1 hl] at hall
      exact of_decide_eq_true hall
  obtain ⟨tokens, hscan, hplain, herrors⟩ := of_scan "-a - \"b (1\" - 7;" (by decide +kernel)
  obtain ⟨tokens', hscan', hplain', herrors'⟩ :=
    of_scan "-(a - \"b (1\") - 7;" (by decide +kernel)
  exact ⟨tokens, tokens', hscan, hscan', hplain, hplain', herrors, herrors',
    program_sexp_unambiguous .initial .initial hscan hscan' hplain hplain' herrors herrors'⟩

end Lox
