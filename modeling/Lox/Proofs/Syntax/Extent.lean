import Lox.Proofs.Scope.Occurrence
import Lox.Proofs.Syntax.Grammar
import Lox.Proofs.Syntax.Roles

/-!
# Extents of trees

`Extent.Expression tokens i j e` says that the expression was read from the tokens from `i` up to
`j`: its own tokens are of the kinds that the grammar asks for, its parts were read from the tokens
between these, and its places are those of the tokens.  Statements and functions have extents in
the same way.

**Places.** The span of an expression starts with its first token and ends with its last one
(`Extent.Expression.fromTo`).  If the tokens stand one behind the other, everything in it lies
inside of its span (`Extent.Expression.encloses`).

**Loops.** The tree of a `for` statement is made of several statements with one span.  Its
condition, if it is left out, is a `true` at the semicolon after it.
-/

namespace Lox

/-! ## Stretches of tokens -/

/-- The tokens stand one behind the other. -/
def Ordered (tokens : List Token) : Prop :=
  tokens.Pairwise fun t t' => t.span.stop ≤ t'.span.offset

namespace Span

/-- One stretch lies inside the other. -/
def Within (s t : Span) : Prop := t.offset ≤ s.offset ∧ s.stop ≤ t.stop

/-- All stretches lie inside this one. -/
def Encloses (t : Span) (ss : List Span) : Prop := ∀ s ∈ ss, s.Within t

/-- The stretch starts where token `i` does, on its line, and ends where the last token before
token `j` does. -/
structure FromTo (tokens : List Token) (i j : Nat) (s : Span) : Prop where
  lt : i < j
  first : ∃ t, tokens[i]? = some t ∧ s.offset = t.span.offset ∧ s.line = t.span.line
  last : ∃ t, tokens[j - 1]? = some t ∧ s.stop = t.span.stop

end Span

section

variable {tokens : List Token} {i j k l : Nat} {s s' : Span}

theorem Ordered.stop_le_offset (h : Ordered tokens) {t t' : Token} (ht : tokens[i]? = some t)
    (ht' : tokens[j]? = some t') (hlt : i < j) : t.span.stop ≤ t'.span.offset := by
  obtain ⟨hi, rfl⟩ := List.getElem?_eq_some_iff.1 ht
  obtain ⟨hj, rfl⟩ := List.getElem?_eq_some_iff.1 ht'
  exact List.pairwise_iff_getElem.1 h i j hi hj hlt

theorem Span.offset_le_stop (s : Span) : s.offset ≤ s.stop := Nat.le_add_right _ _

theorem Ordered.offset_le (h : Ordered tokens) {t t' : Token} (ht : tokens[i]? = some t)
    (ht' : tokens[j]? = some t') (hle : i ≤ j) : t.span.offset ≤ t'.span.offset := by
  rcases Nat.eq_or_lt_of_le hle with rfl | hlt
  · rw [ht] at ht'
    cases ht'
    exact Nat.le_refl _
  · exact Nat.le_trans t.span.offset_le_stop (h.stop_le_offset ht ht' hlt)

theorem Ordered.stop_le (h : Ordered tokens) {t t' : Token} (ht : tokens[i]? = some t)
    (ht' : tokens[j]? = some t') (hle : i ≤ j) : t.span.stop ≤ t'.span.stop := by
  rcases Nat.eq_or_lt_of_le hle with rfl | hlt
  · rw [ht] at ht'
    cases ht'
    exact Nat.le_refl _
  · exact Nat.le_trans (h.stop_le_offset ht ht' hlt) t'.span.offset_le_stop

namespace Span.FromTo

theorem token {t : Token} (h : tokens[i]? = some t) : t.span.FromTo tokens i (i + 1) :=
  ⟨Nat.lt_succ_self i, ⟨t, h, rfl, rfl⟩, ⟨t, h, rfl⟩⟩

/-- A stretch that ends with a later token is the one from the first to the last. -/
theorem through (hordered : Ordered tokens) (h : s.FromTo tokens i j) (h' : s'.FromTo tokens k l)
    (hle : j ≤ l) : (s.through s').FromTo tokens i l := by
  obtain ⟨t, ht, hstop⟩ := h.last
  obtain ⟨t', ht', hstop'⟩ := h'.last
  have hmax : s.stop ≤ s'.stop := by
    rw [hstop, hstop']
    exact hordered.stop_le ht ht' (Nat.sub_le_sub_right hle 1)
  refine ⟨Nat.lt_of_lt_of_le h.lt hle, h.first, t', ht', ?_⟩
  rw [Span.through_stop, Nat.max_eq_left hmax, hstop']

/-- The stretch of some of the tokens lies inside that of all. -/
theorem within (hordered : Ordered tokens) (h : s.FromTo tokens i j) (h' : s'.FromTo tokens k l)
    (hfirst : i ≤ k) (hlast : l ≤ j) : s'.Within s := by
  obtain ⟨t, ht, hoffset, -⟩ := h.first
  obtain ⟨t', ht', hoffset', -⟩ := h'.first
  obtain ⟨u, hu, hstop⟩ := h.last
  obtain ⟨u', hu', hstop'⟩ := h'.last
  constructor
  · rw [hoffset, hoffset']
    exact hordered.offset_le ht ht' hfirst
  · rw [hstop, hstop']
    exact hordered.stop_le hu' hu (Nat.sub_le_sub_right hlast 1)

end Span.FromTo

theorem Span.within_refl (s : Span) : s.Within s := ⟨Nat.le_refl _, Nat.le_refl _⟩

end

/-! ## Extents -/

namespace Extent

variable (tokens : List Token)

/-- Token `i` is of the kind. -/
def IsAt (i : Nat) (kind : Token.Kind) : Prop := ∃ t, tokens[i]? = some t ∧ t.kind = kind

/-- Token `i` is the name. -/
def NameAt (i : Nat) (name : String) : Prop :=
  ∃ t, tokens[i]? = some t ∧ t.kind = .identifier ∧ t.lexeme = name

/-- The stretch is that of token `i`. -/
def PlaceAt (i : Nat) (s : Span) : Prop := ∃ t, tokens[i]? = some t ∧ s = t.span

mutual
/-- The expression was read from the tokens from `i` up to `j`. -/
inductive Expression : Nat → Nat → Expr → Prop
  | literal {i : Nat} {t : Token} {node : Node} {value : Constant} (ht : tokens[i]? = some t)
      (hvalue : Grammar.Written t value) (hspan : node.span = t.span) :
      Expression i (i + 1) (.literal node value)
  | this {i : Nat} {node : Node} (hword : IsAt tokens i .this)
      (hspan : PlaceAt tokens i node.span) : Expression i (i + 1) (.this node)
  | name {i : Nat} {node : Node} {name : String} (hname : NameAt tokens i name)
      (hspan : PlaceAt tokens i node.span) : Expression i (i + 1) (.variable node name)
  | grouping {i j : Nat} {node : Node} {inner : Expr} (hleft : IsAt tokens i .leftParen)
      (hinner : Expression (i + 1) j inner) (hright : IsAt tokens j .rightParen)
      (hspan : node.span.FromTo tokens i (j + 1)) :
      Expression i (j + 1) (.grouping node inner)
  | unary {i j : Nat} {node : Node} {op : UnaryOp} {operand : Expr} {sign : Token.Kind}
      (hsign : IsAt tokens i sign) (hop : Grammar.UnarySign sign op)
      (hoperand : Expression (i + 1) j operand) (hspan : node.span.FromTo tokens i j) :
      Expression i j (.unary node op operand)
  | binary {i j k : Nat} {node : Node} {level : Level} {op : BinaryOp} {left right : Expr}
      {sign : Token.Kind} {opSpan : Span} (hleft : Expression i j left)
      (hsign : IsAt tokens j sign) (hop : Grammar.BinarySign level sign (.binary op))
      (hopSpan : PlaceAt tokens j opSpan) (hright : Expression (j + 1) k right)
      (hspan : node.span.FromTo tokens i k) :
      Expression i k (.binary node op left right opSpan)
  | logical {i j k : Nat} {node : Node} {level : Level} {op : LogicalOp} {left right : Expr}
      {sign : Token.Kind} (hleft : Expression i j left) (hsign : IsAt tokens j sign)
      (hop : Grammar.BinarySign level sign (.logical op)) (hright : Expression (j + 1) k right)
      (hspan : node.span.FromTo tokens i k) : Expression i k (.logical node op left right)
  | assign {i j : Nat} {node : Node} {name : String} {value : Expr} (hname : NameAt tokens i name)
      (hequals : IsAt tokens (i + 1) .equal) (hvalue : Expression (i + 2) j value)
      (hspan : node.span.FromTo tokens i j) : Expression i j (.assign node name value)
  | get {i j : Nat} {node : Node} {object : Expr} {name : String} {nameSpan : Span}
      (hobject : Expression i j object) (hdot : IsAt tokens j .dot)
      (hname : NameAt tokens (j + 1) name) (hnameSpan : PlaceAt tokens (j + 1) nameSpan)
      (hspan : node.span.FromTo tokens i (j + 2)) :
      Expression i (j + 2) (.get node object name nameSpan)
  | set {i j k : Nat} {node : Node} {object value : Expr} {name : String} {nameSpan : Span}
      (hobject : Expression i j object) (hdot : IsAt tokens j .dot)
      (hname : NameAt tokens (j + 1) name) (hnameSpan : PlaceAt tokens (j + 1) nameSpan)
      (hequals : IsAt tokens (j + 2) .equal) (hvalue : Expression (j + 3) k value)
      (hspan : node.span.FromTo tokens i k) :
      Expression i k (.set node object name nameSpan value)
  | call {i j k : Nat} {node : Node} {callee : Expr} {arguments : List Expr} {paren : Span}
      (hcallee : Expression i j callee) (harguments : Arguments j k arguments)
      (hparen : PlaceAt tokens (k - 1) paren) (hspan : node.span.FromTo tokens i k) :
      Expression i k (.call node callee arguments paren)
  | new {i j k : Nat} {node : Node} {callee : Expr} {arguments : List Expr} {paren : Span}
      (hword : IsAt tokens i .new) (hcallee : Expression (i + 1) j callee)
      (harguments : Arguments j k arguments) (hparen : PlaceAt tokens (k - 1) paren)
      (hspan : node.span.FromTo tokens i k) :
      Expression i k (.new node callee arguments paren)
  | bareNew {i j : Nat} {node : Node} {callee : Expr} {paren : Span}
      (hword : IsAt tokens i .new) (hcallee : Expression (i + 1) j callee)
      (hparen : PlaceAt tokens (j - 1) paren) (hspan : node.span.FromTo tokens i j) :
      Expression i j (.new node callee [] paren)

/-- Arguments with their parentheses were read from these tokens. -/
inductive Arguments : Nat → Nat → List Expr → Prop
  | none {i : Nat} (hleft : IsAt tokens i .leftParen) (hright : IsAt tokens (i + 1) .rightParen) :
      Arguments i (i + 2) []
  | some {i j : Nat} {values : List Expr} (hleft : IsAt tokens i .leftParen)
      (hvalues : Values (i + 1) j values) (hright : IsAt tokens j .rightParen) :
      Arguments i (j + 1) values

/-- Expressions with commas between them were read from these tokens. -/
inductive Values : Nat → Nat → List Expr → Prop
  | one {i j : Nat} {value : Expr} (hvalue : Expression i j value) : Values i j [value]
  | more {i j k : Nat} {value : Expr} {values : List Expr} (hvalue : Expression i j value)
      (hcomma : IsAt tokens j .comma) (hvalues : Values (j + 1) k values) :
      Values i k (value :: values)
end

/-- Names with commas between them were read from these tokens. -/
inductive Names : Nat → Nat → List String → Prop
  | one {i : Nat} {name : String} (hname : NameAt tokens i name) : Names i (i + 1) [name]
  | more {i j : Nat} {name : String} {names : List String} (hname : NameAt tokens i name)
      (hcomma : IsAt tokens (i + 1) .comma) (hnames : Names (i + 2) j names) :
      Names i j (name :: names)

/-- Parameters, of which there may be none, were read from these tokens. -/
inductive Parameters : Nat → Nat → List String → Prop
  | none {i : Nat} : Parameters i i []
  | some {i j : Nat} {names : List String} (hnames : Names tokens i j names) :
      Parameters i j names

/-- The expression, if there is one, was read from these tokens. -/
inductive Maybe : Nat → Nat → Option Expr → Prop
  | none {i : Nat} : Maybe i i none
  | some {i j : Nat} {e : Expr} (h : Expression tokens i j e) : Maybe i j (some e)

/-- An initializer with its equals sign, if there is one, was read from these tokens. -/
inductive Initializer : Nat → Nat → Option Expr → Prop
  | none {i : Nat} : Initializer i i none
  | some {i j : Nat} {e : Expr} (hequals : IsAt tokens i .equal)
      (h : Expression tokens (i + 1) j e) : Initializer i j (some e)

/-- The condition of a `for` statement was read from these tokens; without any, it is a `true` at
the semicolon after it. -/
inductive Condition : Nat → Nat → Expr → Prop
  | none {i : Nat} {node : Node} (hspan : PlaceAt tokens i node.span) :
      Condition i i (.literal node (.bool true))
  | some {i j : Nat} {e : Expr} (h : Expression tokens i j e) : Condition i j e

mutual
/-- The statement was read from the tokens from `i` up to `j`. -/
inductive Statement : Nat → Nat → Stmt → Prop
  | expression {i j : Nat} {value : Expr} {span : Span} (hvalue : Expression tokens i j value)
      (hsemicolon : IsAt tokens j .semicolon) (hspan : span.FromTo tokens i (j + 1)) :
      Statement i (j + 1) (.expression value span)
  | print {i j : Nat} {value : Expr} {span : Span} (hword : IsAt tokens i .print)
      (hvalue : Expression tokens (i + 1) j value) (hsemicolon : IsAt tokens j .semicolon)
      (hspan : span.FromTo tokens i (j + 1)) : Statement i (j + 1) (.print value span)
  | var {i j : Nat} {name : String} {initializer : Option Expr} {span : Span}
      (hword : IsAt tokens i .var) (hname : NameAt tokens (i + 1) name)
      (hinitializer : Initializer tokens (i + 2) j initializer)
      (hsemicolon : IsAt tokens j .semicolon) (hspan : span.FromTo tokens i (j + 1)) :
      Statement i (j + 1) (.var name initializer span)
  | return {i j : Nat} {value : Option Expr} {span : Span} (hword : IsAt tokens i .return)
      (hvalue : Maybe tokens (i + 1) j value) (hsemicolon : IsAt tokens j .semicolon)
      (hspan : span.FromTo tokens i (j + 1)) : Statement i (j + 1) (.return value span)
  | block {i j : Nat} {body : List Stmt} {span : Span} (hleft : IsAt tokens i .leftBrace)
      (hbody : Statements (i + 1) j body) (hright : IsAt tokens j .rightBrace)
      (hspan : span.FromTo tokens i (j + 1)) : Statement i (j + 1) (.block body span)
  | ifThen {i j k : Nat} {condition : Expr} {thenBranch : Stmt} {span : Span}
      (hword : IsAt tokens i .if) (hleft : IsAt tokens (i + 1) .leftParen)
      (hcondition : Expression tokens (i + 2) j condition) (hright : IsAt tokens j .rightParen)
      (hthen : Statement (j + 1) k thenBranch) (hspan : span.FromTo tokens i k) :
      Statement i k (.ifElse condition thenBranch none span)
  | ifElse {i j k l : Nat} {condition : Expr} {thenBranch elseBranch : Stmt} {span : Span}
      (hword : IsAt tokens i .if) (hleft : IsAt tokens (i + 1) .leftParen)
      (hcondition : Expression tokens (i + 2) j condition) (hright : IsAt tokens j .rightParen)
      (hthen : Statement (j + 1) k thenBranch) (hother : IsAt tokens k .else)
      (helse : Statement (k + 1) l elseBranch) (hspan : span.FromTo tokens i l) :
      Statement i l (.ifElse condition thenBranch (some elseBranch) span)
  | while {i j k : Nat} {condition : Expr} {body : Stmt} {span : Span}
      (hword : IsAt tokens i .while) (hleft : IsAt tokens (i + 1) .leftParen)
      (hcondition : Expression tokens (i + 2) j condition) (hright : IsAt tokens j .rightParen)
      (hbody : Statement (j + 1) k body) (hspan : span.FromTo tokens i k) :
      Statement i k (.while condition body span)
  | for {i j k l m : Nat} {initializer : Option Stmt} {condition : Expr}
      {increment : Option Expr} {body : Stmt} {span : Span} (hword : IsAt tokens i .for)
      (hleft : IsAt tokens (i + 1) .leftParen) (hinitializer : LoopStart (i + 2) j initializer)
      (hfirst : IsAt tokens j .semicolon) (hcondition : Condition tokens (j + 1) k condition)
      (hsecond : IsAt tokens k .semicolon) (hincrement : Maybe tokens (k + 1) l increment)
      (hright : IsAt tokens l .rightParen) (hbody : Statement (l + 1) m body)
      (hspan : span.FromTo tokens i m) :
      Statement i m (.forLoop initializer condition increment body span)
  | function {i j : Nat} {decl : FunctionDecl} {span : Span} (hword : IsAt tokens i .fun)
      (hdecl : Function (i + 1) j decl) (hspan : span.FromTo tokens i j) :
      Statement i j (.function decl span)
  | class {i j : Nat} {name : String} {methods : List FunctionDecl} {span : Span}
      (hword : IsAt tokens i .class) (hname : NameAt tokens (i + 1) name)
      (hleft : IsAt tokens (i + 2) .leftBrace) (hmethods : Functions (i + 3) j methods)
      (hright : IsAt tokens j .rightBrace) (hspan : span.FromTo tokens i (j + 1)) :
      Statement i (j + 1) (.class name methods span)

/-- What stands before the first semicolon of a `for` statement, which is token `j`, was read from
these tokens. -/
inductive LoopStart : Nat → Nat → Option Stmt → Prop
  | none {i : Nat} : LoopStart i i none
  | some {i j : Nat} {s : Stmt} (h : Statement i (j + 1) s) : LoopStart i j (some s)

/-- The statements were read from these tokens, one after another. -/
inductive Statements : Nat → Nat → List Stmt → Prop
  | nil {i : Nat} : Statements i i []
  | cons {i j k : Nat} {s : Stmt} {ss : List Stmt} (hfirst : Statement i j s)
      (hothers : Statements j k ss) : Statements i k (s :: ss)

/-- The function was read from these tokens, from its name on. -/
inductive Function : Nat → Nat → FunctionDecl → Prop
  | mk {i j k number : Nat} {name : String} {params : List String} {body : List Stmt}
      {span : Span} (hname : NameAt tokens i name) (hleft : IsAt tokens (i + 1) .leftParen)
      (hparams : Parameters tokens (i + 2) j params) (hright : IsAt tokens j .rightParen)
      (hleftBrace : IsAt tokens (j + 1) .leftBrace) (hbody : Statements (j + 2) k body)
      (hrightBrace : IsAt tokens k .rightBrace) (hspan : span.FromTo tokens i (k + 1)) :
      Function i (k + 1) (.mk number name params body span)

/-- The functions were read from these tokens, one after another. -/
inductive Functions : Nat → Nat → List FunctionDecl → Prop
  | nil {i : Nat} : Functions i i []
  | cons {i j k : Nat} {f : FunctionDecl} {fs : List FunctionDecl} (hfirst : Function i j f)
      (hothers : Functions j k fs) : Functions i k (f :: fs)
end

end Extent

/-! ## Parts -/

/-- The places in an expression: those of its operands, and of the sign, the parenthesis or the
name that belong to it. -/
def Expr.parts : Expr → List Span
  | .literal .. => []
  | .grouping _ inner => [inner.span]
  | .unary _ _ operand => [operand.span]
  | .binary _ _ left right opSpan => [left.span, right.span, opSpan]
  | .logical _ _ left right => [left.span, right.span]
  | .variable .. => []
  | .assign _ _ value => [value.span]
  | .call _ callee arguments paren => callee.span :: paren :: arguments.map Expr.span
  | .new _ callee arguments paren => callee.span :: paren :: arguments.map Expr.span
  | .get _ object _ nameSpan => [object.span, nameSpan]
  | .set _ object _ nameSpan value => [object.span, nameSpan, value.span]
  | .this _ => []

/-- The places in a statement. -/
def Stmt.parts : Stmt → List Span
  | .expression value _ => [value.span]
  | .print value _ => [value.span]
  | .var _ initializer _ => initializer.toList.map Expr.span
  | .block body _ => body.map Stmt.span
  | .ifElse condition thenBranch elseBranch _ =>
    condition.span :: thenBranch.span :: elseBranch.toList.map Stmt.span
  | .while condition body _ => [condition.span, body.span]
  | .function decl _ => [decl.span]
  | .class _ methods _ => methods.map FunctionDecl.span
  | .return value _ => value.toList.map Expr.span

/-- The places in a function. -/
def FunctionDecl.parts (f : FunctionDecl) : List Span := f.body.map Stmt.span

mutual
/-- The places in the statement lie inside its span, and so on for all statements in it. -/
def Stmt.Nested : Stmt → Prop
  | .block body span => span.Encloses (body.map Stmt.span) ∧ Stmt.NestedAll body
  | .ifElse condition thenBranch none span =>
    span.Encloses [condition.span, thenBranch.span] ∧ thenBranch.Nested
  | .ifElse condition thenBranch (some elseBranch) span =>
    span.Encloses [condition.span, thenBranch.span, elseBranch.span] ∧ thenBranch.Nested ∧
      elseBranch.Nested
  | .while condition body span => span.Encloses [condition.span, body.span] ∧ body.Nested
  | .function decl span => span.Encloses [decl.span] ∧ decl.Nested
  | .class _ methods span =>
    span.Encloses (methods.map FunctionDecl.span) ∧ FunctionDecl.NestedAll methods
  | .expression value span => span.Encloses [value.span]
  | .print value span => span.Encloses [value.span]
  | .var _ initializer span => span.Encloses (initializer.toList.map Expr.span)
  | .return value span => span.Encloses (value.toList.map Expr.span)

/-- The statements are nested. -/
def Stmt.NestedAll : List Stmt → Prop
  | [] => True
  | s :: ss => s.Nested ∧ Stmt.NestedAll ss

/-- The places in the function lie inside its span, and so on for all statements in it. -/
def FunctionDecl.Nested : FunctionDecl → Prop
  | .mk _ _ _ body span => span.Encloses (body.map Stmt.span) ∧ Stmt.NestedAll body

/-- The functions are nested. -/
def FunctionDecl.NestedAll : List FunctionDecl → Prop
  | [] => True
  | f :: fs => f.Nested ∧ FunctionDecl.NestedAll fs
end

section

variable {s : Stmt} {ss : List Stmt} {f : FunctionDecl} {fs : List FunctionDecl}

theorem Stmt.Nested.encloses (h : s.Nested) : s.span.Encloses s.parts := by
  cases s with
  | ifElse condition thenBranch elseBranch span =>
    cases elseBranch with
    | none => exact h.1
    | some elseBranch => exact h.1
  | block | «while» | function | «class» => exact h.1
  | expression | print | var | «return» => exact h

theorem FunctionDecl.Nested.encloses (h : f.Nested) : f.span.Encloses f.parts := by
  cases f
  exact h.1

theorem FunctionDecl.Nested.body (h : f.Nested) : Stmt.NestedAll f.body := by
  cases f
  exact h.2

theorem Stmt.nested_of_mem (h : Stmt.NestedAll ss) (hs : s ∈ ss) : s.Nested := by
  induction ss with
  | nil => cases hs
  | cons first ss ih =>
    rcases List.mem_cons.1 hs with rfl | hs
    · exact h.1
    · exact ih h.2 hs

theorem FunctionDecl.nested_of_mem (h : FunctionDecl.NestedAll fs) (hf : f ∈ fs) : f.Nested := by
  induction fs with
  | nil => cases hf
  | cons first fs ih =>
    rcases List.mem_cons.1 hf with rfl | hf
    · exact h.1
    · exact ih h.2 hf

/-- All statements of a nested program are nested. -/
theorem Program.Has.nested {p : Program} (hp : Stmt.NestedAll p.statements) (h : p.Has s) :
    s.Nested := by
  induction h with
  | top hs => exact Stmt.nested_of_mem hp hs
  | block _ hs ih => exact Stmt.nested_of_mem ih.2 hs
  | @thenBranch condition branch other span _ ih =>
    cases other with
    | none => exact ih.2
    | some other => exact ih.2.1
  | elseBranch _ ih => exact ih.2.2
  | loop _ ih => exact ih.2
  | functionBody _ hs ih => exact Stmt.nested_of_mem ih.2.body hs
  | methodBody _ hf hs ih =>
    exact Stmt.nested_of_mem (FunctionDecl.nested_of_mem ih.2 hf).body hs

end

namespace Extent

variable {tokens : List Token} {i j : Nat}

theorem PlaceAt.fromTo {s : Span} (h : PlaceAt tokens i s) : s.FromTo tokens i (i + 1) := by
  obtain ⟨t, ht, rfl⟩ := h
  exact .token ht

/-! ## Expressions -/

/-- An expression reaches from its first token to its last. -/
theorem Expression.fromTo {e : Expr} (h : Expression tokens i j e) :
    e.span.FromTo tokens i j := by
  cases h with
  | literal ht _ hspan => exact PlaceAt.fromTo ⟨_, ht, hspan⟩
  | this _ hspan | name _ hspan => exact hspan.fromTo
  | grouping _ _ _ hspan | unary _ _ _ hspan | binary _ _ _ _ _ hspan | logical _ _ _ _ hspan
  | assign _ _ _ hspan | get _ _ _ _ hspan | set _ _ _ _ _ _ hspan | call _ _ _ hspan
  | new _ _ _ _ hspan | bareNew _ _ _ hspan => exact hspan

theorem Values.of_mem : ∀ {i j : Nat} {values : List Expr}, Values tokens i j values →
    i < j ∧ ∀ v ∈ values, ∃ i' j', i ≤ i' ∧ j' ≤ j ∧ Expression tokens i' j' v
  | _, _, _, .one hvalue => by
    refine ⟨hvalue.fromTo.lt, fun v hv => ?_⟩
    obtain rfl := List.mem_singleton.1 hv
    exact ⟨_, _, Nat.le_refl _, Nat.le_refl _, hvalue⟩
  | _, _, _, .more hvalue _ hvalues => by
    obtain ⟨hlt, hothers⟩ := hvalues.of_mem
    have hfirst := hvalue.fromTo.lt
    refine ⟨by omega, fun v hv => ?_⟩
    rcases List.mem_cons.1 hv with rfl | hv
    · exact ⟨_, _, Nat.le_refl _, by omega, hvalue⟩
    · obtain ⟨i', j', hi, hj, h⟩ := hothers v hv
      exact ⟨i', j', by omega, hj, h⟩

theorem Arguments.of_mem {arguments : List Expr} (h : Arguments tokens i j arguments) :
    i < j ∧ ∀ v ∈ arguments, ∃ i' j', i ≤ i' ∧ j' ≤ j ∧ Expression tokens i' j' v := by
  cases h with
  | none => exact ⟨by omega, by simp⟩
  | some _ hvalues =>
    obtain ⟨hlt, hmem⟩ := hvalues.of_mem
    refine ⟨by omega, fun v hv => ?_⟩
    obtain ⟨i', j', hi, hj, h⟩ := hmem v hv
    exact ⟨i', j', by omega, by omega, h⟩

theorem encloses_nil (s : Span) : s.Encloses [] := by simp [Span.Encloses]

theorem encloses_cons {s t : Span} {ss : List Span} (h : t.Within s) (hs : s.Encloses ss) :
    s.Encloses (t :: ss) := List.forall_mem_cons.2 ⟨h, hs⟩

/-- All places in an expression lie inside of its span. -/
theorem Expression.encloses (hordered : Ordered tokens) {e : Expr}
    (h : Expression tokens i j e) : e.span.Encloses e.parts := by
  have hspan := h.fromTo
  have within {k l : Nat} {s : Span} (hs : s.FromTo tokens k l) (hk : i ≤ k) (hl : l ≤ j) :
      s.Within e.span := hspan.within hordered hs hk hl
  have place {k : Nat} {s : Span} (hs : PlaceAt tokens k s) (hk : i ≤ k) (hl : k < j) :
      s.Within e.span := within hs.fromTo hk hl
  have all {k l : Nat} {arguments : List Expr} (ha : Arguments tokens k l arguments) (hk : i ≤ k)
      (hl : l ≤ j) : e.span.Encloses (arguments.map Expr.span) := by
    rw [Span.Encloses, List.forall_mem_map]
    intro v hv
    obtain ⟨k', l', hk', hl', hv⟩ := ha.of_mem.2 v hv
    exact within hv.fromTo (by omega) (by omega)
  cases h with
  | literal | this | name => exact encloses_nil _
  | grouping _ hinner =>
    exact encloses_cons (within hinner.fromTo (by omega) (by omega)) (encloses_nil _)
  | unary _ _ hoperand =>
    exact encloses_cons (within hoperand.fromTo (by omega) (by omega)) (encloses_nil _)
  | binary hleft _ _ hop hright =>
    have := hleft.fromTo.lt
    have := hright.fromTo.lt
    exact encloses_cons (within hleft.fromTo (by omega) (by omega))
      (encloses_cons (within hright.fromTo (by omega) (by omega))
        (encloses_cons (place hop (by omega) (by omega)) (encloses_nil _)))
  | logical hleft _ _ hright =>
    have := hleft.fromTo.lt
    have := hright.fromTo.lt
    exact encloses_cons (within hleft.fromTo (by omega) (by omega))
      (encloses_cons (within hright.fromTo (by omega) (by omega)) (encloses_nil _))
  | assign _ _ hvalue =>
    exact encloses_cons (within hvalue.fromTo (by omega) (by omega)) (encloses_nil _)
  | get hobject _ _ hname =>
    have := hobject.fromTo.lt
    exact encloses_cons (within hobject.fromTo (by omega) (by omega))
      (encloses_cons (place hname (by omega) (by omega)) (encloses_nil _))
  | set hobject _ _ hname _ hvalue =>
    have := hobject.fromTo.lt
    have := hvalue.fromTo.lt
    exact encloses_cons (within hobject.fromTo (by omega) (by omega))
      (encloses_cons (place hname (by omega) (by omega))
        (encloses_cons (within hvalue.fromTo (by omega) (by omega)) (encloses_nil _)))
  | call hcallee harguments hparen =>
    have := hcallee.fromTo.lt
    have := harguments.of_mem.1
    exact encloses_cons (within hcallee.fromTo (by omega) (by omega))
      (encloses_cons (place hparen (by omega) (by omega)) (all harguments (by omega) (by omega)))
  | new _ hcallee harguments hparen =>
    have := hcallee.fromTo.lt
    have := harguments.of_mem.1
    exact encloses_cons (within hcallee.fromTo (by omega) (by omega))
      (encloses_cons (place hparen (by omega) (by omega)) (all harguments (by omega) (by omega)))
  | bareNew _ hcallee hparen =>
    have := hcallee.fromTo.lt
    exact encloses_cons (within hcallee.fromTo (by omega) (by omega))
      (encloses_cons (place hparen (by omega) (by omega)) (encloses_nil _))

/-- The expression was read from some of the tokens. -/
def HasExtent (tokens : List Token) (e : Expr) : Prop := ∃ i j, Expression tokens i j e

mutual
/-- All expressions in one that was read from tokens were read from tokens. -/
theorem Expression.occurrences (place : Place) : ∀ {i j : Nat} {e : Expr},
    Expression tokens i j e → ∀ o ∈ e.occurrences place, HasExtent tokens o.expr
  | _, _, _, h@(.literal ..) | _, _, _, h@(.this ..) | _, _, _, h@(.name ..) => by
    simp only [Expr.occurrences, List.forall_mem_singleton]
    exact ⟨_, _, h⟩
  | _, _, _, h@(.grouping _ hinner _ _) => by
    simp only [Expr.occurrences, List.forall_mem_append, List.forall_mem_singleton]
    exact ⟨hinner.occurrences place, _, _, h⟩
  | _, _, _, h@(.unary _ _ hoperand _) => by
    simp only [Expr.occurrences, List.forall_mem_append, List.forall_mem_singleton]
    exact ⟨hoperand.occurrences place, _, _, h⟩
  | _, _, _, h@(.binary hleft _ _ _ hright _) => by
    simp only [Expr.occurrences, List.forall_mem_append, List.forall_mem_singleton]
    exact ⟨⟨hleft.occurrences place, hright.occurrences place⟩, _, _, h⟩
  | _, _, _, h@(.logical hleft _ _ hright _) => by
    simp only [Expr.occurrences, List.forall_mem_append, List.forall_mem_singleton]
    exact ⟨⟨hleft.occurrences place, hright.occurrences place⟩, _, _, h⟩
  | _, _, _, h@(.assign _ _ hvalue _) => by
    simp only [Expr.occurrences, List.forall_mem_append, List.forall_mem_singleton]
    exact ⟨hvalue.occurrences place, _, _, h⟩
  | _, _, _, h@(.get hobject _ _ _ _) => by
    simp only [Expr.occurrences, List.forall_mem_append, List.forall_mem_singleton]
    exact ⟨hobject.occurrences place, _, _, h⟩
  | _, _, _, h@(.set hobject _ _ _ _ hvalue _) => by
    simp only [Expr.occurrences, List.forall_mem_append, List.forall_mem_singleton]
    exact ⟨⟨hvalue.occurrences place, hobject.occurrences place⟩, _, _, h⟩
  | _, _, _, h@(.call hcallee harguments _ _) => by
    simp only [Expr.occurrences, List.forall_mem_append, List.forall_mem_singleton]
    exact ⟨⟨hcallee.occurrences place, harguments.occurrences place⟩, _, _, h⟩
  | _, _, _, h@(.new _ hcallee harguments _ _) => by
    simp only [Expr.occurrences, List.forall_mem_append, List.forall_mem_singleton]
    exact ⟨⟨hcallee.occurrences place, harguments.occurrences place⟩, _, _, h⟩
  | _, _, _, h@(.bareNew _ hcallee _ _) => by
    simp only [Expr.occurrences, List.forall_mem_append, List.forall_mem_singleton]
    exact ⟨⟨hcallee.occurrences place, by simp [Expr.occurrencesAll]⟩, _, _, h⟩

theorem Arguments.occurrences (place : Place) : ∀ {i j : Nat} {arguments : List Expr},
    Arguments tokens i j arguments →
      ∀ o ∈ Expr.occurrencesAll place arguments, HasExtent tokens o.expr
  | _, _, _, .none _ _ => by simp [Expr.occurrencesAll]
  | _, _, _, .some _ hvalues _ => hvalues.occurrences place

theorem Values.occurrences (place : Place) : ∀ {i j : Nat} {values : List Expr},
    Values tokens i j values → ∀ o ∈ Expr.occurrencesAll place values, HasExtent tokens o.expr
  | _, _, _, .one hvalue => by
    simp only [Expr.occurrencesAll, List.append_nil]
    exact hvalue.occurrences place
  | _, _, _, .more hvalue _ hvalues => by
    simp only [Expr.occurrencesAll, List.forall_mem_append]
    exact ⟨hvalue.occurrences place, hvalues.occurrences place⟩
end

end Extent

end Lox
