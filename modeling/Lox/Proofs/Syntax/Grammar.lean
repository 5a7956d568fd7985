import Lox.Syntax.Parser

/-!
# Grammar

The programs of the language, as a relation between lists of tokens and trees.  The
trees of the relation are bare: they have neither numbers nor places.

**Greedy readings.** The relation leaves no choice to a reader.  A statement is *open*
if it ends in an `if` without `else`, and only a closed one may stand before an `else`:
so an `else` belongs to the nearest `if` that has none.  A `new` without arguments may
not be called and has no properties: so the property names and the first arguments
after the class belong to the `new`.
-/

namespace Lox

/-! ## Bare trees -/

/-- The place of everything in a bare tree. -/
def Span.blank : Span := ⟨0, 0, 0⟩

/-- The node of every expression in a bare tree. -/
def Node.blank : Node := ⟨0, .blank⟩

mutual
/-- An expression without numbers and places. -/
def Expr.bare : Expr → Expr
  | .literal _ value => .literal .blank value
  | .grouping _ inner => .grouping .blank inner.bare
  | .unary _ op operand => .unary .blank op operand.bare
  | .binary _ op left right _ => .binary .blank op left.bare right.bare .blank
  | .logical _ op left right => .logical .blank op left.bare right.bare
  | .variable _ name => .variable .blank name
  | .assign _ name value => .assign .blank name value.bare
  | .call _ callee arguments _ =>
    .call .blank callee.bare (Expr.bareAll arguments) .blank
  | .new _ callee arguments _ => .new .blank callee.bare (Expr.bareAll arguments) .blank
  | .get _ object name _ => .get .blank object.bare name .blank
  | .set _ object name _ value => .set .blank object.bare name .blank value.bare
  | .this _ => .this .blank

/-- Expressions without numbers and places. -/
def Expr.bareAll : List Expr → List Expr
  | [] => []
  | e :: es => e.bare :: Expr.bareAll es
end

mutual
/-- A statement without numbers and places. -/
def Stmt.bare : Stmt → Stmt
  | .expression value _ => .expression value.bare .blank
  | .print value _ => .print value.bare .blank
  | .var name initializer _ => .var name (initializer.map Expr.bare) .blank
  | .block body _ => .block (Stmt.bareAll body) .blank
  | .ifElse condition thenBranch none _ =>
    .ifElse condition.bare thenBranch.bare none .blank
  | .ifElse condition thenBranch (some elseBranch) _ =>
    .ifElse condition.bare thenBranch.bare (some elseBranch.bare) .blank
  | .while condition body _ => .while condition.bare body.bare .blank
  | .function decl _ => .function decl.bare .blank
  | .class name methods _ => .class name (FunctionDecl.bareAll methods) .blank
  | .return value _ => .return (value.map Expr.bare) .blank

/-- Statements without numbers and places. -/
def Stmt.bareAll : List Stmt → List Stmt
  | [] => []
  | s :: ss => s.bare :: Stmt.bareAll ss

/-- A function without numbers and places. -/
def FunctionDecl.bare : FunctionDecl → FunctionDecl
  | .mk _ name params body _ => .mk 0 name params (Stmt.bareAll body) .blank

/-- Functions without numbers and places. -/
def FunctionDecl.bareAll : List FunctionDecl → List FunctionDecl
  | [] => []
  | f :: fs => f.bare :: FunctionDecl.bareAll fs
end

theorem Stmt.bareAll_append (ss ss' : List Stmt) :
    Stmt.bareAll (ss ++ ss') = Stmt.bareAll ss ++ Stmt.bareAll ss' := by
  induction ss with
  | nil => rfl
  | cons s ss ih => rw [List.cons_append, Stmt.bareAll, Stmt.bareAll, ih, List.cons_append]

/-- A program without numbers and places. -/
def Program.bare (p : Program) : Program := ⟨Stmt.bareAll p.statements⟩

namespace Grammar

/-! ## Expressions -/

/-- Categories of expressions, loosest first.  An `access` is what may be called and
have properties. -/
inductive Category where
  | assignment
  | level (level : Level)
  | unary
  | call
  | access
  | primary

/-- Every expression of the second category is one of the first. -/
inductive Includes : Category → Category → Prop where
  | assignment : Includes .assignment (.level .or)
  | or : Includes (.level .or) (.level .and)
  | and : Includes (.level .and) (.level .equality)
  | equality : Includes (.level .equality) (.level .comparison)
  | comparison : Includes (.level .comparison) (.level .term)
  | term : Includes (.level .term) (.level .factor)
  | factor : Includes (.level .factor) .unary
  | unary : Includes .unary .call
  | call : Includes .call .access
  | access : Includes .access .primary

/-- The signs of the operators between two operands, level by level. -/
inductive BinarySign : Level → Token.Kind → Operator → Prop where
  | or : BinarySign .or .or (.logical .or)
  | and : BinarySign .and .and (.logical .and)
  | equal : BinarySign .equality .equalEqual (.binary .equal)
  | notEqual : BinarySign .equality .bangEqual (.binary .notEqual)
  | less : BinarySign .comparison .less (.binary .less)
  | lessEqual : BinarySign .comparison .lessEqual (.binary .lessEqual)
  | greater : BinarySign .comparison .greater (.binary .greater)
  | greaterEqual : BinarySign .comparison .greaterEqual (.binary .greaterEqual)
  | add : BinarySign .term .plus (.binary .add)
  | subtract : BinarySign .term .minus (.binary .subtract)
  | multiply : BinarySign .factor .star (.binary .multiply)
  | divide : BinarySign .factor .slash (.binary .divide)

/-- The signs of the operators before an operand. -/
inductive UnarySign : Token.Kind → UnaryOp → Prop where
  | not : UnarySign .bang .not
  | negate : UnarySign .minus .negate

/-- The tokens that are written values, with these values. -/
inductive Written : Token → Constant → Prop where
  | integer {t : Token} {n : Int} (hkind : t.kind = .number ∨ t.kind = .float)
      (hvalue : t.literal = some (.integer n)) : Written t (.number (Binary64.ofInt n))
  | float {t : Token} {x : Float} (hkind : t.kind = .number ∨ t.kind = .float)
      (hvalue : t.literal = some (.float x)) : Written t (.number x)
  | text {t : Token} {s : String} (hkind : t.kind = .string)
      (hvalue : t.literal = some (.text s)) : Written t (.text s)
  | true {t : Token} (hkind : t.kind = .true) : Written t (.bool true)
  | false {t : Token} (hkind : t.kind = .false) : Written t (.bool false)
  | nil {t : Token} (hkind : t.kind = .nil) : Written t .nil

mutual
/-- The expressions of a category. -/
inductive Reads : Category → List Token → Expr → Prop where
  | of {c c' : Category} {ts : List Token} {e : Expr} (hinclude : Includes c c')
      (hinner : Reads c' ts e) : Reads c ts e
  | assign {name equals : Token} {ts : List Token} {value : Expr}
      (hname : name.kind = .identifier) (hequals : equals.kind = .equal)
      (hvalue : Reads .assignment ts value) :
      Reads .assignment (name :: equals :: ts) (.assign .blank name.lexeme value)
  | set {ts us : List Token} {dot name equals : Token} {object value : Expr}
      (hobject : Reads .access ts object) (hdot : dot.kind = .dot)
      (hname : name.kind = .identifier) (hequals : equals.kind = .equal)
      (hvalue : Reads .assignment us value) :
      Reads .assignment (ts ++ dot :: name :: equals :: us)
        (.set .blank object name.lexeme .blank value)
  | operator {l : Level} {c : Category} {ts us : List Token} {sign : Token} {op : Operator}
      {left right : Expr} (hleft : Reads (.level l) ts left)
      (hsign : BinarySign l sign.kind op) (hinclude : Includes (.level l) c)
      (hright : Reads c us right) :
      Reads (.level l) (ts ++ sign :: us) (op.apply .blank left right .blank)
  | unary {sign : Token} {ts : List Token} {op : UnaryOp} {operand : Expr}
      (hsign : UnarySign sign.kind op) (hoperand : Reads .unary ts operand) :
      Reads .unary (sign :: ts) (.unary .blank op operand)
  | bareNew {word : Token} {ts : List Token} {callee : Expr} (hword : word.kind = .new)
      (hcallee : ReadsClass ts callee) :
      Reads .call (word :: ts) (.new .blank callee [] .blank)
  | new {word : Token} {ts us : List Token} {callee : Expr} {arguments : List Expr}
      (hword : word.kind = .new) (hcallee : ReadsClass ts callee)
      (harguments : Arguments us arguments) :
      Reads .access (word :: ts ++ us) (.new .blank callee arguments .blank)
  | call {ts us : List Token} {callee : Expr} {arguments : List Expr}
      (hcallee : Reads .access ts callee) (harguments : Arguments us arguments) :
      Reads .access (ts ++ us) (.call .blank callee arguments .blank)
  | get {ts : List Token} {dot name : Token} {object : Expr}
      (hobject : Reads .access ts object) (hdot : dot.kind = .dot)
      (hname : name.kind = .identifier) :
      Reads .access (ts ++ [dot, name]) (.get .blank object name.lexeme .blank)
  | literal {t : Token} {value : Constant} (hvalue : Written t value) :
      Reads .primary [t] (.literal .blank value)
  | this {t : Token} (hkind : t.kind = .this) : Reads .primary [t] (.this .blank)
  | name {t : Token} (hkind : t.kind = .identifier) :
      Reads .primary [t] (.variable .blank t.lexeme)
  | grouping {left right : Token} {ts : List Token} {inner : Expr}
      (hleft : left.kind = .leftParen) (hinner : Reads .assignment ts inner)
      (hright : right.kind = .rightParen) :
      Reads .primary (left :: ts ++ [right]) (.grouping .blank inner)

/-- The class after a `new`: property names may follow it, but no calls. -/
inductive ReadsClass : List Token → Expr → Prop where
  | primary {ts : List Token} {e : Expr} (h : Reads .primary ts e) : ReadsClass ts e
  | get {ts : List Token} {dot name : Token} {object : Expr}
      (hobject : ReadsClass ts object) (hdot : dot.kind = .dot)
      (hname : name.kind = .identifier) :
      ReadsClass (ts ++ [dot, name]) (.get .blank object name.lexeme .blank)

/-- Arguments in their parentheses. -/
inductive Arguments : List Token → List Expr → Prop where
  | none {left right : Token} (hleft : left.kind = .leftParen)
      (hright : right.kind = .rightParen) : Arguments [left, right] []
  | some {left right : Token} {ts : List Token} {values : List Expr}
      (hleft : left.kind = .leftParen) (hvalues : Values ts values)
      (hlength : values.length ≤ 255) (hright : right.kind = .rightParen) :
      Arguments (left :: ts ++ [right]) values

/-- One or more expressions with commas between them. -/
inductive Values : List Token → List Expr → Prop where
  | one {ts : List Token} {value : Expr} (hvalue : Reads .assignment ts value) :
      Values ts [value]
  | more {ts us : List Token} {comma : Token} {value : Expr} {values : List Expr}
      (hvalue : Reads .assignment ts value) (hcomma : comma.kind = .comma)
      (hvalues : Values us values) : Values (ts ++ comma :: us) (value :: values)
end

/-- A name by itself is an expression. -/
theorem Reads.of_name {t : Token} (hkind : t.kind = .identifier) :
    Reads .assignment [t] (.variable .blank t.lexeme) :=
  have hprimary : Reads .primary [t] (.variable .blank t.lexeme) := .name hkind
  .of .assignment <| .of .or <| .of .and <| .of .equality <| .of .comparison <|
    .of .term <| .of .factor <| .of .unary <| .of .call <| .of .access hprimary

/-! ## Parts of statements -/

/-- An expression that may be left out. -/
inductive Maybe : List Token → Option Expr → Prop where
  | none : Maybe [] none
  | some {ts : List Token} {e : Expr} (h : Reads .assignment ts e) : Maybe ts (some e)

/-- One or more names with commas between them. -/
inductive Names : List Token → List String → Prop where
  | one {name : Token} (hname : name.kind = .identifier) : Names [name] [name.lexeme]
  | more {name comma : Token} {ts : List Token} {names : List String}
      (hname : name.kind = .identifier) (hcomma : comma.kind = .comma)
      (hnames : Names ts names) : Names (name :: comma :: ts) (name.lexeme :: names)

/-- Parameters, of which there may be none. -/
inductive Parameters : List Token → List String → Prop where
  | none : Parameters [] []
  | some {ts : List Token} {names : List String} (hnames : Names ts names)
      (hlength : names.length ≤ 255) : Parameters ts names

/-- An expression and a semicolon. -/
inductive ExpressionStatement : List Token → Stmt → Prop where
  | mk {ts : List Token} {semicolon : Token} {value : Expr}
      (hvalue : Reads .assignment ts value) (hsemicolon : semicolon.kind = .semicolon) :
      ExpressionStatement (ts ++ [semicolon]) (.expression value .blank)

/-- A variable declaration, with its semicolon. -/
inductive VarDeclaration : List Token → Stmt → Prop where
  | bare {word name semicolon : Token} (hword : word.kind = .var)
      (hname : name.kind = .identifier) (hsemicolon : semicolon.kind = .semicolon) :
      VarDeclaration [word, name, semicolon] (.var name.lexeme none .blank)
  | initialized {word name equals semicolon : Token} {ts : List Token} {value : Expr}
      (hword : word.kind = .var) (hname : name.kind = .identifier)
      (hequals : equals.kind = .equal) (hvalue : Reads .assignment ts value)
      (hsemicolon : semicolon.kind = .semicolon) :
      VarDeclaration (word :: name :: equals :: ts ++ [semicolon])
        (.var name.lexeme (some value) .blank)

/-- What stands before the condition of a `for` statement, with its semicolon. -/
inductive LoopStart : List Token → Option Stmt → Prop where
  | none {semicolon : Token} (hsemicolon : semicolon.kind = .semicolon) :
      LoopStart [semicolon] none
  | var {ts : List Token} {s : Stmt} (h : VarDeclaration ts s) : LoopStart ts (some s)
  | expression {ts : List Token} {s : Stmt} (h : ExpressionStatement ts s) :
      LoopStart ts (some s)

/-- The condition of a loop that is written without one. -/
def always : Expr := .literal .blank (.bool true)

/-- The tree of a `for` statement: the increment follows the body in a block, and the
initializer goes before the loop in a block. -/
def loopTree : Option Stmt → Expr → Option Expr → Stmt → Stmt
  | none, condition, none, body => .while condition body .blank
  | none, condition, some increment, body =>
    .while condition (.block [body, .expression increment .blank] .blank) .blank
  | some initializer, condition, none, body =>
    .block [initializer, .while condition body .blank] .blank
  | some initializer, condition, some increment, body =>
    .block
      [initializer,
        .while condition (.block [body, .expression increment .blank] .blank) .blank]
      .blank

/-! ## Statements -/

mutual
/-- What may stand at top level and in a block. -/
inductive Declares : List Token → Stmt → Prop where
  | class {word name left right : Token} {ts : List Token} {methods : List FunctionDecl}
      (hword : word.kind = .class) (hname : name.kind = .identifier)
      (hleft : left.kind = .leftBrace) (hmethods : Methods ts methods)
      (hright : right.kind = .rightBrace) :
      Declares (word :: name :: left :: ts ++ [right]) (.class name.lexeme methods .blank)
  | function {word : Token} {ts : List Token} {decl : FunctionDecl}
      (hword : word.kind = .fun) (hdecl : Defines ts decl) :
      Declares (word :: ts) (.function decl .blank)
  | var {ts : List Token} {s : Stmt} (h : VarDeclaration ts s) : Declares ts s
  | statement {isOpen : Bool} {ts : List Token} {s : Stmt} (h : States isOpen ts s) :
      Declares ts s

/-- Statements that are no declarations, open or closed. -/
inductive States : Bool → List Token → Stmt → Prop where
  | expression {ts : List Token} {s : Stmt} (h : ExpressionStatement ts s) :
      States false ts s
  | print {word semicolon : Token} {ts : List Token} {value : Expr}
      (hword : word.kind = .print) (hvalue : Reads .assignment ts value)
      (hsemicolon : semicolon.kind = .semicolon) :
      States false (word :: ts ++ [semicolon]) (.print value .blank)
  | return {word semicolon : Token} {ts : List Token} {value : Option Expr}
      (hword : word.kind = .return) (hvalue : Maybe ts value)
      (hsemicolon : semicolon.kind = .semicolon) :
      States false (word :: ts ++ [semicolon]) (.return value .blank)
  | block {left right : Token} {ts : List Token} {body : List Stmt}
      (hleft : left.kind = .leftBrace) (hbody : Items ts body)
      (hright : right.kind = .rightBrace) :
      States false (left :: ts ++ [right]) (.block body .blank)
  | ifThen {word left right : Token} {ts us : List Token} {condition : Expr}
      {thenBranch : Stmt} {isOpen : Bool} (hword : word.kind = .if)
      (hleft : left.kind = .leftParen) (hcondition : Reads .assignment ts condition)
      (hright : right.kind = .rightParen) (hthen : States isOpen us thenBranch) :
      States true (word :: left :: ts ++ right :: us)
        (.ifElse condition thenBranch none .blank)
  | ifElse {word left right other : Token} {ts us vs : List Token} {condition : Expr}
      {thenBranch elseBranch : Stmt} {isOpen : Bool} (hword : word.kind = .if)
      (hleft : left.kind = .leftParen) (hcondition : Reads .assignment ts condition)
      (hright : right.kind = .rightParen) (hthen : States false us thenBranch)
      (hother : other.kind = .else) (helse : States isOpen vs elseBranch) :
      States isOpen (word :: left :: ts ++ right :: us ++ other :: vs)
        (.ifElse condition thenBranch (some elseBranch) .blank)
  | while {word left right : Token} {ts us : List Token} {condition : Expr} {body : Stmt}
      {isOpen : Bool} (hword : word.kind = .while) (hleft : left.kind = .leftParen)
      (hcondition : Reads .assignment ts condition) (hright : right.kind = .rightParen)
      (hbody : States isOpen us body) :
      States isOpen (word :: left :: ts ++ right :: us) (.while condition body .blank)
  | for {word left semicolon right : Token} {ts us vs ws : List Token}
      {initializer : Option Stmt} {condition increment : Option Expr} {body : Stmt}
      {isOpen : Bool} (hword : word.kind = .for) (hleft : left.kind = .leftParen)
      (hinitializer : LoopStart ts initializer) (hcondition : Maybe us condition)
      (hsemicolon : semicolon.kind = .semicolon) (hincrement : Maybe vs increment)
      (hright : right.kind = .rightParen) (hbody : States isOpen ws body) :
      States isOpen (word :: left :: ts ++ us ++ semicolon :: vs ++ right :: ws)
        (loopTree initializer (condition.getD always) increment body)

/-- A function or method from its name on. -/
inductive Defines : List Token → FunctionDecl → Prop where
  | mk {name left right leftBrace rightBrace : Token} {ts us : List Token}
      {params : List String} {body : List Stmt} (hname : name.kind = .identifier)
      (hleft : left.kind = .leftParen) (hparams : Parameters ts params)
      (hright : right.kind = .rightParen) (hleftBrace : leftBrace.kind = .leftBrace)
      (hbody : Items us body) (hrightBrace : rightBrace.kind = .rightBrace) :
      Defines (name :: left :: ts ++ right :: leftBrace :: us ++ [rightBrace])
        (.mk 0 name.lexeme params body .blank)

/-- Declarations and statements in a row. -/
inductive Items : List Token → List Stmt → Prop where
  | nil : Items [] []
  | cons {ts us : List Token} {s : Stmt} {ss : List Stmt} (hfirst : Declares ts s)
      (hothers : Items us ss) : Items (ts ++ us) (s :: ss)

/-- Methods in a row. -/
inductive Methods : List Token → List FunctionDecl → Prop where
  | nil : Methods [] []
  | cons {ts us : List Token} {f : FunctionDecl} {fs : List FunctionDecl}
      (hfirst : Defines ts f) (hothers : Methods us fs) : Methods (ts ++ us) (f :: fs)
end

/-- Programs: declarations and statements up to the end token. -/
inductive Derives : List Token → Program → Prop where
  | mk {ts : List Token} {last : Token} {statements : List Stmt}
      (hstatements : Items ts statements) (hlast : last.kind = .eof) :
      Derives (ts ++ [last]) ⟨statements⟩

end Grammar

end Lox
