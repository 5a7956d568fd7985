import Lox.Proofs.Syntax.Complete

/-!
# Boundaries between statements

`ItemsAround before after ss` says that the tokens of the statements `ss` are `before ++ after`,
and that between these two lists one statement ends and another one may begin.  The place may be
at any depth: in blocks, in the bodies of functions and methods, in branches and loops.

**Insertion.** Tokens that may be put in front of any statements in a row, without a change of
these, may be put at every such place (`accepted_of_itemsAround`).
-/

namespace Lox

namespace Grammar

mutual
/-- A declaration with a boundary inside of it. -/
inductive DeclaresAround : List Token → List Token → Stmt → Prop where
  | class {word name left right : Token} {before after : List Token}
      {methods : List FunctionDecl} (hword : word.kind = .class)
      (hname : name.kind = .identifier) (hleft : left.kind = .leftBrace)
      (hmethods : MethodsAround before after methods) (hright : right.kind = .rightBrace) :
      DeclaresAround (word :: name :: left :: before) (after ++ [right])
        (.class name.lexeme methods .blank)
  | function {word : Token} {before after : List Token} {decl : FunctionDecl}
      (hword : word.kind = .fun) (hdecl : DefinesAround before after decl) :
      DeclaresAround (word :: before) after (.function decl .blank)
  | statement {isOpen : Bool} {before after : List Token} {s : Stmt}
      (h : StatesAround isOpen before after s) : DeclaresAround before after s

/-- A statement with a boundary inside of it. -/
inductive StatesAround : Bool → List Token → List Token → Stmt → Prop where
  | block {left right : Token} {before after : List Token} {body : List Stmt}
      (hleft : left.kind = .leftBrace) (hbody : ItemsAround before after body)
      (hright : right.kind = .rightBrace) :
      StatesAround false (left :: before) (after ++ [right]) (.block body .blank)
  | ifThen {word left right : Token} {ts before after : List Token} {condition : Expr}
      {thenBranch : Stmt} {isOpen : Bool} (hword : word.kind = .if)
      (hleft : left.kind = .leftParen) (hcondition : Reads .assignment ts condition)
      (hright : right.kind = .rightParen) (hthen : StatesAround isOpen before after thenBranch) :
      StatesAround true (word :: left :: ts ++ right :: before) after
        (.ifElse condition thenBranch none .blank)
  | thenBranch {word left right other : Token} {ts before after us : List Token}
      {condition : Expr} {thenBranch elseBranch : Stmt} {isOpen : Bool}
      (hword : word.kind = .if) (hleft : left.kind = .leftParen)
      (hcondition : Reads .assignment ts condition) (hright : right.kind = .rightParen)
      (hthen : StatesAround false before after thenBranch) (hother : other.kind = .else)
      (helse : States isOpen us elseBranch) :
      StatesAround isOpen (word :: left :: ts ++ right :: before) (after ++ other :: us)
        (.ifElse condition thenBranch (some elseBranch) .blank)
  | elseBranch {word left right other : Token} {ts us before after : List Token}
      {condition : Expr} {thenBranch elseBranch : Stmt} {isOpen : Bool}
      (hword : word.kind = .if) (hleft : left.kind = .leftParen)
      (hcondition : Reads .assignment ts condition) (hright : right.kind = .rightParen)
      (hthen : States false us thenBranch) (hother : other.kind = .else)
      (helse : StatesAround isOpen before after elseBranch) :
      StatesAround isOpen (word :: left :: ts ++ right :: us ++ other :: before) after
        (.ifElse condition thenBranch (some elseBranch) .blank)
  | while {word left right : Token} {ts before after : List Token} {condition : Expr}
      {body : Stmt} {isOpen : Bool} (hword : word.kind = .while)
      (hleft : left.kind = .leftParen) (hcondition : Reads .assignment ts condition)
      (hright : right.kind = .rightParen) (hbody : StatesAround isOpen before after body) :
      StatesAround isOpen (word :: left :: ts ++ right :: before) after
        (.while condition body .blank)
  | for {word left semicolon right : Token} {ts us vs before after : List Token}
      {initializer : Option Stmt} {condition increment : Option Expr} {body : Stmt}
      {isOpen : Bool} (hword : word.kind = .for) (hleft : left.kind = .leftParen)
      (hinitializer : LoopStart ts initializer) (hcondition : Maybe us condition)
      (hsemicolon : semicolon.kind = .semicolon) (hincrement : Maybe vs increment)
      (hright : right.kind = .rightParen) (hbody : StatesAround isOpen before after body) :
      StatesAround isOpen (word :: left :: ts ++ us ++ semicolon :: vs ++ right :: before) after
        (loopTree initializer (condition.getD always) increment body)

/-- A function or method with a boundary in its body. -/
inductive DefinesAround : List Token → List Token → FunctionDecl → Prop where
  | mk {name left right leftBrace rightBrace : Token} {ts before after : List Token}
      {params : List String} {body : List Stmt} (hname : name.kind = .identifier)
      (hleft : left.kind = .leftParen) (hparams : Parameters ts params)
      (hright : right.kind = .rightParen) (hleftBrace : leftBrace.kind = .leftBrace)
      (hbody : ItemsAround before after body) (hrightBrace : rightBrace.kind = .rightBrace) :
      DefinesAround (name :: left :: ts ++ right :: leftBrace :: before) (after ++ [rightBrace])
        (.mk 0 name.lexeme params body .blank)

/-- Statements in a row with a boundary between two of them, before the first one or after the
last one, or inside of one of them. -/
inductive ItemsAround : List Token → List Token → List Stmt → Prop where
  | here {ts : List Token} {ss : List Stmt} (h : Items ts ss) : ItemsAround [] ts ss
  | later {ts before after : List Token} {s : Stmt} {ss : List Stmt} (hfirst : Declares ts s)
      (hothers : ItemsAround before after ss) : ItemsAround (ts ++ before) after (s :: ss)
  | inside {before after us : List Token} {s : Stmt} {ss : List Stmt}
      (hfirst : DeclaresAround before after s) (hothers : Items us ss) :
      ItemsAround before (after ++ us) (s :: ss)

/-- Methods in a row, one of them with a boundary in its body. -/
inductive MethodsAround : List Token → List Token → List FunctionDecl → Prop where
  | first {before after us : List Token} {f : FunctionDecl} {fs : List FunctionDecl}
      (hfirst : DefinesAround before after f) (hothers : Methods us fs) :
      MethodsAround before (after ++ us) (f :: fs)
  | later {ts before after : List Token} {f : FunctionDecl} {fs : List FunctionDecl}
      (hfirst : Defines ts f) (hothers : MethodsAround before after fs) :
      MethodsAround (ts ++ before) after (f :: fs)
end

end Grammar

namespace Parse

open Grammar

/-! ## First tokens -/

theorem begins_append {P : Token → Prop} {before : List Token}
    (h : ∃ t ts, before = t :: ts ∧ P t) (inserted after : List Token) :
    ∃ t ts, before ++ inserted ++ after = t :: ts ∧ P t := by
  obtain ⟨t, ts, rfl, ht⟩ := h
  exact ⟨t, ts ++ inserted ++ after, rfl, ht⟩

theorem begins_of_statesAround {isOpen : Bool} {before after : List Token} {s : Stmt}
    (h : StatesAround isOpen before after s) :
    ∃ t us, before = t :: us ∧ beginsStatement t.kind = true := by
  cases h with
  | block hleft => exact ⟨_, _, rfl, by rw [hleft]; rfl⟩
  | ifThen hword => exact ⟨_, _, rfl, by rw [hword]; rfl⟩
  | thenBranch hword => exact ⟨_, _, rfl, by rw [hword]; rfl⟩
  | elseBranch hword => exact ⟨_, _, rfl, by rw [hword]; rfl⟩
  | «while» hword => exact ⟨_, _, rfl, by rw [hword]; rfl⟩
  | «for» hword => exact ⟨_, _, rfl, by rw [hword]; rfl⟩

theorem begins_of_declaresAround {before after : List Token} {s : Stmt}
    (h : DeclaresAround before after s) :
    ∃ t us, before = t :: us ∧ beginsDeclaration t.kind = true := by
  cases h with
  | «class» hword => exact ⟨_, _, rfl, by rw [hword]; rfl⟩
  | function hword => exact ⟨_, _, rfl, by rw [hword]; rfl⟩
  | statement hstates =>
    obtain ⟨t, us, rfl, ht⟩ := begins_of_statesAround hstates
    exact ⟨t, us, rfl, beginsDeclaration_of_beginsStatement ht⟩

theorem begins_of_definesAround {before after : List Token} {f : FunctionDecl}
    (h : DefinesAround before after f) :
    ∃ t us, before = t :: us ∧ t.kind = .identifier := by
  obtain ⟨hname, -⟩ := h
  exact ⟨_, _, rfl, hname⟩

theorem ne_nil_of_statesAround {isOpen : Bool} {before after inserted : List Token}
    {s : Stmt} (h : StatesAround isOpen before after s) : before ++ inserted ++ after ≠ [] := by
  obtain ⟨t, us, rfl, -⟩ := begins_of_statesAround h
  simp

theorem ne_nil_of_definesAround {before after inserted : List Token} {f : FunctionDecl}
    (h : DefinesAround before after f) : before ++ inserted ++ after ≠ [] := by
  obtain ⟨t, us, rfl, -⟩ := begins_of_definesAround h
  simp

/-! ## Insertion -/

section Insertion

variable {blamed inserted : List Token}

theorem not_at_else_of_around {before after : List Token} {ss : List Stmt}
    (hinserted : ¬ At .else inserted) (h : ItemsAround before after ss) :
    ¬ At .else (before ++ inserted ++ after) := by
  have hbegins : ∀ {t : Token} {ts : List Token}, beginsDeclaration t.kind = true →
      ¬ At .else (t :: ts) := by
    intro t ts ht hat
    rw [At.cons_iff.1 hat] at ht
    cases ht
  cases h with
  | here hitems => exact At.not_append hinserted (not_at_of_items hitems rfl)
  | later hfirst _ =>
    obtain ⟨t, us, rfl, ht⟩ := begins_of_declares hfirst
    exact hbegins ht
  | inside hfirst _ =>
    obtain ⟨t, us, rfl, ht⟩ := begins_of_declaresAround hfirst
    exact hbegins ht

/-- The tokens may be put in front of statements in a row, which are read all the same. -/
def Insertable (blamed inserted : List Token) : Prop :=
  ¬ At .else inserted ∧
    ∀ ts ss, Items ts ss → AcceptedItems blamed (inserted ++ ts) ss

mutual
theorem accepted_of_declaresAround (hinserted : Insertable blamed inserted)
    {before after : List Token} {s : Stmt} :
    DeclaresAround before after s → AcceptedDeclaration blamed (before ++ inserted ++ after) s
  | .class hword hname hleft hmethods hright => by
    have h := accepted_class hword hname hleft
      (accepted_of_methodsAround hinserted hmethods) hright
    simpa using h
  | .function hword hdecl => by
    exact accepted_functionDeclaration hword (ne_nil_of_definesAround hdecl)
      (accepted_of_definesAround hinserted hdecl)
  | .statement h => by
    have hbegins := begins_append (begins_of_statesAround h) inserted
    exact accepted_statementDeclaration (hbegins _) (accepted_of_statesAround hinserted h)

theorem accepted_of_statesAround (hinserted : Insertable blamed inserted)
    {isOpen : Bool} {before after : List Token} {s : Stmt} :
    StatesAround isOpen before after s →
      AcceptedStatement blamed isOpen (before ++ inserted ++ after) s
  | .block hleft hbody hright => by
    have h := accepted_block hleft (accepted_of_itemsAround hinserted hbody) hright
    simpa using h
  | .ifThen hword hleft hcondition hright hthen => by
    have h := accepted_ifThen hword hleft hcondition hright
      (ne_nil_of_statesAround hthen) (accepted_of_statesAround hinserted hthen)
    simpa using h
  | .thenBranch hword hleft hcondition hright hthen hother helse => by
    have h := accepted_ifElse hword hleft hcondition hright
      (accepted_of_statesAround hinserted hthen) hother (accepted_of_states helse)
    simpa using h
  | .elseBranch hword hleft hcondition hright hthen hother helse => by
    have h := accepted_ifElse hword hleft hcondition hright (accepted_of_states hthen) hother
      (accepted_of_statesAround hinserted helse)
    simpa using h
  | .while hword hleft hcondition hright hbody => by
    have h := accepted_while hword hleft hcondition hright
      (ne_nil_of_statesAround hbody) (accepted_of_statesAround hinserted hbody)
    simpa using h
  | .for hword hleft hinitializer hcondition hsemicolon hincrement hright hbody => by
    have h := accepted_for hword hleft hinitializer hcondition hsemicolon hincrement hright
      (ne_nil_of_statesAround hbody) (accepted_of_statesAround hinserted hbody)
    simpa using h

theorem accepted_of_definesAround (hinserted : Insertable blamed inserted)
    {before after : List Token} {f : FunctionDecl} :
    DefinesAround before after f → AcceptedFunction blamed (before ++ inserted ++ after) f
  | .mk hname hleft hparams hright hleftBrace hbody hrightBrace => by
    have h := accepted_function hname hleft hparams hright hleftBrace
      (accepted_of_itemsAround hinserted hbody) hrightBrace
    simpa using h

theorem accepted_of_itemsAround (hinserted : Insertable blamed inserted)
    {before after : List Token} {ss : List Stmt} :
    ItemsAround before after ss → AcceptedItems blamed (before ++ inserted ++ after) ss
  | .here h => hinserted.2 _ _ h
  | .later hfirst hothers => by
    have h := acceptedItems_cons (begins_of_declares hfirst)
      (not_at_else_of_around hinserted.1 hothers) (accepted_of_declares hfirst)
      (accepted_of_itemsAround hinserted hothers)
    simpa using h
  | .inside hfirst hothers => by
    have hbegins := begins_append (begins_of_declaresAround hfirst) inserted
    have h := acceptedItems_cons (hbegins _) (not_at_of_items hothers rfl)
      (accepted_of_declaresAround hinserted hfirst) (accepted_of_items hothers)
    simpa using h

theorem accepted_of_methodsAround (hinserted : Insertable blamed inserted)
    {before after : List Token} {fs : List FunctionDecl} :
    MethodsAround before after fs → AcceptedMethods blamed (before ++ inserted ++ after) fs
  | .first hfirst hothers => by
    have hbegins := begins_append (begins_of_definesAround hfirst) inserted
    have h := acceptedMethods_cons (hbegins _) (accepted_of_definesAround hinserted hfirst)
      (accepted_of_methods hothers)
    simpa using h
  | .later hfirst hothers => by
    have h := acceptedMethods_cons (begins_of_defines hfirst) (accepted_of_defines hfirst)
      (accepted_of_methodsAround hinserted hothers)
    simpa using h
end

end Insertion

end Parse

end Lox
