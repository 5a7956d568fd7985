import Lox.Proofs.Token.Words
import Lox.Session

/-!
# Orderly programs

A program is orderly if declarations stand only at top level, in blocks and in bodies of
functions, and no declared name is a keyword.  Every program of a source text is
(`orderly_of_compile`).

**Branches.** The branches of an `if` statement and the body of a loop declare nothing,
although the trees do not forbid it.
-/

namespace Lox

/-- The statement declares a name. -/
def Stmt.isDeclaration : Stmt → Bool
  | .var .. | .function .. | .class .. => true
  | _ => false

/-- The name can be declared. -/
def IsDeclarable (name : String) : Prop := Token.Kind.keyword? name = none

theorem IsDeclarable.ne_this {name : String} (h : IsDeclarable name) : name ≠ "this" := by
  rintro rfl
  cases h

mutual
/-- Declared names are no keywords, and branches and bodies of loops are no
declarations. -/
def Stmt.Orderly : Stmt → Prop
  | .var name _ _ => IsDeclarable name
  | .block body _ => Stmt.OrderlyAll body
  | .ifElse _ thenBranch none _ => thenBranch.Orderly ∧ thenBranch.isDeclaration = false
  | .ifElse _ thenBranch (some elseBranch) _ =>
    (thenBranch.Orderly ∧ thenBranch.isDeclaration = false) ∧
      elseBranch.Orderly ∧ elseBranch.isDeclaration = false
  | .while _ body _ => body.Orderly ∧ body.isDeclaration = false
  | .function decl _ => IsDeclarable decl.name ∧ decl.Orderly
  | .class name methods _ => IsDeclarable name ∧ FunctionDecl.OrderlyAll methods
  | _ => True

/-- All the statements are orderly. -/
def Stmt.OrderlyAll : List Stmt → Prop
  | [] => True
  | s :: ss => s.Orderly ∧ Stmt.OrderlyAll ss

/-- Parameters are no keywords, and the body is orderly. -/
def FunctionDecl.Orderly : FunctionDecl → Prop
  | .mk _ _ params body _ => (∀ param ∈ params, IsDeclarable param) ∧ Stmt.OrderlyAll body

/-- All the functions are orderly. -/
def FunctionDecl.OrderlyAll : List FunctionDecl → Prop
  | [] => True
  | f :: fs => f.Orderly ∧ FunctionDecl.OrderlyAll fs
end

/-- All statements of the program are orderly. -/
def Program.Orderly (p : Program) : Prop := Stmt.OrderlyAll p.statements

theorem FunctionDecl.Orderly.of_mem {f : FunctionDecl} {fs : List FunctionDecl}
    (h : FunctionDecl.OrderlyAll fs) (hf : f ∈ fs) : f.Orderly := by
  induction fs with
  | nil => cases hf
  | cons first fs ih =>
    rw [FunctionDecl.OrderlyAll] at h
    rcases List.mem_cons.1 hf with rfl | hf
    · exact h.1
    · exact ih h.2 hf

theorem FunctionDecl.Orderly.body {f : FunctionDecl} (h : f.Orderly) :
    Stmt.OrderlyAll f.body := by
  cases f with
  | mk number name params body span =>
    rw [FunctionDecl.Orderly] at h
    exact h.2

theorem FunctionDecl.Orderly.params {f : FunctionDecl} (h : f.Orderly) :
    ∀ param ∈ f.params, IsDeclarable param := by
  cases f with
  | mk number name params body span =>
    rw [FunctionDecl.Orderly] at h
    exact h.1

/-! ## Bare trees -/

theorem Stmt.isDeclaration_bare (s : Stmt) : s.bare.isDeclaration = s.isDeclaration := by
  match s with
  | .ifElse _ _ none _ => rw [Stmt.bare]; rfl
  | .ifElse _ _ (some _) _ => rw [Stmt.bare]; rfl
  | .expression .. | .print .. | .var .. | .block .. | .while .. | .function .. | .class ..
  | .return .. => rw [Stmt.bare]; rfl

theorem FunctionDecl.name_bare (f : FunctionDecl) : f.bare.name = f.name := by
  cases f
  rw [FunctionDecl.bare]
  rfl

mutual
theorem Stmt.orderly_bare : ∀ s : Stmt, s.bare.Orderly ↔ s.Orderly
  | .expression .. => by simp [Stmt.bare, Stmt.Orderly]
  | .print .. => by simp [Stmt.bare, Stmt.Orderly]
  | .var .. => by simp [Stmt.bare, Stmt.Orderly]
  | .block body _ => by
    rw [Stmt.bare, Stmt.Orderly, Stmt.Orderly, Stmt.orderlyAll_bareAll body]
  | .ifElse _ thenBranch none _ => by
    rw [Stmt.bare, Stmt.Orderly, Stmt.Orderly, Stmt.orderly_bare thenBranch,
      Stmt.isDeclaration_bare]
  | .ifElse _ thenBranch (some elseBranch) _ => by
    rw [Stmt.bare, Stmt.Orderly, Stmt.Orderly, Stmt.orderly_bare thenBranch,
      Stmt.orderly_bare elseBranch, Stmt.isDeclaration_bare, Stmt.isDeclaration_bare]
  | .while _ body _ => by
    rw [Stmt.bare, Stmt.Orderly, Stmt.Orderly, Stmt.orderly_bare body,
      Stmt.isDeclaration_bare]
  | .function decl _ => by
    rw [Stmt.bare, Stmt.Orderly, Stmt.Orderly, FunctionDecl.name_bare,
      FunctionDecl.orderly_bare decl]
  | .class _ methods _ => by
    rw [Stmt.bare, Stmt.Orderly, Stmt.Orderly, FunctionDecl.orderlyAll_bareAll methods]
  | .return .. => by simp [Stmt.bare, Stmt.Orderly]

theorem Stmt.orderlyAll_bareAll :
    ∀ ss : List Stmt, Stmt.OrderlyAll (Stmt.bareAll ss) ↔ Stmt.OrderlyAll ss
  | [] => by rw [Stmt.bareAll]
  | s :: ss => by
    rw [Stmt.bareAll, Stmt.OrderlyAll, Stmt.OrderlyAll, Stmt.orderly_bare s,
      Stmt.orderlyAll_bareAll ss]

theorem FunctionDecl.orderly_bare : ∀ f : FunctionDecl, f.bare.Orderly ↔ f.Orderly
  | .mk _ _ _ body _ => by
    rw [FunctionDecl.bare, FunctionDecl.Orderly, FunctionDecl.Orderly,
      Stmt.orderlyAll_bareAll body]

theorem FunctionDecl.orderlyAll_bareAll : ∀ fs : List FunctionDecl,
    FunctionDecl.OrderlyAll (FunctionDecl.bareAll fs) ↔ FunctionDecl.OrderlyAll fs
  | [] => by rw [FunctionDecl.bareAll]
  | f :: fs => by
    rw [FunctionDecl.bareAll, FunctionDecl.OrderlyAll, FunctionDecl.OrderlyAll,
      FunctionDecl.orderly_bare f, FunctionDecl.orderlyAll_bareAll fs]
end

/-! ## Derived programs -/

open Grammar

/-- No identifier among the tokens is spelled like a keyword. -/
def ProperNames (ts : List Token) : Prop :=
  ∀ t ∈ ts, t.kind = .identifier → IsDeclarable t.lexeme

theorem ProperNames.of_append_left {ts us : List Token} (h : ProperNames (ts ++ us)) :
    ProperNames ts :=
  fun t ht => h t (List.mem_append_left us ht)

theorem ProperNames.of_append_right {ts us : List Token} (h : ProperNames (ts ++ us)) :
    ProperNames us :=
  fun t ht => h t (List.mem_append_right ts ht)

theorem ProperNames.of_cons {t : Token} {ts : List Token} (h : ProperNames (t :: ts)) :
    ProperNames ts :=
  fun t' ht => h t' (List.mem_cons_of_mem t ht)

theorem ProperNames.first {t : Token} {ts : List Token} (h : ProperNames (t :: ts))
    (hkind : t.kind = .identifier) : IsDeclarable t.lexeme :=
  h t (List.mem_cons_self ..) hkind

theorem declarable_of_names {ts : List Token} {names : List String} (h : Names ts names)
    (hts : ProperNames ts) : ∀ name ∈ names, IsDeclarable name := by
  induction h with
  | one hname =>
    intro name hmem
    rw [List.mem_singleton.1 hmem]
    exact hts.first hname
  | more hname _ _ ih =>
    intro name hmem
    rcases List.mem_cons.1 hmem with rfl | hmem
    · exact hts.first hname
    · exact ih hts.of_cons.of_cons name hmem

theorem declarable_of_parameters {ts : List Token} {params : List String}
    (h : Parameters ts params) (hts : ProperNames ts) :
    ∀ param ∈ params, IsDeclarable param := by
  cases h with
  | none => simp
  | some hnames _ => exact declarable_of_names hnames hts

theorem orderly_of_varDeclaration {ts : List Token} {s : Stmt} (h : VarDeclaration ts s)
    (hts : ProperNames ts) : s.Orderly := by
  cases h with
  | bare _ hname _ =>
    rw [Stmt.Orderly]
    exact hts.of_cons.first hname
  | initialized _ hname _ _ _ =>
    rw [Stmt.Orderly]
    exact hts.of_cons.first hname

theorem orderly_of_expressionStatement {ts : List Token} {s : Stmt}
    (h : ExpressionStatement ts s) : s.Orderly ∧ s.isDeclaration = false := by
  cases h with
  | mk _ _ => exact ⟨by simp [Stmt.Orderly], rfl⟩

/-- A loop is orderly if its parts are, and it is no declaration. -/
theorem orderly_loopTree {ts : List Token} {initializer : Option Stmt} {condition : Expr}
    {increment : Option Expr} {body : Stmt} (hinitializer : LoopStart ts initializer)
    (hts : ProperNames ts) (hbody : body.Orderly ∧ body.isDeclaration = false) :
    (loopTree initializer condition increment body).Orderly ∧
      (loopTree initializer condition increment body).isDeclaration = false := by
  have hround (increment : Expr) :
      (Stmt.block [body, .expression increment .blank] .blank).Orderly := by
    simp [Stmt.Orderly, Stmt.OrderlyAll, hbody.1]
  cases hinitializer with
  | none _ =>
    cases increment with
    | none => exact ⟨by rwa [loopTree, Stmt.Orderly], rfl⟩
    | some increment => exact ⟨by rw [loopTree, Stmt.Orderly]; exact ⟨hround increment, rfl⟩, rfl⟩
  | var hvar =>
    have hfirst := orderly_of_varDeclaration hvar hts
    cases increment with
    | none => exact ⟨by simp [loopTree, Stmt.Orderly, Stmt.OrderlyAll, hfirst, hbody], rfl⟩
    | some increment =>
      refine ⟨?_, rfl⟩
      simp only [loopTree, Stmt.Orderly, Stmt.OrderlyAll]
      exact ⟨hfirst, ⟨⟨hbody.1, trivial, trivial⟩, rfl⟩, trivial⟩
  | expression hexpression =>
    have hfirst := (orderly_of_expressionStatement hexpression).1
    cases increment with
    | none => exact ⟨by simp [loopTree, Stmt.Orderly, Stmt.OrderlyAll, hfirst, hbody], rfl⟩
    | some increment =>
      refine ⟨?_, rfl⟩
      simp only [loopTree, Stmt.Orderly, Stmt.OrderlyAll]
      exact ⟨hfirst, ⟨⟨hbody.1, trivial, trivial⟩, rfl⟩, trivial⟩

mutual
theorem orderly_of_declares {ts : List Token} {s : Stmt} :
    Declares ts s → ProperNames ts → s.Orderly
  | .class _ hname _ hmethods _, hts => by
    rw [Stmt.Orderly]
    exact ⟨hts.of_cons.first hname,
      orderly_of_methods hmethods hts.of_append_left.of_cons.of_cons.of_cons⟩
  | .function _ hdecl, hts => by
    rw [Stmt.Orderly]
    exact orderly_of_defines hdecl hts.of_cons
  | .var h, hts => orderly_of_varDeclaration h hts
  | .statement h, hts => (orderly_of_states h hts).1

theorem orderly_of_states {isOpen : Bool} {ts : List Token} {s : Stmt} :
    States isOpen ts s → ProperNames ts → s.Orderly ∧ s.isDeclaration = false
  | .expression h, _ => orderly_of_expressionStatement h
  | .print .., _ => ⟨by simp [Stmt.Orderly], rfl⟩
  | .return .., _ => ⟨by simp [Stmt.Orderly], rfl⟩
  | .block _ hbody _, hts =>
    ⟨by rw [Stmt.Orderly]; exact orderly_of_items hbody hts.of_append_left.of_cons, rfl⟩
  | .ifThen _ _ _ _ hthen, hts =>
    ⟨by rw [Stmt.Orderly]; exact orderly_of_states hthen hts.of_append_right.of_cons, rfl⟩
  | .ifElse _ _ _ _ hthen _ helse, hts => by
    refine ⟨?_, rfl⟩
    rw [Stmt.Orderly]
    exact ⟨orderly_of_states hthen hts.of_append_left.of_append_right.of_cons,
      orderly_of_states helse hts.of_append_right.of_cons⟩
  | .while _ _ _ _ hbody, hts =>
    ⟨by rw [Stmt.Orderly]; exact orderly_of_states hbody hts.of_append_right.of_cons, rfl⟩
  | .for _ _ hinitializer _ _ _ _ hbody, hts =>
    orderly_loopTree hinitializer
      hts.of_append_left.of_append_left.of_append_left.of_cons.of_cons
      (orderly_of_states hbody hts.of_append_right.of_cons)

theorem orderly_of_defines {ts : List Token} {f : FunctionDecl} :
    Defines ts f → ProperNames ts → IsDeclarable f.name ∧ f.Orderly
  | .mk hname _ hparams _ _ hbody _, hts => by
    refine ⟨hts.first hname, ?_⟩
    rw [FunctionDecl.Orderly]
    exact ⟨declarable_of_parameters hparams hts.of_append_left.of_append_left.of_cons.of_cons,
      orderly_of_items hbody hts.of_append_left.of_append_right.of_cons.of_cons⟩

theorem orderly_of_items {ts : List Token} {ss : List Stmt} :
    Items ts ss → ProperNames ts → Stmt.OrderlyAll ss
  | .nil, _ => by rw [Stmt.OrderlyAll]; trivial
  | .cons hfirst hothers, hts => by
    rw [Stmt.OrderlyAll]
    exact ⟨orderly_of_declares hfirst hts.of_append_left,
      orderly_of_items hothers hts.of_append_right⟩

theorem orderly_of_methods {ts : List Token} {fs : List FunctionDecl} :
    Methods ts fs → ProperNames ts → FunctionDecl.OrderlyAll fs
  | .nil, _ => by rw [FunctionDecl.OrderlyAll]; trivial
  | .cons hfirst hothers, hts => by
    rw [FunctionDecl.OrderlyAll]
    exact ⟨(orderly_of_defines hfirst hts.of_append_left).2,
      orderly_of_methods hothers hts.of_append_right⟩
end

/-! ## Compiled programs -/

/-- A text that compiles is read without error, and its names are resolved without
error. -/
theorem compile_eq_ok {supply : Supply} {source : String} {c : Compiled}
    (h : (compile supply source).result = .ok c) :
    ∃ tokens, scan source = .ok tokens ∧
      c.program = (Parsed.ofTokens supply tokens).program ∧
      (Parsed.ofTokens supply tokens).errors = [] ∧
      (compile supply source).supply = (Parsed.ofTokens supply tokens).supply ∧
      c.program.resolve = .ok c.locals := by
  unfold compile at h ⊢
  split at h
  · cases h
  · next tokens htokens =>
    dsimp only at h
    unfold Parsed.compile at h
    split at h
    · next locals hresolve =>
      split at h
      · next hempty =>
        cases h
        exact ⟨tokens, htokens, rfl, List.isEmpty_iff.1 hempty, rfl, hresolve⟩
      · cases h
    · cases h

/-- The statements of a source text are derived, and none of its names is a keyword. -/
theorem items_of_compile {supply : Supply} {source : String} {c : Compiled}
    (h : (compile supply source).result = .ok c) :
    ∃ ts, Items ts (Stmt.bareAll c.program.statements) ∧ ProperNames ts := by
  obtain ⟨tokens, hscan, hprogram, herrors, -, -⟩ := compile_eq_ok h
  have hnames : ProperNames tokens := fun t ht hkind => keyword?_of_scan hscan ht hkind
  have hderives := Parsed.derives (endsOnce_of_scan hscan) herrors
  rw [← hprogram] at hderives
  generalize htree : c.program.bare = tree at hderives
  obtain ⟨hitems, -⟩ := hderives
  have hstatements : Stmt.bareAll c.program.statements = _ :=
    congrArg Program.statements htree
  rw [hstatements]
  exact ⟨_, hitems, hnames.of_append_left⟩

/-- Programs of source texts are orderly. -/
theorem orderly_of_compile {supply : Supply} {source : String} {c : Compiled}
    (h : (compile supply source).result = .ok c) : c.program.Orderly := by
  obtain ⟨ts, hitems, hnames⟩ := items_of_compile h
  rw [Program.Orderly, ← Stmt.orderlyAll_bareAll]
  exact orderly_of_items hitems hnames

end Lox
