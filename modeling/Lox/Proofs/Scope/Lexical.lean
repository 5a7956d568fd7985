import Lox.Proofs.Scope.Permitted
import Lox.Proofs.Scope.Places
import Lox.Proofs.Syntax.Targets

/-!
# Places in methods

The scopes around a reference to the receiver are blocks and functions up to the method of
the innermost class around it, and the scope of this class is the only one of these that
declares the receiver (`Place.Lexical.inMethod`).  So is the place of every occurrence in a
program that compiles (`lexical_of_compile`).
-/

namespace Lox

/-- The place is made of whole blocks, functions and methods, of which only classes declare
the receiver; the first argument says whether a class is around it. -/
inductive Place.Lexical : Bool → Place → Prop
  | top : Lexical false []
  | block {inClass body names place} :
      names.contains "this" = false → Lexical inClass place →
      Lexical inClass (⟨.block body, names⟩ :: place)
  | function {inClass f names place} :
      names.contains "this" = false → Lexical inClass place →
      Lexical inClass (⟨.function f, names⟩ :: place)
  | method {inClass f methods names bound place} :
      f ∈ methods → names.contains "this" = false → bound.contains "this" = true →
      Lexical inClass place →
      Lexical true (⟨.function f, names⟩ :: ⟨.receiver methods, bound⟩ :: place)

/-- So many scopes out, the place is in a method of a class, which is the innermost class
around it. -/
structure Place.InMethod (place : Place) (depth : Nat) (f : FunctionDecl)
    (methods : List FunctionDecl) : Prop where
  /-- The scope of the method is in the scope of its class. -/
  scopes : ∃ outer, place.scopes.drop depth = .function f :: .receiver methods :: outer
  /-- It is a method of this class. -/
  mem : f ∈ methods
  /-- No class is between. -/
  innermost : ∀ scope ∈ place.scopes.take depth, ∀ methods', scope ≠ .receiver methods'

/-- The open scopes of the method and of its class. -/
theorem Place.InMethod.drop {place : Place} {depth : Nat} {f : FunctionDecl}
    {methods : List FunctionDecl} (h : place.InMethod depth f methods) :
    ∃ inner cls outer, place.drop depth = inner :: cls :: outer ∧ inner.scope = .function f ∧
      cls.scope = .receiver methods := by
  obtain ⟨outer, hscopes⟩ := h.scopes
  rw [Place.scopes, ← List.map_drop, List.map_eq_cons_iff] at hscopes
  obtain ⟨inner, rest, hdrop, hinner, hrest⟩ := hscopes
  rw [List.map_eq_cons_iff] at hrest
  obtain ⟨cls, outer', rfl, hcls, -⟩ := hrest
  exact ⟨inner, cls, outer', hdrop, hinner, hcls⟩

namespace Place.Lexical

variable {inClass : Bool} {place : Place}

theorem contains_set {names : Bindings Bool} {name : String} (hname : name ≠ "this")
    (left : Bool) (h : names.contains "this" = false) :
    (names.set name left).contains "this" = false := by
  rwa [Bindings.contains, Bindings.get?_set, if_neg hname]

/-- Declaring any other name does not touch the receiver. -/
theorem bind (h : Lexical inClass place) {name : String} (hname : name ≠ "this")
    (left : Bool) : Lexical inClass (place.bind name left) := by
  cases h with
  | top => exact .top
  | block hnames h => exact .block (contains_set hname left hnames) h
  | function hnames h => exact .function (contains_set hname left hnames) h
  | method hf hnames hbound h => exact .method hf (contains_set hname left hnames) hbound h

theorem bindAll (h : Lexical inClass place) {names : List String}
    (hnames : ∀ name ∈ names, IsDeclarable name) : Lexical inClass (place.bindAll names) := by
  induction names generalizing place with
  | nil => exact h
  | cons name names ih =>
    obtain ⟨hname, hnames⟩ := List.forall_mem_cons.1 hnames
    exact ih (h.bind hname.ne_this true) hnames

theorem leave (h : Lexical inClass place) {s : Stmt} (hs : s.Orderly) :
    Lexical inClass (s.leave place) := by
  cases s with
  | var name initializer span =>
    rw [Stmt.Orderly] at hs
    exact (h.bind hs.ne_this false).bind hs.ne_this true
  | function f span =>
    rw [Stmt.Orderly] at hs
    exact h.bind hs.1.ne_this true
  | «class» name methods span =>
    rw [Stmt.Orderly] at hs
    exact h.bind hs.1.ne_this true
  | _ =>
    rw [Stmt.leave_of_not_declaration hs rfl]
    exact h

theorem inside (h : Lexical inClass place) {f : FunctionDecl} (hf : f.Orderly) :
    Lexical inClass (FunctionDecl.inside place f) := by
  cases f
  rw [FunctionDecl.Orderly] at hf
  exact (function rfl h).bindAll hf.1

theorem insideMethod (h : Lexical inClass place) {f : FunctionDecl}
    {methods : List FunctionDecl} (hmem : f ∈ methods) (hf : f.Orderly) :
    Lexical true (FunctionDecl.inside (place.insideClass methods) f) := by
  cases f
  rw [FunctionDecl.Orderly] at hf
  exact (method hmem rfl rfl h).bindAll hf.1

/-- With a class around it, the place is in a method of the innermost one, and the receiver is
found one scope further out. -/
theorem inMethod (h : Lexical true place) :
    ∃ depth f methods, place.InMethod depth f methods ∧
      scopeDistance? "this" place.names = some (depth + 1) := by
  generalize hclass : true = inClass at h
  have outward {scope : Scope} {names : Bindings Bool} {place : Place}
      (hscope : ∀ methods, scope ≠ .receiver methods) (hnames : names.contains "this" = false)
      (h : ∃ depth f methods, place.InMethod depth f methods ∧
        scopeDistance? "this" place.names = some (depth + 1)) :
      ∃ depth f methods, InMethod (⟨scope, names⟩ :: place) depth f methods ∧
        scopeDistance? "this" (Place.names (⟨scope, names⟩ :: place)) = some (depth + 1) := by
    obtain ⟨depth, f, methods, ⟨hscopes, hmem, hinnermost⟩, hdistance⟩ := h
    refine ⟨depth + 1, f, methods, ⟨hscopes, hmem, List.forall_mem_cons.2 ⟨hscope, hinnermost⟩⟩, ?_⟩
    change (if names.contains "this" then some 0
      else (scopeDistance? "this" place.names).map (· + 1)) = some (depth + 1 + 1)
    rw [hnames, hdistance]
    rfl
  induction h with
  | top => cases hclass
  | block hnames _ ih => exact outward (by simp) hnames (ih hclass)
  | function hnames _ ih => exact outward (by simp) hnames (ih hclass)
  | @method _ f methods names bound place hmem hnames hbound _ _ =>
    refine ⟨0, f, methods, ⟨⟨_, rfl⟩, hmem, by simp⟩, ?_⟩
    change (if names.contains "this" then some 0
      else (if bound.contains "this" then some 0
        else (scopeDistance? "this" place.names).map (· + 1)).map (· + 1)) = some 1
    rw [hnames, hbound]
    rfl

end Place.Lexical

/-! ## Occurrences -/

/-- The expression is permitted at its place, and assigns to names that can be declared. -/
structure Occurrence.Lexical (o : Occurrence) : Prop where
  /-- It refers to the receiver in classes only. -/
  permitted : ∃ around : Enclosing, o.place.Lexical around.inClass ∧ o.expr.Permitted around
  /-- What it assigns to can be declared. -/
  targets : Declarable o.expr.targets

mutual
/-- What holds of an expression holds of its parts. -/
theorem Expr.permitted_of_mem_occurrences {around : Enclosing} {place : Place} {o : Occurrence} :
    ∀ {e : Expr}, e.Permitted around → Declarable e.targets → o ∈ e.occurrences place →
      o.expr.Permitted around ∧ Declarable o.expr.targets
  | .literal .., he, htargets, h | .variable .., he, htargets, h | .this .., he, htargets, h => by
    rw [Expr.occurrences, List.mem_singleton] at h
    rw [h]
    exact ⟨he, htargets⟩
  | .grouping _ inner, he, htargets, h => by
    rw [Expr.occurrences, List.mem_append, List.mem_singleton] at h
    rcases h with h | rfl
    · exact Expr.permitted_of_mem_occurrences (e := inner) he htargets h
    · exact ⟨he, htargets⟩
  | .unary _ _ operand, he, htargets, h => by
    rw [Expr.occurrences, List.mem_append, List.mem_singleton] at h
    rcases h with h | rfl
    · exact Expr.permitted_of_mem_occurrences (e := operand) he htargets h
    · exact ⟨he, htargets⟩
  | .binary _ _ left right _, he, htargets, h | .logical _ _ left right, he, htargets, h => by
    rw [Expr.occurrences, List.mem_append, List.mem_append, List.mem_singleton] at h
    rcases h with (h | h) | rfl
    · exact Expr.permitted_of_mem_occurrences (e := left) he.1 htargets.left h
    · exact Expr.permitted_of_mem_occurrences (e := right) he.2 htargets.right h
    · exact ⟨he, htargets⟩
  | .assign _ _ value, he, htargets, h => by
    rw [Expr.occurrences, List.mem_append, List.mem_singleton] at h
    rcases h with h | rfl
    · exact Expr.permitted_of_mem_occurrences (e := value) he
        (List.forall_mem_cons.1 htargets).2 h
    · exact ⟨he, htargets⟩
  | .call _ callee arguments _, he, htargets, h | .new _ callee arguments _, he, htargets, h => by
    rw [Expr.occurrences, List.mem_append, List.mem_append, List.mem_singleton] at h
    rcases h with (h | h) | rfl
    · exact Expr.permitted_of_mem_occurrences (e := callee) he.1 htargets.left h
    · exact Expr.permitted_of_mem_occurrencesAll (l := arguments) he.2 htargets.right h
    · exact ⟨he, htargets⟩
  | .get _ object _ _, he, htargets, h => by
    rw [Expr.occurrences, List.mem_append, List.mem_singleton] at h
    rcases h with h | rfl
    · exact Expr.permitted_of_mem_occurrences (e := object) he htargets h
    · exact ⟨he, htargets⟩
  | .set _ object _ _ value, he, htargets, h => by
    rw [Expr.occurrences, List.mem_append, List.mem_append, List.mem_singleton] at h
    rcases h with (h | h) | rfl
    · exact Expr.permitted_of_mem_occurrences (e := value) he.1 htargets.left h
    · exact Expr.permitted_of_mem_occurrences (e := object) he.2 htargets.right h
    · exact ⟨he, htargets⟩

theorem Expr.permitted_of_mem_occurrencesAll {around : Enclosing} {place : Place}
    {o : Occurrence} :
    ∀ {l : List Expr}, Expr.PermittedAll around l → Declarable (Expr.targetsAll l) →
      o ∈ Expr.occurrencesAll place l → o.expr.Permitted around ∧ Declarable o.expr.targets
  | [], _, _, h => by
    rw [Expr.occurrencesAll] at h
    cases h
  | e :: es, hes, htargets, h => by
    rw [Expr.occurrencesAll, List.mem_append] at h
    rcases h with h | h
    · exact Expr.permitted_of_mem_occurrences (e := e) hes.1 htargets.left h
    · exact Expr.permitted_of_mem_occurrencesAll (l := es) hes.2 htargets.right h
end

theorem Expr.lexical_of_mem_occurrences {around : Enclosing} {place : Place} {o : Occurrence}
    {e : Expr} (hplace : place.Lexical around.inClass) (he : e.Permitted around)
    (htargets : Declarable e.targets) (h : o ∈ e.occurrences place) : o.Lexical := by
  obtain ⟨hpermitted, hnames⟩ := Expr.permitted_of_mem_occurrences he htargets h
  refine ⟨⟨around, ?_, hpermitted⟩, hnames⟩
  rw [place_of_mem_occurrences h]
  exact hplace

theorem Expr.lexical_of_mem_occurrencesOption {around : Enclosing} {place : Place}
    {o : Occurrence} {e : Option Expr} (hplace : place.Lexical around.inClass)
    (he : Expr.PermittedOption around e) (htargets : Declarable (Expr.targetsOption e))
    (h : o ∈ Expr.occurrencesOption place e) : o.Lexical := by
  cases e with
  | none => cases h
  | some e => exact Expr.lexical_of_mem_occurrences hplace he htargets h

mutual
theorem Stmt.lexical_of_mem_occurrences {o : Occurrence} :
    ∀ {around : Enclosing} {place : Place} {s : Stmt}, place.Lexical around.inClass →
      s.Orderly → s.Permitted around → Declarable s.targets → o ∈ s.occurrences place →
      o.Lexical
  | _, _, .expression value _, hplace, _, hs, htargets, h
  | _, _, .print value _, hplace, _, hs, htargets, h => by
    rw [Stmt.occurrences] at h
    exact Expr.lexical_of_mem_occurrences (e := value) hplace hs htargets h
  | _, _, .var name initializer _, hplace, horderly, hs, htargets, h => by
    rw [Stmt.Orderly] at horderly
    rw [Stmt.occurrences] at h
    exact Expr.lexical_of_mem_occurrencesOption (hplace.bind horderly.ne_this false) hs htargets h
  | _, _, .block body _, hplace, horderly, hs, htargets, h => by
    rw [Stmt.Orderly] at horderly
    rw [Stmt.occurrences] at h
    exact Stmt.lexical_of_mem_occurrencesAll (l := body) (.block rfl hplace) horderly hs
      htargets h
  | _, _, .ifElse condition thenBranch none _, hplace, horderly, hs, htargets, h => by
    rw [Stmt.Orderly] at horderly
    rw [Stmt.occurrences, List.mem_append] at h
    rcases h with h | h
    · exact Expr.lexical_of_mem_occurrences (e := condition) hplace hs.1 htargets.left h
    · exact Stmt.lexical_of_mem_occurrences (s := thenBranch) hplace horderly.1 hs.2
        htargets.right h
  | _, _, .ifElse condition thenBranch (some elseBranch) _, hplace, horderly, hs, htargets, h => by
    rw [Stmt.Orderly] at horderly
    rw [Stmt.occurrences, List.mem_append, List.mem_append] at h
    rcases h with (h | h) | h
    · exact Expr.lexical_of_mem_occurrences (e := condition) hplace hs.1 htargets.left.left h
    · exact Stmt.lexical_of_mem_occurrences (s := thenBranch) hplace horderly.1.1 hs.2.1
        htargets.left.right h
    · exact Stmt.lexical_of_mem_occurrences (s := elseBranch) (hplace.leave horderly.1.1)
        horderly.2.1 hs.2.2 htargets.right h
  | _, _, .while condition body _, hplace, horderly, hs, htargets, h => by
    rw [Stmt.Orderly] at horderly
    rw [Stmt.occurrences, List.mem_append] at h
    rcases h with h | h
    · exact Expr.lexical_of_mem_occurrences (e := condition) hplace hs.1 htargets.left h
    · exact Stmt.lexical_of_mem_occurrences (s := body) hplace horderly.1 hs.2 htargets.right h
  | _, _, .function decl _, hplace, horderly, hs, htargets, h => by
    rw [Stmt.Orderly] at horderly
    rw [Stmt.occurrences] at h
    exact FunctionDecl.lexical_of_mem_occurrences (f := decl)
      ((hplace.bind horderly.1.ne_this true).inside horderly.2) horderly.2 hs htargets h
  | _, _, .class name methods _, hplace, horderly, hs, htargets, h => by
    rw [Stmt.Orderly] at horderly
    rw [Stmt.occurrences] at h
    exact FunctionDecl.lexical_of_mem_occurrencesAll (l := methods)
      (hplace.bind horderly.1.ne_this true) (fun f hf => hf) horderly.2 hs rfl htargets h
  | _, _, .return value _, hplace, _, hs, htargets, h => by
    rw [Stmt.occurrences] at h
    exact Expr.lexical_of_mem_occurrencesOption hplace hs.2 htargets h

theorem Stmt.lexical_of_mem_occurrencesAll {o : Occurrence} :
    ∀ {around : Enclosing} {place : Place} {l : List Stmt}, place.Lexical around.inClass →
      Stmt.OrderlyAll l → Stmt.PermittedAll around l → Declarable (Stmt.targetsAll l) →
      o ∈ Stmt.occurrencesAll place l → o.Lexical
  | _, _, [], _, _, _, _, h => by
    rw [Stmt.occurrencesAll] at h
    cases h
  | _, _, s :: ss, hplace, horderly, hss, htargets, h => by
    rw [Stmt.OrderlyAll] at horderly
    rw [Stmt.occurrencesAll, List.mem_append] at h
    rcases h with h | h
    · exact Stmt.lexical_of_mem_occurrences (s := s) hplace horderly.1 hss.1 htargets.left h
    · exact Stmt.lexical_of_mem_occurrencesAll (l := ss) (hplace.leave horderly.1) horderly.2
        hss.2 htargets.right h

theorem FunctionDecl.lexical_of_mem_occurrences {o : Occurrence} :
    ∀ {around : Enclosing} {place : Place} {f : FunctionDecl},
      (FunctionDecl.inside place f).Lexical around.inClass → f.Orderly → f.Permitted around →
      Declarable f.targets → o ∈ f.occurrences place → o.Lexical
  | around, _, .mk _ _ _ body _, hplace, horderly, hf, htargets, h => by
    rw [FunctionDecl.Orderly] at horderly
    rw [FunctionDecl.occurrences] at h
    have hbody : Stmt.PermittedAll { around with inFunction := true } body := hf
    refine Stmt.lexical_of_mem_occurrencesAll ?_ horderly.2 hbody htargets h
    exact hplace

/-- The methods of a class are looked at one by one; all of them are in its scope. -/
theorem FunctionDecl.lexical_of_mem_occurrencesAll {o : Occurrence} :
    ∀ {around : Enclosing} {inClass : Bool} {place : Place} {methods l : List FunctionDecl},
      place.Lexical inClass → (∀ f ∈ l, f ∈ methods) → FunctionDecl.OrderlyAll l →
      FunctionDecl.PermittedAll around l → around.inClass = true →
      Declarable (FunctionDecl.targetsAll l) →
      o ∈ FunctionDecl.occurrencesAll (place.insideClass methods) l → o.Lexical
  | _, _, _, _, [], _, _, _, _, _, _, h => by
    rw [FunctionDecl.occurrencesAll] at h
    cases h
  | _, _, _, _, f :: fs, hplace, hmem, horderly, hfs, hclass, htargets, h => by
    rw [FunctionDecl.OrderlyAll] at horderly
    rw [FunctionDecl.occurrencesAll, List.mem_append] at h
    rcases h with h | h
    · refine FunctionDecl.lexical_of_mem_occurrences (f := f) ?_ horderly.1 hfs.1
        htargets.left h
      rw [hclass]
      exact hplace.insideMethod (hmem f (.head _)) horderly.1
    · exact FunctionDecl.lexical_of_mem_occurrencesAll (l := fs) hplace
        (fun f' hf' => hmem f' (.tail _ hf')) horderly.2 hfs.2 hclass htargets.right h
end

/-- Every occurrence in a program of a source text is permitted at its place. -/
theorem lexical_of_compile {supply : Supply} {source : String} {c : Compiled}
    (h : (compile supply source).result = .ok c) {o : Occurrence}
    (ho : o ∈ c.program.occurrences) : o.Lexical := by
  obtain ⟨-, -, -, -, -, hresolve⟩ := compile_eq_ok h
  exact Stmt.lexical_of_mem_occurrencesAll .top (orderly_of_compile h)
    (Program.permitted_of_resolve hresolve) (declarable_of_compile h) ho

end Lox
