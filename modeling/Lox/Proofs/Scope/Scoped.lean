import Lox.Proofs.Scope.Resolving
import Lox.Proofs.Scope.Visit
import Lox.Proofs.Syntax.Numbering
import Mathlib.Data.List.Forall2
import Std.Data.TreeMap.Lemmas

/-!
# Resolving finds the scoping of the text

Resolving keeps a stack of scopes, in which names are marked as long as their initializers have
not been left.  At every visit this stack says the same as the context of the visit
(`Context.Tracks`), so that exactly the faults of the visits are noted, in their order, and for
each name the distance that its context gives (`resolve_eq_scoping`).

**Actions.** `Goes x c c' vs` says of an action, begun in one context, that it ends in another
one and has gone through the given visits.  It says exactly which errors are noted.  What happens
to the distances is said only where there are no faults, since they are dropped otherwise.
-/

namespace Lox

/-! ## Contexts -/

namespace Context

@[simp] theorem declare_initialized (names : List String) (c : Context) :
    (c.declare names).initialized = c.initialized := by
  unfold declare
  split <;> rfl

@[simp] theorem declare_around (names : List String) (c : Context) :
    (c.declare names).around = c.around := by
  unfold declare
  split <;> rfl

theorem declare_of_nil {c : Context} (h : c.scopes = []) (names : List String) :
    c.declare names = c := by
  rw [declare, h]

theorem declare_of_cons {c : Context} {inner : List String} {outer : List (List String)}
    (h : c.scopes = inner :: outer) (names : List String) :
    c.declare names = { c with scopes := (inner ++ names) :: outer } := by
  rw [declare, h]

@[simp] theorem declare_nil (c : Context) : c.declare [] = c := by
  obtain ⟨scopes, initialized, around⟩ := c
  cases scopes with
  | nil => rfl
  | cons inner outer => rw [declare_of_cons rfl, List.append_nil]

theorem declare_append (names names' : List String) (c : Context) :
    (c.declare names).declare names' = c.declare (names ++ names') := by
  obtain ⟨scopes, initialized, around⟩ := c
  cases scopes with
  | nil => rfl
  | cons inner outer =>
    rw [declare_of_cons rfl, declare_of_cons rfl, declare_of_cons rfl, List.append_assoc]

/-- How many scopes out the name has been declared. -/
def distance? (c : Context) (name : String) : Option Nat :=
  c.scopes.findIdx? fun names => decide (name ∈ names)

theorem distance?_eq_some {c : Context} {name : String} {distance : Nat} :
    c.distance? name = some distance ↔ c.Declares name distance := by
  unfold distance? Declares
  generalize c.scopes = scopes
  induction scopes generalizing distance with
  | nil => simp
  | cons first scopes ih =>
    rw [List.findIdx?_cons]
    by_cases hfirst : name ∈ first
    · simp only [hfirst, decide_true, if_true, Option.some.injEq]
      constructor
      · rintro rfl
        exact ⟨[], first, scopes, rfl, rfl, hfirst, by simp⟩
      · rintro ⟨inner, scope, outer, hscopes, rfl, -, hother⟩
        cases inner with
        | nil => rfl
        | cons _ inner =>
          cases hscopes
          exact absurd hfirst (hother _ (.head _))
    · simp only [hfirst, decide_false, Bool.false_eq_true, if_false, Option.map_eq_some_iff, ih]
      constructor
      · rintro ⟨_, ⟨inner, scope, outer, rfl, rfl, hscope, hother⟩, rfl⟩
        exact ⟨first :: inner, scope, outer, rfl, rfl, hscope,
          List.forall_mem_cons.2 ⟨hfirst, hother⟩⟩
      · rintro ⟨inner, scope, outer, hscopes, rfl, hscope, hother⟩
        cases inner with
        | nil =>
          cases hscopes
          exact absurd hscope hfirst
        | cons _ inner =>
          cases hscopes
          exact ⟨_, ⟨inner, scope, outer, rfl, rfl, hscope, (List.forall_mem_cons.1 hother).2⟩, rfl⟩

end Context

/-! ## The stack of scopes -/

/-- The scope has declared exactly these names. -/
def Bindings.Declares (scope : Bindings Bool) (names : List String) : Prop :=
  ∀ name, scope.contains name = true ↔ name ∈ names

/-- The scope has declared exactly these names, and all their initializers have been left. -/
def Bindings.DeclaresLeft (scope : Bindings Bool) (names : List String) : Prop :=
  scope.Declares names ∧ ∀ name, scope.get? name ≠ some false

/-- The open scopes say the same as the context.  Only in the innermost one there may be a name
whose initializer has not been left. -/
def Context.Tracks (c : Context) : List (Bindings Bool) → Prop
  | [] => c.scopes = [] ∧ c.initialized = none
  | first :: others =>
    ∃ inner outer, c.scopes = inner :: outer ∧ first.Declares inner ∧
      List.Forall₂ Bindings.DeclaresLeft others outer ∧
      ∀ name, first.get? name = some false ↔ c.initialized = some name

theorem Bindings.Declares.set {scope : Bindings Bool} {names : List String}
    (h : scope.Declares names) (name : String) (left : Bool) :
    (scope.set name left).Declares (names ++ [name]) := by
  intro other
  rw [Bindings.contains, Bindings.get?_set, List.mem_append, List.mem_singleton, ← h other,
    Bindings.contains]
  by_cases heq : name = other
  · simp [heq]
  · simp [heq, Ne.symm heq]

namespace Context.Tracks

variable {c : Context} {scopes : List (Bindings Bool)} {name : String}

/-- The innermost scope that has declared a name is equally far out. -/
theorem scopeDistance?_eq (h : c.Tracks scopes) (name : String) :
    scopeDistance? name scopes = c.distance? name := by
  have outward {scopes : List (Bindings Bool)} {names : List (List String)}
      (h : List.Forall₂ Bindings.Declares scopes names) :
      scopeDistance? name scopes = names.findIdx? fun names => decide (name ∈ names) := by
    induction h with
    | nil => rfl
    | cons hfirst _ ih =>
      rw [scopeDistance?, List.findIdx?_cons, ih]
      simp only [hfirst name, decide_eq_true_eq]
  unfold Context.distance?
  cases scopes with
  | nil =>
    rw [h.1]
    rfl
  | cons first others =>
    obtain ⟨inner, outer, hscopes, hfirst, hothers, -⟩ := h
    rw [hscopes]
    exact outward (.cons hfirst (hothers.imp fun _ _ h => h.1))

theorem inInitializer_iff (h : c.Tracks scopes) {s : Scoping} (hs : s.scopes = scopes) :
    s.inInitializer name = true ↔ c.initialized = some name := by
  rw [Scoping.inInitializer, hs]
  cases scopes with
  | nil => simp [h.2]
  | cons first others =>
    obtain ⟨inner, outer, -, -, -, hinitialized⟩ := h
    simp [hinitialized]

/-- Outside of initializers, everything in the open scopes has been left. -/
theorem all_left (h : c.Tracks scopes) (hc : c.initialized = none) :
    List.Forall₂ Bindings.DeclaresLeft scopes c.scopes := by
  cases scopes with
  | nil =>
    rw [h.1]
    exact .nil
  | cons first others =>
    obtain ⟨inner, outer, hscopes, hfirst, hothers, hinitialized⟩ := h
    rw [hscopes]
    refine .cons ⟨hfirst, fun name => ?_⟩ hothers
    simp [hinitialized, hc]

theorem of_left (h : List.Forall₂ Bindings.DeclaresLeft scopes c.scopes)
    (hc : c.initialized = none) : c.Tracks scopes := by
  cases hscopes : c.scopes with
  | nil =>
    rw [hscopes] at h
    cases h
    exact ⟨hscopes, hc⟩
  | cons inner outer =>
    rw [hscopes] at h
    cases h with
    | cons hfirst hothers =>
      refine ⟨inner, outer, hscopes, hfirst.1, hothers, fun name => ?_⟩
      simp [hfirst.2 name, hc]

end Context.Tracks

/-! ## Actions -/

/-- The distance that is noted in a visit, if its name is local. -/
def Visit.entry? (v : Visit) : Option (Nat × Nat) :=
  v.lookup?.bind fun l => (v.context.distance? l.2).map (l.1, ·)

/-- The distances with those of some visits. -/
def Locals.addAll (locals : Locals) (vs : List Visit) : Locals :=
  (vs.filterMap Visit.entry?).foldl (fun locals entry => locals.insert entry.1 entry.2) locals

theorem Locals.addAll_append (locals : Locals) (vs vs' : List Visit) :
    locals.addAll (vs ++ vs') = (locals.addAll vs).addAll vs' := by
  rw [addAll, List.filterMap_append, List.foldl_append]
  rfl

/-- The faults of some visits. -/
def faults (vs : List Visit) : List CompileError := vs.filterMap Visit.fault?

@[simp] theorem faults_nil : faults [] = [] := rfl

@[simp] theorem faults_append (vs vs' : List Visit) :
    faults (vs ++ vs') = faults vs ++ faults vs' := List.filterMap_append

/-- From one context to another, an action goes through some visits. -/
def Goes (x : Resolve Unit) (c c' : Context) (vs : List Visit) : Prop :=
  ∀ s : Scoping, c.Tracks s.scopes →
    c'.Tracks (x.run s).2.scopes ∧
    (x.run s).2.errors.toList = s.errors.toList ++ faults vs ∧
    (faults vs = [] → (x.run s).2.locals = s.locals.addAll vs)

namespace Goes

variable {x y : Resolve Unit} {c c' c'' : Context} {vs vs' : List Visit}

theorem pure (c : Context) : Goes (Pure.pure ()) c c [] :=
  fun s hs => ⟨hs, by simp; rfl, fun _ => rfl⟩

theorem seq (hx : Goes x c c' vs) (hy : Goes y c' c'' vs') :
    Goes (do x; y) c c'' (vs ++ vs') := by
  intro s hs
  obtain ⟨htracks, herrors, hlocals⟩ := hx s hs
  obtain ⟨htracks', herrors', hlocals'⟩ := hy (x.run s).2 htracks
  refine ⟨htracks', ?_, fun hnone => ?_⟩
  · rw [faults_append, ← List.append_assoc, ← herrors]
    exact herrors'
  · rw [faults_append, List.append_eq_nil_iff] at hnone
    rw [Locals.addAll_append, ← hlocals hnone.1]
    exact hlocals' hnone.2

/-- An action that changes the scopes only. -/
theorem of_scopes {f : Scoping → Scoping}
    (h : ∀ s : Scoping, c.Tracks s.scopes →
      c'.Tracks (f s).scopes ∧ (f s).errors = s.errors ∧ (f s).locals = s.locals) :
    Goes (modify f) c c' [] := by
  intro s hs
  obtain ⟨htracks, herrors, hlocals⟩ := h s hs
  refine ⟨htracks, ?_, fun _ => hlocals⟩
  rw [faults_nil, List.append_nil]
  exact congrArg Array.toList herrors

theorem openScope (c : Context) (hc : c.initialized = none) (around : Enclosing) :
    Goes Resolve.openScope c (c.inside [] around) [] := by
  refine of_scopes fun s hs => ⟨⟨[], c.scopes, rfl, ?_, hs.all_left hc, ?_⟩, rfl, rfl⟩
  · simp [Bindings.Declares, Bindings.contains]
  · simp [Context.inside, hc]

theorem closeScope {names : List String} (hscopes : c'.scopes = names :: c.scopes)
    (hc : c.initialized = none) : Goes Resolve.closeScope c' c [] := by
  refine of_scopes fun s hs => ⟨?_, rfl, rfl⟩
  show c.Tracks s.scopes.tail
  cases hstack : s.scopes with
  | nil =>
    rw [hstack] at hs
    rw [hs.1] at hscopes
    cases hscopes
  | cons first others =>
    rw [hstack] at hs
    obtain ⟨inner, outer, hcons, -, hothers, -⟩ := hs
    rw [hscopes] at hcons
    cases hcons
    exact .of_left hothers hc

/-- A name is bound in the innermost scope, if a scope is open. -/
theorem bind {name : String} {left : Bool}
    (hglobal : c.scopes = [] → c'.scopes = [] ∧ c'.initialized = none)
    (hlocal : ∀ inner outer, c.scopes = inner :: outer →
      (∃ inner', c'.scopes = inner' :: outer ∧ ∀ other, other ∈ inner' ↔ other ∈ inner ++ [name]) ∧
      ∀ other, c'.initialized = some other ↔
        if name = other then left = false else c.initialized = some other) :
    Goes (modify (·.bind name left)) c c' [] := by
  refine of_scopes fun s hs => ?_
  rw [Scoping.bind]
  cases hstack : s.scopes with
  | nil =>
    rw [hstack] at hs
    refine ⟨?_, rfl, rfl⟩
    simp only [hstack]
    exact hglobal hs.1
  | cons first others =>
    rw [hstack] at hs
    obtain ⟨inner, outer, hscopes, hfirst, hothers, hinitialized⟩ := hs
    obtain ⟨⟨inner', hscopes', hinner'⟩, hflag⟩ := hlocal inner outer hscopes
    refine ⟨⟨inner', outer, hscopes', fun other => ?_, hothers, fun other => ?_⟩, rfl, rfl⟩
    · rw [hinner', hfirst.set name left other]
    · rw [hflag, Bindings.get?_set]
      by_cases heq : name = other
      · simp [heq]
      · simp [heq, hinitialized]

/-- A variable is declared, and its initializer follows. -/
theorem declare (name : String) (c : Context) (hc : c.initialized = none) :
    Goes (Resolve.declare name) c (c.initializer name) [] := by
  refine bind (fun hnil => ?_) fun inner outer hcons => ⟨⟨inner ++ [name], ?_, by simp⟩, ?_⟩
  · simp [Context.initializer, Context.declare_of_nil hnil, hnil]
  · rw [Context.initializer, Context.declare_of_cons hcons]
  · simp [Context.initializer, hcons, hc]

/-- The initializer of a variable is left. -/
theorem leave (name : String) (c : Context) (hc : c.initialized = none) :
    Goes (Resolve.define name) (c.initializer name) (c.declare [name]) [] := by
  refine bind (fun hnil => ⟨hnil, by simp [hc]⟩) fun inner outer hcons => ?_
  replace hcons : (c.declare [name]).scopes = inner :: outer := hcons
  cases hscopes : c.scopes with
  | nil =>
    rw [Context.declare_of_nil hscopes, hscopes] at hcons
    cases hcons
  | cons inner₀ outer₀ =>
    rw [Context.declare_of_cons hscopes] at hcons
    cases hcons
    refine ⟨⟨inner₀ ++ [name], by rw [Context.declare_of_cons hscopes], by simp⟩, fun other => ?_⟩
    by_cases heq : name = other <;> simp [Context.initializer, hscopes, hc, heq]

theorem define (name : String) (c : Context) (hc : c.initialized = none) :
    Goes (Resolve.define name) c (c.declare [name]) [] := by
  refine bind (fun hnil => ?_) fun inner outer hcons => ⟨⟨inner ++ [name], ?_, by simp⟩, ?_⟩
  · simp [Context.declare_of_nil hnil, hnil, hc]
  · rw [Context.declare_of_cons hcons]
  · simp [hc]

theorem defineAll (names : List String) (c : Context) (hc : c.initialized = none) :
    Goes (Resolve.defineAll names) c (c.declare names) [] := by
  induction names generalizing c with
  | nil =>
    rw [Context.declare_nil]
    exact pure c
  | cons name names ih =>
    have hrest := ih (c.declare [name]) (by rw [Context.declare_initialized, hc])
    rw [Context.declare_append] at hrest
    exact (define name c hc).seq hrest

/-- An action in a scope of its own. -/
theorem within {around : Enclosing} {names : List String} (hc : c.initialized = none)
    (h : Goes x (c.inside [] around) c' vs)
    (hscopes : c'.scopes = names :: c.scopes) :
    Goes (do Resolve.openScope; x; Resolve.closeScope) c c vs := by
  have hclosed := h.seq (closeScope hscopes hc)
  rw [List.append_nil] at hclosed
  exact (openScope c hc around).seq hclosed

/-- The distance of a name is noted, in a visit without fault. -/
theorem occurrence {v : Visit} {id : Nat} {name : String} (hlookup : v.lookup? = some (id, name))
    (hfault : v.fault? = none) : Goes (Resolve.occurrence id name) v.context v.context [v] := by
  intro s hs
  have hfaults : faults [v] = [] := List.filterMap_cons_none hfault
  have hentry : v.entry? = (v.context.distance? name).map (id, ·) := by
    rw [Visit.entry?, hlookup]
    rfl
  rw [hfaults, List.append_nil]
  have hdistance := hs.scopeDistance?_eq name
  cases hd : v.context.distance? name with
  | none =>
    rw [hd] at hdistance hentry
    rw [run_occurrence_of_none hdistance]
    exact ⟨hs, rfl, fun _ => by simp [Locals.addAll, hentry]⟩
  | some distance =>
    rw [hd] at hdistance hentry
    rw [run_occurrence_of_some hdistance]
    exact ⟨hs, rfl, fun _ => by simp [Locals.addAll, hentry]⟩

/-- An error is noted. -/
theorem note {v : Visit} {fault : ScopeFault} {span : Span}
    (hfault : v.fault? = some (.resolve fault span)) :
    Goes (Resolve.note fault span) v.context v.context [v] := by
  intro s hs
  have hfaults : faults [v] = [.resolve fault span] := by simp [faults, hfault]
  rw [hfaults]
  refine ⟨hs, ?_, fun hnone => by cases hnone⟩
  exact Array.toList_push

/-- A visit in which nothing is done. -/
theorem skip {v : Visit} (h : Goes x c c' vs) (hfault : v.fault? = none)
    (hlookup : v.lookup? = none) : Goes x c c' (v :: vs) := by
  intro s hs
  have hfaults : faults (v :: vs) = faults vs := List.filterMap_cons_none hfault
  have hentry : v.entry? = none := by
    rw [Visit.entry?, hlookup]
    rfl
  rw [hfaults, Locals.addAll, List.filterMap_cons_none hentry]
  exact h s hs

/-- Where errors are noted, the distances do not matter. -/
theorem noted_then (h : Goes x c c' vs) (hfaults : faults vs ≠ [])
    (hy : ∀ s : Scoping, (y.run s).2.scopes = s.scopes ∧ (y.run s).2.errors = s.errors) :
    Goes (do x; y) c c' vs := by
  intro s hs
  obtain ⟨htracks, herrors, -⟩ := h s hs
  obtain ⟨hscopes, hsame⟩ := hy (x.run s).2
  refine ⟨?_, ?_, fun hnone => absurd hnone hfaults⟩
  · rw [← hscopes] at htracks
    exact htracks
  · rw [← hsame] at herrors
    exact herrors

/-- The reading of a variable: an error is noted if it is in its own initializer. -/
theorem reading (node : Node) (name : String) (c : Context) :
    Goes (do Resolve.checkInitializer name node.span; Resolve.occurrence node.id name) c c
      [⟨.variable node name, c⟩] := by
  intro s hs
  have hrun : (do Resolve.checkInitializer name node.span
                  Resolve.occurrence node.id name).run s =
      if s.inInitializer name then
        (do Resolve.note (.ownInitializer name) node.span
            Resolve.occurrence node.id name).run s
      else (Resolve.occurrence node.id name).run s := by
    by_cases hinit : s.inInitializer name <;> simp [Resolve.checkInitializer, hinit]
  have hiff : s.inInitializer name = true ↔ c.initialized = some name := hs.inInitializer_iff rfl
  rw [hrun]
  by_cases hinit : c.initialized = some name
  · rw [if_pos (hiff.2 hinit)]
    refine noted_then (note (v := ⟨.variable node name, c⟩) (if_pos hinit)) ?_ (fun s => ?_) s hs
    · simp [faults, Visit.fault?, hinit]
    · cases hd : scopeDistance? name s.scopes with
      | none =>
        rw [run_occurrence_of_none hd]
        exact ⟨rfl, rfl⟩
      | some distance =>
        rw [run_occurrence_of_some hd]
        exact ⟨rfl, rfl⟩
  · rw [if_neg fun h => hinit (hiff.1 h)]
    exact occurrence (v := ⟨.variable node name, c⟩) rfl (if_neg hinit) s hs

end Goes

/-! ## Expressions and statements -/

open Goes

mutual
theorem Expr.goes (c : Context) : ∀ e : Expr, Goes (e.resolve c.around) c c (e.visits c)
  | .literal .. => .pure c
  | .grouping _ inner | .unary _ _ inner | .get _ inner _ _ => Expr.goes c inner
  | .binary _ _ left right _ | .logical _ _ left right | .set _ right _ _ left => by
    rw [Expr.resolve, Expr.visits]
    exact (Expr.goes c left).seq (Expr.goes c right)
  | .variable node name => reading node name c
  | .assign node name value => by
    rw [Expr.resolve, Expr.visits]
    exact (Expr.goes c value).seq (occurrence (v := ⟨.assign node name, c⟩) rfl rfl)
  | .call _ callee arguments _ | .new _ callee arguments _ => by
    rw [Expr.resolve, Expr.visits]
    exact (Expr.goes c callee).seq (Expr.goesAll c arguments)
  | .this node => by
    rw [Expr.resolve, Expr.visits]
    by_cases hclass : c.around.inClass
    · rw [if_pos hclass]
      exact occurrence (v := ⟨.this node, c⟩) rfl (if_pos hclass)
    · rw [if_neg hclass]
      exact note (v := ⟨.this node, c⟩) (if_neg hclass)

theorem Expr.goesAll (c : Context) :
    ∀ es : List Expr, Goes (Expr.resolveAll c.around es) c c (Expr.visitsAll c es)
  | [] => .pure c
  | e :: es => by
    rw [Expr.resolveAll, Expr.visitsAll]
    exact (Expr.goes c e).seq (Expr.goesAll c es)
end

theorem Expr.goesOption (c : Context) (e : Option Expr) :
    Goes (Expr.resolveOption c.around e) c c (Expr.visitsOption c e) := by
  cases e with
  | none => exact .pure c
  | some e => exact e.goes c

mutual
theorem Stmt.goes (c : Context) (hc : c.initialized = none) :
    ∀ s : Stmt, Goes (s.resolve c.around) c (c.declare s.declared) (s.visits c)
  | .expression value _ | .print value _ => by
    rw [Stmt.resolve, Stmt.visits, Stmt.declared, Context.declare_nil]
    exact value.goes c
  | .var name initializer _ => by
    rw [Stmt.resolve, Stmt.visits, Stmt.declared]
    have hinitializer := Expr.goesOption (c.initializer name) initializer
    have haround : (c.initializer name).around = c.around := Context.declare_around _ _
    rw [haround] at hinitializer
    have hleave := hinitializer.seq (leave name c hc)
    rw [List.append_nil] at hleave
    exact (declare name c hc).seq hleave
  | .block body _ => by
    rw [Stmt.resolve, Stmt.visits, Stmt.declared, Context.declare_nil]
    exact within hc (Stmt.goesAll c.block hc body) rfl
  | .ifElse condition thenBranch none _ => by
    rw [Stmt.resolve, Stmt.visits, Stmt.declared]
    exact (condition.goes c).seq (Stmt.goes c hc thenBranch)
  | .ifElse condition thenBranch (some elseBranch) _ => by
    rw [Stmt.resolve, Stmt.visits, Stmt.declared]
    have helse := Stmt.goes (c.declare thenBranch.declared)
      (by rw [Context.declare_initialized, hc]) elseBranch
    rw [Context.declare_around, Context.declare_append] at helse
    exact (condition.goes c).seq ((Stmt.goes c hc thenBranch).seq helse)
  | .while condition body _ => by
    rw [Stmt.resolve, Stmt.visits, Stmt.declared]
    exact (condition.goes c).seq (Stmt.goes c hc body)
  | .function decl _ => by
    rw [Stmt.resolve, Stmt.visits, Stmt.declared]
    have hdecl := FunctionDecl.goes (c.declare [decl.name])
      (by rw [Context.declare_initialized, hc]) decl
    rw [Context.declare_around] at hdecl
    exact (define decl.name c hc).seq hdecl
  | .class name methods _ => by
    rw [Stmt.resolve, Stmt.visits, Stmt.declared]
    have hname : (c.declare [name]).initialized = none := by rw [Context.declare_initialized, hc]
    have hmethods := FunctionDecl.goesAll (c.declare [name]).methods hname methods
    have haround : (c.declare [name]).methods.around = { c.around with inClass := true } := by
      rw [← Context.declare_around [name] c]
      rfl
    rw [haround] at hmethods
    have hthis : Goes (Resolve.define "this")
        ((c.declare [name]).inside [] { (c.declare [name]).around with inClass := true })
        (c.declare [name]).methods [] := define "this" _ hname
    exact (define name c hc).seq (within hname (hthis.seq hmethods) rfl)
  | .return value span => by
    rw [Stmt.resolve, Stmt.visits, Stmt.declared, Context.declare_nil]
    have hvalue := Expr.goesOption c value
    cases hfunction : c.around.inFunction with
    | false =>
      have hfault : (⟨.return span, c⟩ : Visit).fault? = some (.resolve .returnOutsideFunction span) :=
        if_neg (by simp [hfunction])
      exact (note hfault).seq hvalue
    | true => exact skip hvalue (if_pos hfunction) rfl

theorem Stmt.goesAll (c : Context) (hc : c.initialized = none) :
    ∀ ss : List Stmt,
      Goes (Stmt.resolveAll c.around ss) c (c.declare (Stmt.declaredAll ss)) (Stmt.visitsAll c ss)
  | [] => by
    rw [Stmt.resolveAll, Stmt.visitsAll, Stmt.declaredAll, Context.declare_nil]
    exact .pure c
  | s :: ss => by
    rw [Stmt.resolveAll, Stmt.visitsAll, Stmt.declaredAll]
    have hrest := Stmt.goesAll (c.declare s.declared) (by rw [Context.declare_initialized, hc]) ss
    rw [Context.declare_around, Context.declare_append] at hrest
    exact (Stmt.goes c hc s).seq hrest

theorem FunctionDecl.goes (c : Context) (hc : c.initialized = none) :
    ∀ f : FunctionDecl, Goes (f.resolve c.around) c c (f.visits c)
  | .mk _ _ params body _ => by
    rw [FunctionDecl.resolve, FunctionDecl.visits]
    have hparams : Goes (Resolve.defineAll params)
        (c.inside [] { c.around with inFunction := true }) (c.body params) [] :=
      defineAll params _ hc
    exact within hc (hparams.seq (Stmt.goesAll (c.body params) hc body)) rfl

theorem FunctionDecl.goesAll (c : Context) (hc : c.initialized = none) :
    ∀ fs : List FunctionDecl,
      Goes (FunctionDecl.resolveAll c.around fs) c c (FunctionDecl.visitsAll c fs)
  | [] => .pure c
  | f :: fs => by
    rw [FunctionDecl.resolveAll, FunctionDecl.visitsAll]
    exact (FunctionDecl.goes c hc f).seq (FunctionDecl.goesAll c hc fs)
end

/-! ## Programs -/

theorem getElem?_foldl_insert_of_not_mem {entries : List (Nat × Nat)} {locals : Locals} {id : Nat}
    (h : id ∉ entries.map Prod.fst) :
    (entries.foldl (fun locals entry => locals.insert entry.1 entry.2) locals)[id]? =
      locals[id]? := by
  induction entries generalizing locals with
  | nil => rfl
  | cons entry entries ih =>
    rw [List.map_cons, List.mem_cons, not_or] at h
    rw [List.foldl_cons, ih h.2, Std.TreeMap.getElem?_insert]
    simp [Ne.symm h.1]

/-- If no two entries have the same number, all of them are found. -/
theorem getElem?_foldl_insert {entries : List (Nat × Nat)} (hids : (entries.map Prod.fst).Nodup)
    {locals : Locals} {id distance : Nat} (hnew : locals[id]? = none) :
    (entries.foldl (fun locals entry => locals.insert entry.1 entry.2) locals)[id]? =
      some distance ↔ (id, distance) ∈ entries := by
  induction entries generalizing locals with
  | nil => simp [hnew]
  | cons entry entries ih =>
    rw [List.map_cons, List.nodup_cons] at hids
    obtain ⟨hfirst, hids⟩ := hids
    rw [List.foldl_cons, List.mem_cons]
    by_cases heq : entry.1 = id
    · subst heq
      rw [getElem?_foldl_insert_of_not_mem hfirst, Std.TreeMap.getElem?_insert_self]
      constructor
      · intro h
        cases h
        exact .inl rfl
      · rintro (h | h)
        · rw [← h]
        · exact absurd (List.mem_map.2 ⟨_, h, rfl⟩) hfirst
    · rw [ih hids (by simp [Std.TreeMap.getElem?_insert, heq, hnew])]
      constructor
      · exact .inr
      · rintro (rfl | h)
        · exact absurd rfl heq
        · exact h

/-- Distances are noted for some of the expressions in which names are looked up. -/
theorem sublist_entries (vs : List Visit) :
    ((vs.filterMap Visit.entry?).map Prod.fst).Sublist ((lookups vs).map Prod.fst) := by
  induction vs with
  | nil => exact .refl _
  | cons v vs ih =>
    rw [lookups] at ih ⊢
    cases hlookup : v.lookup? with
    | none =>
      have hentry : v.entry? = none := by
        rw [Visit.entry?, hlookup]
        rfl
      rwa [List.filterMap_cons_none hentry, List.filterMap_cons_none hlookup]
    | some l =>
      have hentry : v.entry? = (v.context.distance? l.2).map (l.1, ·) := by
        rw [Visit.entry?, hlookup]
        rfl
      rw [List.filterMap_cons_some hlookup, List.map_cons]
      cases hdistance : v.context.distance? l.2 with
      | none =>
        rw [hdistance] at hentry
        rw [List.filterMap_cons_none hentry]
        exact ih.cons _
      | some distance =>
        rw [hdistance] at hentry
        rw [List.filterMap_cons_some hentry, List.map_cons]
        exact ih.cons_cons _

theorem sublist_lookups (os : List Occurrence) :
    ((os.filterMap Occurrence.lookup?).map Prod.fst).Sublist (os.map Occurrence.id) := by
  induction os with
  | nil => exact .refl _
  | cons o os ih =>
    rw [List.map_cons]
    cases hname : o.name? with
    | none =>
      have hlookup : o.lookup? = none := by rw [Occurrence.lookup?, hname]; rfl
      rw [List.filterMap_cons_none hlookup]
      exact ih.cons _
    | some name =>
      have hlookup : o.lookup? = some (o.id, name) := by rw [Occurrence.lookup?, hname]; rfl
      rw [List.filterMap_cons_some hlookup, List.map_cons]
      exact ih.cons_cons _

theorem Visit.entry?_eq_some {v : Visit} {id distance : Nat} :
    v.entry? = some (id, distance) ↔
      ∃ name, v.lookup? = some (id, name) ∧ v.context.Declares name distance := by
  rw [Visit.entry?, Option.bind_eq_some_iff]
  constructor
  · rintro ⟨⟨id', name⟩, hlookup, hentry⟩
    obtain ⟨distance', hdistance, heq⟩ := Option.map_eq_some_iff.1 hentry
    cases heq
    exact ⟨name, hlookup, Context.distance?_eq_some.1 hdistance⟩
  · rintro ⟨name, hlookup, hdeclares⟩
    refine ⟨(id, name), hlookup, ?_⟩
    rw [Context.distance?_eq_some.2 hdeclares]
    rfl

namespace Program

theorem goes (p : Program) :
    Goes (Stmt.resolveAll .program p.statements) .program .program p.visits :=
  Stmt.goesAll .program rfl p.statements

/-- The faults of a program are the errors that resolving it gives. -/
theorem resolve_eq_error {p : Program} {errors : List CompileError} :
    p.resolve = .error errors ↔ p.faults ≠ [] ∧ errors = p.faults := by
  obtain ⟨-, herrors, -⟩ := p.goes .initial ⟨rfl, rfl⟩
  replace herrors : ((Stmt.resolveAll .program p.statements).run .initial).2.errors.toList =
    p.faults := herrors
  have hempty : ((Stmt.resolveAll .program p.statements).run .initial).2.errors.isEmpty = true ↔
      p.faults = [] := by
    rw [Array.isEmpty_iff, ← herrors, Array.toList_eq_nil_iff]
  rw [resolve]
  by_cases hnone : p.faults = []
  · simp [hempty.2 hnone, hnone]
  · rw [if_neg (mt hempty.1 hnone), herrors, Except.error.injEq]
    exact ⟨fun h => ⟨hnone, h.symm⟩, fun h => h.2.symm⟩

/-- If a program has no faults, resolving it notes the distances of its visits. -/
theorem resolve_eq_addAll {p : Program} {locals : Locals} (h : p.resolve = .ok locals) :
    locals = Locals.addAll ∅ p.visits := by
  obtain ⟨-, herrors, hlocals⟩ := p.goes .initial ⟨rfl, rfl⟩
  rw [resolve] at h
  split at h
  · next hempty =>
    rw [Array.isEmpty_iff] at hempty
    rw [hempty] at herrors
    cases h
    exact hlocals herrors.symm
  · cases h

end Program

/-- **Resolving computes the scoping of the text.**  A program of any tokens is refused if and
only if one of its visits has a fault, and then the errors are the faults, one for each visit
that has one, in the order of the visits.  Otherwise a distance is noted for exactly those
variables, assignments and receivers whose name has been declared before by a scope around
them, and it is the number of scopes between them and the innermost such scope. -/
theorem resolve_eq_scoping (supply : Supply) (tokens : List Token) :
    let p := (Parsed.ofTokens supply tokens).program
    (∀ errors, p.resolve = .error errors ↔ p.faults ≠ [] ∧ errors = p.faults) ∧
    ∀ locals, p.resolve = .ok locals → ∀ (id distance : Nat), locals[id]? = some distance ↔
      ∃ v ∈ p.visits, ∃ name, v.lookup? = some (id, name) ∧ v.context.Declares name distance := by
  intro p
  refine ⟨fun errors => Program.resolve_eq_error, fun locals hok id distance => ?_⟩
  have hlookups : ((lookups p.visits).map Prod.fst).Nodup := by
    rw [p.lookups_visits]
    refine List.Nodup.sublist (sublist_lookups _) ?_
    rw [Program.map_id_occurrences]
    exact Parsed.nodup_ids supply tokens
  have hids := hlookups.sublist (sublist_entries p.visits)
  rw [Program.resolve_eq_addAll hok, Locals.addAll,
    getElem?_foldl_insert hids (by simp), List.mem_filterMap]
  simp only [Visit.entry?_eq_some]

end Lox
