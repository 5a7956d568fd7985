import Lox.Proofs.Renaming.Trees

/-!
# Renamed programs are resolved alike

Resolving a program and the renamed program goes in step: the open scopes differ only in
the name that the renamed scope has declared, and the same distances and errors are noted
(`Program.Renamed.resolve_eq`).

**Names found.** For every occurrence the name that stands there after renaming is found
as many scopes out as the old one: the new name is declared in the renamed scope only,
and the old one is no longer declared there.
-/

namespace Lox

open Resolve

variable {r : Renaming}

namespace Renaming

/-- A renamed scope has the new name in place of the old one; another scope has the same
names, and not the new one. -/
def Scopes (r : Renaming) (k : Depth) (names names' : Bindings Bool) : Prop :=
  names.get? r.new = none ∧
    (∀ name, name ≠ r.old → name ≠ r.new → names'.get? name = names.get? name) ∧
    if k = some 0 then names'.get? r.new = names.get? r.old ∧ names'.get? r.old = none
    else names'.get? r.old = names.get? r.old ∧ names'.get? r.new = none

/-- Open scopes, of which at most the one at the given depth is renamed. -/
def OpenScopes (r : Renaming) : Depth → List (Bindings Bool) → List (Bindings Bool) → Prop
  | _, [], [] => True
  | k, names :: outer, names' :: outer' =>
    r.Scopes k names names' ∧ r.OpenScopes k.outward outer outer'
  | _, _, _ => False

variable {k : Depth} {names names' : Bindings Bool} {outer outer' : List (Bindings Bool)}

/-- The innermost scope treats the name that stands at an occurrence as it did the old
one. -/
theorem Scopes.get?_spelled (h : r.Scopes k names names') {name : String}
    (hname : name ≠ r.new) {distance : Option Nat}
    (hdistance : distance = some 0 ↔ names.contains name = true) :
    names'.get? (r.spelled k distance name) = names.get? name := by
  obtain ⟨hnew, hother, hrenamed⟩ := h
  have hnone (hne : distance ≠ some 0) : names.get? name = none := by
    simpa [Bindings.contains] using mt hdistance.2 hne
  by_cases hold : name = r.old
  · subst hold
    split at hrenamed
    · next hk =>
      subst hk
      by_cases hzero : distance = some 0
      · simp [spelled, hzero, hrenamed.1]
      · simp [spelled, hzero, hrenamed.2, hnone hzero]
    · next hk =>
      by_cases hspelled : k ≠ none ∧ distance = k
      · -- the occurrence belongs to a scope further out
        have hne : distance ≠ some 0 := by
          rw [hspelled.2]
          exact hk
        simp [spelled, hspelled, hrenamed.2, hnone hne]
      · simp [spelled, hspelled, hrenamed.1]
  · simp [spelled, hold, hother name hold hname]

/-- One scope further out both the distance and the depth are one less. -/
theorem spelled_outward (k : Depth) (distance : Option Nat) (name : String) :
    r.spelled k (distance.map (· + 1)) name = r.spelled k.outward distance name := by
  rcases k with _ | _ | d
  · simp [spelled, Depth.outward]
  · cases distance <;> simp [spelled, Depth.outward]
  · cases distance <;> simp [spelled, Depth.outward]

theorem OpenScopes.of_nil {scopes' : List (Bindings Bool)} (h : r.OpenScopes k [] scopes') :
    scopes' = [] := by
  cases scopes' with
  | nil => rfl
  | cons names' outer' => cases h

theorem OpenScopes.of_cons {scopes' : List (Bindings Bool)}
    (h : r.OpenScopes k (names :: outer) scopes') :
    ∃ names' outer', scopes' = names' :: outer' ∧ r.Scopes k names names' ∧
      r.OpenScopes k.outward outer outer' := by
  cases scopes' with
  | nil => cases h
  | cons names' outer' => exact ⟨names', outer', rfl, h.1, h.2⟩

theorem scopeDistance?_cons_eq_zero {name : String} :
    Lox.scopeDistance? name (names :: outer) = some 0 ↔ names.contains name = true := by
  rw [Lox.scopeDistance?]
  split <;> simp [*]

/-- What stands at an occurrence is found as many scopes out as before. -/
theorem OpenScopes.scopeDistance? {scopes scopes' : List (Bindings Bool)}
    (h : r.OpenScopes k scopes scopes') {name : String} (hname : name ≠ r.new) :
    Lox.scopeDistance? (r.spelled k (Lox.scopeDistance? name scopes) name) scopes' =
      Lox.scopeDistance? name scopes := by
  induction scopes generalizing k scopes' with
  | nil =>
    rw [h.of_nil]
    rfl
  | cons names outer ih =>
    obtain ⟨names', outer', rfl, hnames, houter⟩ := h.of_cons
    have hcontains : names'.contains
        (r.spelled k (Lox.scopeDistance? name (names :: outer)) name) =
          names.contains name := by
      rw [Bindings.contains, hnames.get?_spelled hname scopeDistance?_cons_eq_zero]
      rfl
    rw [Lox.scopeDistance?, hcontains]
    by_cases hmem : names.contains name = true
    · rw [if_pos hmem, Lox.scopeDistance?, if_pos hmem]
    · rw [if_neg hmem, Lox.scopeDistance?, if_neg hmem, spelled_outward, ih houter]

theorem OpenScopes.tail {scopes scopes' : List (Bindings Bool)}
    (h : r.OpenScopes k scopes scopes') : r.OpenScopes k.outward scopes.tail scopes'.tail := by
  cases scopes with
  | nil =>
    rw [h.of_nil]
    trivial
  | cons names outer =>
    obtain ⟨names', outer', rfl, -, houter⟩ := h.of_cons
    exact houter

/-- Declaring a name in the innermost scope and its new name in the renamed one. -/
theorem Scopes.set (hproper : r.old ≠ r.new) (h : r.Scopes k names names') {name : String}
    (hname : name ≠ r.new) (left : Bool) :
    r.Scopes k (names.set name left) (names'.set (r.declared k name) left) := by
  obtain ⟨hnew, hother, hrenamed⟩ := h
  refine ⟨by simp [hname, hnew], fun other hold hne => ?_, ?_⟩
  · by_cases hr : name = r.old ∧ k = some 0
    · have hother' : name ≠ other := by
        rw [hr.1]
        exact Ne.symm hold
      simp [declared, hr, Ne.symm hne, hother other hold hne, Ne.symm hold]
    · simp [declared, hr, hother other hold hne]
  · by_cases hk : k = some 0
    · rw [if_pos hk] at hrenamed ⊢
      by_cases hold : name = r.old
      · simp [declared, hk, hold, Ne.symm hproper, hrenamed.2]
      · simp [declared, hold, hname, hrenamed.1, hrenamed.2]
    · rw [if_neg hk] at hrenamed ⊢
      simp [declared, hk, hname, hrenamed.1, hrenamed.2]

end Renaming

/-! ## Resolving in step -/

/-- Two states of resolving differ only in what the renamed scope has declared. -/
structure Scoping.InStep (r : Renaming) (k : Depth) (s s' : Scoping) : Prop where
  /-- The open scopes differ only in the renamed names. -/
  scopes : r.OpenScopes k s.scopes s'.scopes
  /-- The same distances are noted. -/
  locals : s'.locals = s.locals
  /-- The same errors are noted. -/
  errors : s'.errors = s.errors

/-- Begun at one place and ending at another, two actions go in step. -/
def Lockstep (r : Renaming) (k : Depth) (place place' : Place) (x x' : Resolve Unit) : Prop :=
  ∀ s s' : Scoping, s.scopes = place.names → s.InStep r k s' →
    (x.run s).2.scopes = place'.names ∧ (x.run s).2.InStep r k (x'.run s').2

namespace Lockstep

variable {k : Depth} {place place' place'' : Place} {x x' y y' : Resolve Unit}

theorem pure : Lockstep r k place place (Pure.pure ()) (Pure.pure ()) :=
  fun _ _ hs hstep => ⟨hs, hstep⟩

theorem seq (hx : Lockstep r k place place' x x') (hy : Lockstep r k place' place'' y y') :
    Lockstep r k place place'' (do x; y) (do x'; y') := by
  intro s s' hs hstep
  obtain ⟨hmid, hstep'⟩ := hx s s' hs hstep
  exact hy _ _ hmid hstep'

theorem bind (hproper : r.IsProper) {name : String} (hname : name ≠ r.new) (left : Bool)
    (place : Place) :
    Lockstep r k place (place.bind name left) (modify (·.bind name left))
      (modify (·.bind (r.declared k name) left)) := by
  intro s s' hs hstep
  have hscopes := hstep.scopes
  show (s.bind name left).scopes = _ ∧
    (s.bind name left).InStep r k (s'.bind (r.declared k name) left)
  cases place with
  | nil =>
    have hnil : s.scopes = [] := hs
    rw [hnil] at hscopes
    have hbind : s.bind name left = s := by simp [Scoping.bind, hnil]
    have hbind' : s'.bind (r.declared k name) left = s' := by
      simp [Scoping.bind, hscopes.of_nil]
    rw [hbind, hbind']
    exact ⟨hs, hstep⟩
  | cons inner outer =>
    have hcons : s.scopes = inner.names :: Place.names outer := hs
    rw [hcons] at hscopes
    obtain ⟨names', outer', hscopes', hnames, houter⟩ := hscopes.of_cons
    simp only [Scoping.bind, hcons, hscopes']
    exact ⟨rfl, ⟨hnames.set hproper.ne hname left, houter⟩, hstep.locals, hstep.errors⟩

theorem defineAll (hproper : r.IsProper) {names : List String}
    (hnames : ∀ name ∈ names, name ≠ r.new) (place : Place) :
    Lockstep r k place (place.bindAll names) (Resolve.defineAll names)
      (Resolve.defineAll (names.map (r.declared k))) := by
  induction names generalizing place with
  | nil => exact pure
  | cons name names ih =>
    refine (bind hproper (hnames name (List.mem_cons_self ..)) true place).seq (ih ?_ _)
    exact fun other hother => hnames other (List.mem_cons_of_mem _ hother)

/-- Actions in a scope of their own go in step if they do so inside of it. -/
theorem within {inner : Depth} (hinner : inner.outward = k) {scope : Scope} {os : OpenScope}
    (h : Lockstep r inner (place.enter scope) (os :: place) x x') :
    Lockstep r k place place (do Resolve.openScope; x; Resolve.closeScope)
      (do Resolve.openScope; x'; Resolve.closeScope) := by
  intro s s' hs hstep
  have hopen : r.Scopes inner .empty .empty := ⟨rfl, fun _ _ _ => rfl, by split <;> simp⟩
  obtain ⟨hscopes, hclosed⟩ :=
    h { s with scopes := .empty :: s.scopes } { s' with scopes := .empty :: s'.scopes }
      (by rw [hs]; rfl) ⟨⟨hopen, hinner ▸ hstep.scopes⟩, hstep.locals, hstep.errors⟩
  have htail := hclosed.scopes.tail
  rw [hinner] at htail
  refine ⟨?_, htail, hclosed.locals, hclosed.errors⟩
  show (x.run { s with scopes := .empty :: s.scopes }).2.scopes.tail = place.names
  rw [hscopes]
  rfl

/-- The distance of an occurrence of a name is noted. -/
theorem occurrence {o : Occurrence} {name : String} (hname : o.name? = some name)
    (hnew : name ≠ r.new) (hlocal : o.IsAddressed r.locals) :
    Lockstep r k o.place o.place (Resolve.occurrence o.id name)
      (Resolve.occurrence o.id (r.spelled k r.locals[o.id]? name)) := by
  intro s s' hs hstep
  have hdistance := hstep.scopes.scopeDistance? hnew
  have hlocal' : r.locals[o.id]? = scopeDistance? name o.place.names := by
    rw [Occurrence.IsAddressed, Occurrence.distance?, hname] at hlocal
    exact hlocal
  rw [hs] at hdistance
  rw [hlocal']
  cases hd : scopeDistance? name o.place.names with
  | none =>
    rw [hd] at hdistance
    rw [run_occurrence_of_none (by rw [hs, hd]), run_occurrence_of_none hdistance]
    exact ⟨hs, hstep⟩
  | some distance =>
    rw [hd] at hdistance
    rw [run_occurrence_of_some (by rw [hs, hd]), run_occurrence_of_some hdistance]
    refine ⟨hs, hstep.scopes, ?_, hstep.errors⟩
    show s'.locals.insert o.id distance = s.locals.insert o.id distance
    rw [hstep.locals]

theorem note (fault : ScopeFault) (span : Span) :
    Lockstep r k place place (Resolve.note fault span) (Resolve.note fault span) := by
  intro s s' hs hstep
  refine ⟨hs, hstep.scopes, hstep.locals, ?_⟩
  show s'.errors.push _ = s.errors.push _
  rw [hstep.errors]

/-- A variable that is not read in its own initializer is not after renaming. -/
theorem inInitializer_used {node : Node} {name : String} (hnew : name ≠ r.new)
    (hlocal : Occurrence.IsAddressed r.locals ⟨.variable node name, place⟩)
    (hlegal : Occurrence.IsLegal ⟨.variable node name, place⟩) {s s' : Scoping}
    (hs : s.scopes = place.names) (hstep : s.InStep r k s') :
    s.inInitializer name = false ∧ s'.inInitializer (r.used k node name) = false := by
  have hscopes := hstep.scopes
  cases place with
  | nil =>
    have hnil : s.scopes = [] := hs
    rw [hnil] at hscopes
    simp [Scoping.inInitializer, hnil, hscopes.of_nil]
  | cons inner outer =>
    have hcons : s.scopes = inner.names :: Place.names outer := hs
    rw [hcons] at hscopes
    obtain ⟨names', outer', hscopes', hnames, -⟩ := hscopes.of_cons
    have hzero : r.locals[node.id]? = some 0 ↔ inner.names.contains name = true := by
      have hdistance : r.locals[node.id]? =
          scopeDistance? name (inner.names :: Place.names outer) := hlocal
      rw [hdistance, Renaming.scopeDistance?_cons_eq_zero]
    have hget := hnames.get?_spelled hnew hzero
    have hne : inner.names.get? name ≠ some false := hlegal
    simp [Scoping.inInitializer, hcons, hscopes', Renaming.used, hget, hne]

theorem run_checkInitializer {name : String} {span : Span} {s : Scoping}
    (h : s.inInitializer name = false) :
    ((Resolve.checkInitializer name span).run s).2 = s := by
  have hrun : (Resolve.checkInitializer name span).run s =
      (if s.inInitializer name then Resolve.note (.ownInitializer name) span
        else Pure.pure ()).run s := rfl
  rw [hrun, h]
  rfl

/-- The reading of a variable. -/
theorem reading {node : Node} {name : String} (hnew : name ≠ r.new)
    (hlocal : Occurrence.IsAddressed r.locals ⟨.variable node name, place⟩)
    (hlegal : Occurrence.IsLegal ⟨.variable node name, place⟩) :
    Lockstep r k place place
      (do Resolve.checkInitializer name node.span; Resolve.occurrence node.id name)
      (do Resolve.checkInitializer (r.used k node name) node.span
          Resolve.occurrence node.id (r.used k node name)) := by
  refine seq ?_ (occurrence (o := ⟨.variable node name, place⟩) rfl hnew hlocal)
  intro s s' hs hstep
  obtain ⟨hfalse, hfalse'⟩ := inInitializer_used hnew hlocal hlegal hs hstep
  rw [run_checkInitializer hfalse, run_checkInitializer hfalse']
  exact ⟨hs, hstep⟩

end Lockstep

/-! ## Expressions and statements -/

/-- The occurrences are legal, and their distances are those of the program. -/
def Renaming.Settles (r : Renaming) (os : List Occurrence) : Prop :=
  ∀ o ∈ os, o.IsAddressed r.locals ∧ o.IsLegal

namespace Renaming.Settles

variable {os os' : List Occurrence}

theorem left (h : r.Settles (os ++ os')) : r.Settles os :=
  fun o ho => h o (List.mem_append_left _ ho)

theorem right (h : r.Settles (os ++ os')) : r.Settles os' :=
  fun o ho => h o (List.mem_append_right _ ho)

theorem last {o : Occurrence} (h : r.Settles (os ++ [o])) : o.IsAddressed r.locals :=
  (h o (List.mem_append_right _ (List.mem_singleton_self o))).1

end Renaming.Settles

variable {around : Enclosing} {k : Depth} {place : Place}

mutual
theorem Expr.Renamed.lockstep (hproper : r.IsProper) {e e' : Expr} :
    Expr.Renamed r k e e' → r.Settles (e.occurrences place) →
      Lockstep r k place place (e.resolve around) (e'.resolve around)
  | .literal, _ => by
    rw [Expr.resolve]
    exact .pure
  | .grouping hinner, hos => by
    rw [Expr.occurrences] at hos
    rw [Expr.resolve, Expr.resolve]
    exact hinner.lockstep hproper hos.left
  | .unary hoperand, hos => by
    rw [Expr.occurrences] at hos
    rw [Expr.resolve, Expr.resolve]
    exact hoperand.lockstep hproper hos.left
  | .binary hleft hright, hos => by
    rw [Expr.occurrences] at hos
    rw [Expr.resolve, Expr.resolve]
    exact (hleft.lockstep hproper hos.left.left).seq (hright.lockstep hproper hos.left.right)
  | .logical hleft hright, hos => by
    rw [Expr.occurrences] at hos
    rw [Expr.resolve, Expr.resolve]
    exact (hleft.lockstep hproper hos.left.left).seq (hright.lockstep hproper hos.left.right)
  | .variable hname, hos => by
    rw [Expr.occurrences] at hos
    rw [Expr.resolve, Expr.resolve]
    obtain ⟨hlocal, hlegal⟩ := hos _ (List.mem_singleton_self _)
    exact .reading hname hlocal hlegal
  | .assign hname hvalue, hos => by
    rw [Expr.occurrences] at hos
    rw [Expr.resolve, Expr.resolve]
    exact (hvalue.lockstep hproper hos.left).seq (.occurrence rfl hname hos.last)
  | .call hcallee harguments, hos => by
    rw [Expr.occurrences] at hos
    rw [Expr.resolve, Expr.resolve]
    exact (hcallee.lockstep hproper hos.left.left).seq
      (harguments.lockstep hproper hos.left.right)
  | .new hcallee harguments, hos => by
    rw [Expr.occurrences] at hos
    rw [Expr.resolve, Expr.resolve]
    exact (hcallee.lockstep hproper hos.left.left).seq
      (harguments.lockstep hproper hos.left.right)
  | .get hobject, hos => by
    rw [Expr.occurrences] at hos
    rw [Expr.resolve, Expr.resolve]
    exact hobject.lockstep hproper hos.left
  | .set hobject hvalue, hos => by
    rw [Expr.occurrences] at hos
    rw [Expr.resolve, Expr.resolve]
    exact (hvalue.lockstep hproper hos.left.left).seq (hobject.lockstep hproper hos.left.right)
  | @Expr.Renamed.this _ _ node, hos => by
    rw [Expr.occurrences] at hos
    rw [Expr.resolve]
    split
    · obtain ⟨hlocal, -⟩ := hos _ (List.mem_singleton_self _)
      have hthis : Lockstep r k place place _ _ :=
        .occurrence (o := ⟨.this node, place⟩) rfl hproper.new.ne_this.symm hlocal
      rwa [Renaming.spelled, if_neg fun h => hproper.old.ne_this h.1.symm] at hthis
    · exact .note _ _

theorem Expr.RenamedAll.lockstep (hproper : r.IsProper) {es es' : List Expr} :
    Expr.RenamedAll r k es es' → r.Settles (Expr.occurrencesAll place es) →
      Lockstep r k place place (Expr.resolveAll around es) (Expr.resolveAll around es')
  | .nil, _ => by
    rw [Expr.resolveAll]
    exact .pure
  | .cons hfirst hothers, hos => by
    rw [Expr.occurrencesAll] at hos
    rw [Expr.resolveAll, Expr.resolveAll]
    exact (hfirst.lockstep hproper hos.left).seq (hothers.lockstep hproper hos.right)
end

theorem Expr.RenamedOption.lockstep (hproper : r.IsProper) {e e' : Option Expr}
    (h : Expr.RenamedOption r k e e') (hos : r.Settles (Expr.occurrencesOption place e)) :
    Lockstep r k place place (Expr.resolveOption around e) (Expr.resolveOption around e') := by
  cases h with
  | none => exact .pure
  | some h => exact h.lockstep hproper hos

mutual
theorem Stmt.Renamed.lockstep (hproper : r.IsProper) {around : Enclosing} {place : Place}
    {k : Depth} {s s' : Stmt} : Stmt.Renamed r k s s' → r.Settles (s.occurrences place) →
      Lockstep r k place (s.leave place) (s.resolve around) (s'.resolve around)
  | .expression hvalue, hos => by
    rw [Stmt.occurrences] at hos
    rw [Stmt.resolve, Stmt.resolve]
    exact hvalue.lockstep hproper hos
  | .print hvalue, hos => by
    rw [Stmt.occurrences] at hos
    rw [Stmt.resolve, Stmt.resolve]
    exact hvalue.lockstep hproper hos
  | .var hname hinitializer, hos => by
    rw [Stmt.occurrences] at hos
    rw [Stmt.resolve, Stmt.resolve, Stmt.leave]
    exact (Lockstep.bind hproper hname false place).seq
      ((hinitializer.lockstep hproper hos).seq (.bind hproper hname true _))
  | @Stmt.Renamed.block _ _ inner body span body' hopens hbody, hos => by
    rw [Stmt.occurrences] at hos
    rw [Stmt.resolve, Stmt.resolve]
    have hlockstep : Lockstep r inner (place.enter (.block body)) _
        (Stmt.resolveAll around body) (Stmt.resolveAll around body') :=
      hbody.lockstep hproper hos
    obtain ⟨os, hleave, -⟩ := Stmt.leaveAll_cons ⟨.block body, .empty⟩ place body
    rw [Place.enter, hleave] at hlockstep
    exact .within hopens.outward_eq hlockstep
  | .ifThen hcondition hthen, hos => by
    rw [Stmt.occurrences] at hos
    rw [Stmt.resolve, Stmt.resolve, Stmt.leave]
    exact (hcondition.lockstep hproper hos.left).seq (hthen.lockstep hproper hos.right)
  | .ifElse hcondition hthen helse, hos => by
    rw [Stmt.occurrences] at hos
    rw [Stmt.resolve, Stmt.resolve, Stmt.leave]
    exact (hcondition.lockstep hproper hos.left.left).seq
      ((hthen.lockstep hproper hos.left.right).seq (helse.lockstep hproper hos.right))
  | .while hcondition hbody, hos => by
    rw [Stmt.occurrences] at hos
    rw [Stmt.resolve, Stmt.resolve, Stmt.leave]
    exact (hcondition.lockstep hproper hos.left).seq (hbody.lockstep hproper hos.right)
  | @Stmt.Renamed.function _ _ decl _ decl' hnew hold hdecl, hos => by
    rw [Stmt.occurrences] at hos
    rw [Stmt.resolve, Stmt.resolve, Stmt.leave, hdecl.name_eq]
    have hdefine := Lockstep.bind (k := k) hproper hnew true place
    rw [Renaming.declared, if_neg fun h => hold h.2 h.1] at hdefine
    exact hdefine.seq (hdecl.lockstep hproper hos)
  | @Stmt.Renamed.class _ _ name methods _ _ hnew hold hmethods, hos => by
    rw [Stmt.occurrences] at hos
    rw [Stmt.resolve, Stmt.resolve, Stmt.leave]
    have hdefine := Lockstep.bind (k := k) hproper hnew true place
    rw [Renaming.declared, if_neg fun h => hold h.2 h.1] at hdefine
    have hthis := Lockstep.bind (k := k.inward) hproper hproper.new.ne_this.symm true
      ((place.bind name true).enter (.receiver methods))
    rw [Renaming.declared_of_ne_old hproper.old.ne_this.symm] at hthis
    exact hdefine.seq (.within k.outward_inward (hthis.seq (hmethods.lockstep hproper hos)))
  | .return hvalue, hos => by
    rw [Stmt.occurrences] at hos
    rw [Stmt.resolve, Stmt.resolve]
    cases around.inFunction with
    | false => exact (Lockstep.note _ _).seq (hvalue.lockstep hproper hos)
    | true => exact hvalue.lockstep hproper hos

theorem Stmt.RenamedAll.lockstep (hproper : r.IsProper) {around : Enclosing} {place : Place}
    {k : Depth} {ss ss' : List Stmt} :
    Stmt.RenamedAll r k ss ss' → r.Settles (Stmt.occurrencesAll place ss) →
      Lockstep r k place (Stmt.leaveAll place ss) (Stmt.resolveAll around ss)
        (Stmt.resolveAll around ss')
  | .nil, _ => by
    rw [Stmt.resolveAll]
    exact .pure
  | .cons hfirst hothers, hos => by
    rw [Stmt.occurrencesAll] at hos
    rw [Stmt.resolveAll, Stmt.resolveAll, Stmt.leaveAll]
    exact (hfirst.lockstep hproper hos.left).seq (hothers.lockstep hproper hos.right)

theorem FunctionDecl.Renamed.lockstep (hproper : r.IsProper) {around : Enclosing}
    {place : Place} {k : Depth} {f f' : FunctionDecl} :
    FunctionDecl.Renamed r k f f' → r.Settles (f.occurrences place) →
      Lockstep r k place place (f.resolve around) (f'.resolve around)
  | @FunctionDecl.Renamed.mk _ _ inner number name params body span body' hopens hparams
      hbody, hos => by
    rw [FunctionDecl.occurrences] at hos
    rw [FunctionDecl.resolve, FunctionDecl.resolve]
    have hinside : Lockstep r inner _ _
        (Stmt.resolveAll { around with inFunction := true } body)
        (Stmt.resolveAll { around with inFunction := true } body') :=
      hbody.lockstep hproper hos
    have hlockstep := (Lockstep.defineAll hproper hparams _).seq hinside
    -- behind the body, the scope of the function is still the innermost one
    obtain ⟨os, hbind, -⟩ := Place.bindAll_cons params
      ⟨.function (.mk number name params body span), .empty⟩ place
    obtain ⟨os', hleave, -⟩ := Stmt.leaveAll_cons os place body
    have hbegin : FunctionDecl.inside place (.mk number name params body span) =
        os :: place := hbind
    rw [hbegin, hleave] at hlockstep
    exact .within hopens.outward_eq hlockstep

theorem FunctionDecl.RenamedAll.lockstep (hproper : r.IsProper) {around : Enclosing}
    {place : Place} {k : Depth} {fs fs' : List FunctionDecl} :
    FunctionDecl.RenamedAll r k fs fs' →
      r.Settles (FunctionDecl.occurrencesAll place fs) →
      Lockstep r k place place (FunctionDecl.resolveAll around fs)
        (FunctionDecl.resolveAll around fs')
  | .nil, _ => by
    rw [FunctionDecl.resolveAll]
    exact .pure
  | .cons hfirst hothers, hos => by
    rw [FunctionDecl.occurrencesAll] at hos
    rw [FunctionDecl.resolveAll, FunctionDecl.resolveAll]
    exact (hfirst.lockstep hproper hos.left).seq (hothers.lockstep hproper hos.right)
end

/-- Resolving the renamed program gives the same distances. -/
theorem Program.Renamed.resolve_eq {p p' : Program} (h : Program.Renamed r p p')
    (hproper : r.IsProper) (hos : r.Settles p.occurrences) : p'.resolve = p.resolve := by
  have hstart : Scoping.initial.InStep r none Scoping.initial := ⟨trivial, rfl, rfl⟩
  have hlockstep : Lockstep r none [] (Stmt.leaveAll [] p.statements)
      (Stmt.resolveAll .program p.statements) (Stmt.resolveAll .program p'.statements) :=
    Stmt.RenamedAll.lockstep hproper h hos
  obtain ⟨-, hstep⟩ := hlockstep .initial .initial rfl hstart
  unfold Program.resolve
  dsimp only
  rw [hstep.errors, hstep.locals]

end Lox
