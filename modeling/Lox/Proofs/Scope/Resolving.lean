import Lox.Proofs.Scope.Occurrence
import Std.Data.TreeMap.Lemmas

/-!
# What resolving finds

Resolving goes through the occurrences of a program in order.  As long as it notes no
error, it adds for each occurrence the distance that its place gives, and every
occurrence is legal (`Program.resolve_eq_ok`).

**Actions.** `Resolves x place place' os` says this of one action: begun at one place
it ends at another one, and has gone through the given occurrences.  It holds of two
actions in sequence if it holds of both.
-/

namespace Lox

/-- The distances with that of one more occurrence. -/
def Occurrence.addTo (locals : Locals) (o : Occurrence) : Locals :=
  match o.distance? with
  | none => locals
  | some distance => locals.insert o.id distance

/-- From one place to another, an action goes through some occurrences. -/
def Resolves (x : Resolve Unit) (place place' : Place) (os : List Occurrence) : Prop :=
  ∀ s : Scoping, s.scopes = place.names →
    (x.run s).2.scopes = place'.names ∧
    s.errors.size ≤ (x.run s).2.errors.size ∧
    ((x.run s).2.errors.size = s.errors.size →
      (x.run s).2.locals = os.foldl Occurrence.addTo s.locals ∧ ∀ o ∈ os, o.IsLegal)

theorem run_occurrence_of_none {id : Nat} {name : String} {s : Scoping}
    (h : scopeDistance? name s.scopes = none) :
    ((Resolve.occurrence id name).run s).2 = s := by
  simp only [Resolve.occurrence, StateT.run_modify, h]
  rfl

theorem run_occurrence_of_some {id distance : Nat} {name : String} {s : Scoping}
    (h : scopeDistance? name s.scopes = some distance) :
    ((Resolve.occurrence id name).run s).2 =
      { s with locals := s.locals.insert id distance } := by
  simp only [Resolve.occurrence, StateT.run_modify, h]
  rfl

namespace Resolves

variable {x y : Resolve Unit} {place place' place'' : Place} {os os' : List Occurrence}

theorem pure (place : Place) : Resolves (Pure.pure ()) place place [] :=
  fun s hs => ⟨hs, Nat.le_refl _, fun _ => ⟨rfl, by simp⟩⟩

theorem seq (hx : Resolves x place place' os) (hy : Resolves y place' place'' os') :
    Resolves (do x; y) place place'' (os ++ os') := by
  intro s hs
  obtain ⟨hscopes, hle, hnoted⟩ := hx s hs
  obtain ⟨hscopes', hle', hnoted'⟩ := hy (x.run s).2 hscopes
  refine ⟨hscopes', Nat.le_trans hle hle', fun heq => ?_⟩
  -- no error in sequence means no error in either action
  have hmid : (x.run s).2.errors.size = s.errors.size :=
    Nat.le_antisymm (Nat.le_trans hle' (Nat.le_of_eq heq)) hle
  obtain ⟨hlocals, hlegal⟩ := hnoted hmid
  obtain ⟨hlocals', hlegal'⟩ := hnoted' (heq.trans hmid.symm)
  refine ⟨?_, fun o ho => ?_⟩
  · rw [List.foldl_append, ← hlocals]
    exact hlocals'
  · rcases List.mem_append.mp ho with ho | ho
    · exact hlegal o ho
    · exact hlegal' o ho

/-- An action that changes the state. -/
theorem of_modify {f : Scoping → Scoping}
    (h : ∀ s : Scoping, s.scopes = place.names →
      (f s).scopes = place'.names ∧ s.errors.size ≤ (f s).errors.size ∧
      ((f s).errors.size = s.errors.size →
        (f s).locals = os.foldl Occurrence.addTo s.locals ∧ ∀ o ∈ os, o.IsLegal)) :
    Resolves (modify f) place place' os := h

theorem bind (name : String) (left : Bool) (place : Place) :
    Resolves (modify (·.bind name left)) place (place.bind name left) [] := by
  refine of_modify fun s hs => ?_
  cases place with
  | nil =>
    have hnil : s.scopes = [] := hs
    simp [Scoping.bind, hnil, Place.bind, Place.names]
  | cons inner outer =>
    have hcons : s.scopes = inner.names :: Place.names outer := hs
    simp [Scoping.bind, hcons, Place.bind, Place.names]

theorem declare (name : String) (place : Place) :
    Resolves (Resolve.declare name) place (place.bind name false) [] := bind name false place

theorem define (name : String) (place : Place) :
    Resolves (Resolve.define name) place (place.bind name true) [] := bind name true place

theorem defineAll (names : List String) (place : Place) :
    Resolves (Resolve.defineAll names) place (place.bindAll names) [] := by
  induction names generalizing place with
  | nil => exact pure place
  | cons name names ih => exact (define name place).seq (ih _)

theorem openScope (scope : Scope) (place : Place) :
    Resolves Resolve.openScope place (place.enter scope) [] := by
  refine of_modify fun s hs => ?_
  simp [hs, Place.enter, Place.names]

theorem closeScope (inner : OpenScope) (place : Place) :
    Resolves Resolve.closeScope (inner :: place) place [] := by
  refine of_modify fun s hs => ?_
  simp [hs, Place.names]

/-- An action in a scope of its own. -/
theorem within {scope : Scope} (h : Resolves x (place.enter scope) place' os)
    (houter : ∃ inner : OpenScope, place' = inner :: place ∧ inner.scope = scope) :
    Resolves (do Resolve.openScope; x; Resolve.closeScope) place place os := by
  obtain ⟨inner, rfl, -⟩ := houter
  have hclosed := h.seq (closeScope inner place)
  rw [List.append_nil] at hclosed
  exact (openScope scope place).seq hclosed

/-- Noting the distance of a name that is looked up at an occurrence. -/
theorem occurrence {o : Occurrence} {name : String} (hname : o.name? = some name)
    (hlegal : o.IsLegal) : Resolves (Resolve.occurrence o.id name) o.place o.place [o] := by
  refine of_modify fun s hs => ?_
  have hdistance : o.distance? = scopeDistance? name o.place.names := by
    rw [Occurrence.distance?, hname]
  rw [hs]
  cases hd : scopeDistance? name o.place.names with
  | none => simp [hlegal, Occurrence.addTo, hdistance, hd, hs]
  | some distance => simp [hlegal, Occurrence.addTo, hdistance, hd]

/-- An occurrence at which no name is looked up. -/
theorem skip {o : Occurrence} (h : Resolves x place o.place os) (hname : o.name? = none)
    (hlegal : o.IsLegal) : Resolves x place o.place (os ++ [o]) := by
  intro s hs
  obtain ⟨hscopes, hle, hnoted⟩ := h s hs
  refine ⟨hscopes, hle, fun heq => ?_⟩
  obtain ⟨hlocals, hlegals⟩ := hnoted heq
  have hadd (locals : Locals) : o.addTo locals = locals := by
    simp [Occurrence.addTo, Occurrence.distance?, hname]
  refine ⟨by simp [hlocals, hadd], fun o' ho' => ?_⟩
  rcases List.mem_append.mp ho' with ho' | ho'
  · exact hlegals o' ho'
  · rw [List.mem_singleton.mp ho']
    exact hlegal

/-- Noting an error, and then going on, may be said to go through any occurrences. -/
theorem note_then (fault : ScopeFault) (span : Span) (h : Resolves x place place' os)
    (os' : List Occurrence) :
    Resolves (do Resolve.note fault span; x) place place' os' := by
  intro s hs
  obtain ⟨hscopes, hle, -⟩ := h { s with errors := s.errors.push (.resolve fault span) } hs
  have hlt : s.errors.size < ((do Resolve.note fault span; x).run s).2.errors.size :=
    Nat.lt_of_lt_of_le (by simp) hle
  exact ⟨hscopes, Nat.le_of_lt hlt, fun heq => absurd heq (Nat.ne_of_gt hlt)⟩

/-- The reading of a variable: an error is noted unless it is legal. -/
theorem reading (node : Node) (name : String) (place : Place) :
    Resolves (do Resolve.checkInitializer name node.span; Resolve.occurrence node.id name)
      place place [⟨.variable node name, place⟩] := by
  intro s hs
  have hrun : (do Resolve.checkInitializer name node.span
                  Resolve.occurrence node.id name).run s =
      if s.inInitializer name then
        (do Resolve.note (.ownInitializer name) node.span
            Resolve.occurrence node.id name).run s
      else (Resolve.occurrence node.id name).run s := by
    by_cases hinit : s.inInitializer name <;> simp [Resolve.checkInitializer, hinit]
  rw [hrun]
  by_cases hinit : s.inInitializer name
  · rw [if_pos hinit]
    -- an assignment looks up the same name, and is always legal
    exact note_then _ _
      (occurrence (o := ⟨.assign node name (.this node), place⟩) rfl trivial) _ s hs
  · rw [if_neg hinit]
    refine occurrence (o := ⟨.variable node name, place⟩) rfl ?_ s hs
    cases place with
    | nil => trivial
    | cons inner outer =>
      have hcons : s.scopes = inner.names :: Place.names outer := hs
      show inner.names.get? name ≠ some false
      simpa [Scoping.inInitializer, hcons] using hinit

end Resolves

/-! ## Expressions and statements -/

open Resolves

mutual
theorem Expr.resolves (around : Enclosing) (place : Place) :
    ∀ e : Expr, Resolves (e.resolve around) place place (e.occurrences place)
  | .literal node value => by
    rw [Expr.resolve, Expr.occurrences]
    show Resolves _ place place ([] ++ [_])
    exact skip (o := ⟨.literal node value, place⟩) (.pure place) rfl trivial
  | .grouping node inner => by
    rw [Expr.resolve, Expr.occurrences]
    exact skip (o := ⟨.grouping node inner, place⟩) (inner.resolves around place) rfl trivial
  | .unary node op operand => by
    rw [Expr.resolve, Expr.occurrences]
    exact skip (o := ⟨.unary node op operand, place⟩) (operand.resolves around place)
      rfl trivial
  | .binary node op left right opSpan => by
    rw [Expr.resolve, Expr.occurrences]
    exact skip (o := ⟨.binary node op left right opSpan, place⟩)
      ((left.resolves around place).seq (right.resolves around place)) rfl trivial
  | .logical node op left right => by
    rw [Expr.resolve, Expr.occurrences]
    exact skip (o := ⟨.logical node op left right, place⟩)
      ((left.resolves around place).seq (right.resolves around place)) rfl trivial
  | .variable node name => by
    rw [Expr.resolve, Expr.occurrences]
    exact reading node name place
  | .assign node name value => by
    rw [Expr.resolve, Expr.occurrences]
    exact (value.resolves around place).seq
      (occurrence (o := ⟨.assign node name value, place⟩) rfl trivial)
  | .call node callee arguments paren => by
    rw [Expr.resolve, Expr.occurrences]
    exact skip (o := ⟨.call node callee arguments paren, place⟩)
      ((callee.resolves around place).seq (Expr.resolvesAll around place arguments))
      rfl trivial
  | .new node callee arguments paren => by
    rw [Expr.resolve, Expr.occurrences]
    exact skip (o := ⟨.new node callee arguments paren, place⟩)
      ((callee.resolves around place).seq (Expr.resolvesAll around place arguments))
      rfl trivial
  | .get node object name nameSpan => by
    rw [Expr.resolve, Expr.occurrences]
    exact skip (o := ⟨.get node object name nameSpan, place⟩) (object.resolves around place)
      rfl trivial
  | .set node object name nameSpan value => by
    rw [Expr.resolve, Expr.occurrences]
    exact skip (o := ⟨.set node object name nameSpan value, place⟩)
      ((value.resolves around place).seq (object.resolves around place)) rfl trivial
  | .this node => by
    rw [Expr.resolve, Expr.occurrences]
    by_cases hclass : around.inClass
    · rw [if_pos hclass]
      exact occurrence (o := ⟨.this node, place⟩) rfl trivial
    · rw [if_neg hclass]
      exact note_then _ _ (.pure place) _

theorem Expr.resolvesAll (around : Enclosing) (place : Place) :
    ∀ es : List Expr,
      Resolves (Expr.resolveAll around es) place place (Expr.occurrencesAll place es)
  | [] => .pure place
  | e :: es => by
    rw [Expr.resolveAll, Expr.occurrencesAll]
    exact (e.resolves around place).seq (Expr.resolvesAll around place es)
end

theorem Expr.resolvesOption (around : Enclosing) (place : Place) (e : Option Expr) :
    Resolves (Expr.resolveOption around e) place place (Expr.occurrencesOption place e) := by
  cases e with
  | none => exact .pure place
  | some e => exact e.resolves around place

mutual
theorem Stmt.resolves (around : Enclosing) (place : Place) :
    ∀ s : Stmt, Resolves (s.resolve around) place (s.leave place) (s.occurrences place)
  | .expression value span => by
    rw [Stmt.resolve, Stmt.occurrences]
    exact value.resolves around place
  | .print value span => by
    rw [Stmt.resolve, Stmt.occurrences]
    exact value.resolves around place
  | .var name initializer span => by
    rw [Stmt.resolve, Stmt.occurrences, Stmt.leave]
    have hdefine := (Expr.resolvesOption around (place.bind name false) initializer).seq
      (define name _)
    rw [List.append_nil] at hdefine
    exact (declare name place).seq hdefine
  | .block body span => by
    rw [Stmt.resolve, Stmt.occurrences]
    exact within (Stmt.resolvesAll around _ body) (Stmt.leaveAll_cons _ _ body)
  | .ifElse condition thenBranch none span => by
    rw [Stmt.resolve, Stmt.occurrences, Stmt.leave]
    exact (condition.resolves around place).seq (thenBranch.resolves around place)
  | .ifElse condition thenBranch (some elseBranch) span => by
    rw [Stmt.resolve, Stmt.occurrences, Stmt.leave, List.append_assoc]
    exact (condition.resolves around place).seq
      ((thenBranch.resolves around place).seq (elseBranch.resolves around _))
  | .while condition body span => by
    rw [Stmt.resolve, Stmt.occurrences, Stmt.leave]
    exact (condition.resolves around place).seq (body.resolves around place)
  | .function decl span => by
    rw [Stmt.resolve, Stmt.occurrences, Stmt.leave]
    exact (define decl.name place).seq (decl.resolves around _)
  | .class name methods span => by
    rw [Stmt.resolve, Stmt.occurrences, Stmt.leave]
    exact (define name place).seq (within
      ((define "this" _).seq (FunctionDecl.resolvesAll _ _ methods)) ⟨_, rfl, rfl⟩)
  | .return value span => by
    rw [Stmt.resolve, Stmt.occurrences]
    cases around.inFunction with
    | false => exact note_then _ _ (Expr.resolvesOption around place value) _
    | true => exact Expr.resolvesOption around place value

theorem Stmt.resolvesAll (around : Enclosing) (place : Place) :
    ∀ ss : List Stmt, Resolves (Stmt.resolveAll around ss) place (Stmt.leaveAll place ss)
      (Stmt.occurrencesAll place ss)
  | [] => .pure place
  | s :: ss => by
    rw [Stmt.resolveAll, Stmt.occurrencesAll, Stmt.leaveAll]
    exact (s.resolves around place).seq (Stmt.resolvesAll around _ ss)

theorem FunctionDecl.resolves (around : Enclosing) (place : Place) :
    ∀ f : FunctionDecl, Resolves (f.resolve around) place place (f.occurrences place)
  | .mk number name params body span => by
    rw [FunctionDecl.resolve, FunctionDecl.occurrences]
    refine within ((defineAll params _).seq (Stmt.resolvesAll _ _ body)) ?_
    obtain ⟨inner, hinner, hscope⟩ := Place.bindAll_cons params _ place
    rw [Place.enter, hinner]
    obtain ⟨inner', hinner', hscope'⟩ := Stmt.leaveAll_cons inner place body
    exact ⟨inner', hinner', hscope'.trans hscope⟩

theorem FunctionDecl.resolvesAll (around : Enclosing) (place : Place) :
    ∀ fs : List FunctionDecl, Resolves (FunctionDecl.resolveAll around fs) place place
      (FunctionDecl.occurrencesAll place fs)
  | [] => .pure place
  | f :: fs => by
    rw [FunctionDecl.resolveAll, FunctionDecl.occurrencesAll]
    exact (f.resolves around place).seq (FunctionDecl.resolvesAll around place fs)
end

/-! ## Programs -/

/-- Adding an occurrence changes the distance of no other expression. -/
theorem Occurrence.getElem?_addTo_of_ne {locals : Locals} {o : Occurrence} {id : Nat}
    (h : o.id ≠ id) : (o.addTo locals)[id]? = locals[id]? := by
  unfold addTo
  split
  · rfl
  · simp [Std.TreeMap.getElem?_insert, h]

theorem getElem?_foldl_addTo_of_not_mem {os : List Occurrence} {locals : Locals} {id : Nat}
    (h : id ∉ os.map Occurrence.id) :
    (os.foldl Occurrence.addTo locals)[id]? = locals[id]? := by
  induction os generalizing locals with
  | nil => rfl
  | cons o os ih =>
    rw [List.map_cons, List.mem_cons, not_or] at h
    rw [List.foldl_cons, ih h.2, Occurrence.getElem?_addTo_of_ne (Ne.symm h.1)]

/-- If no two expressions have the same number, each gets the distance of its own
occurrence. -/
theorem isAddressed_foldl_addTo {os : List Occurrence} {locals : Locals}
    (hids : (os.map Occurrence.id).Nodup) (hnew : ∀ o ∈ os, locals[o.id]? = none) :
    ∀ o ∈ os, o.IsAddressed (os.foldl Occurrence.addTo locals) := by
  induction os generalizing locals with
  | nil => simp
  | cons first os ih =>
    rw [List.map_cons, List.nodup_cons] at hids
    obtain ⟨hfirst, hids⟩ := hids
    intro o ho
    rw [List.foldl_cons]
    rcases List.mem_cons.mp ho with rfl | ho
    · have hnone := hnew o (List.mem_cons_self ..)
      rw [Occurrence.IsAddressed, getElem?_foldl_addTo_of_not_mem hfirst]
      unfold Occurrence.addTo
      cases hd : o.distance? with
      | none => simpa using hnone
      | some distance => simp
    · refine ih hids (fun o' ho' => ?_) o ho
      have hne : first.id ≠ o'.id := fun heq =>
        hfirst (List.mem_map.mpr ⟨o', ho', heq.symm⟩)
      rw [Occurrence.getElem?_addTo_of_ne hne]
      exact hnew o' (List.mem_cons_of_mem _ ho')

/-- If resolving a program finds no error, every occurrence is legal, and the distances
are those of the occurrences. -/
theorem Program.resolve_eq_ok {p : Program} {locals : Locals} (h : p.resolve = .ok locals) :
    locals = p.occurrences.foldl Occurrence.addTo ∅ ∧ ∀ o ∈ p.occurrences, o.IsLegal := by
  obtain ⟨-, hle, hnoted⟩ := Stmt.resolvesAll .program [] p.statements .initial rfl
  rw [Program.resolve] at h
  split at h
  · next hempty =>
    have hsize : ((Stmt.resolveAll .program p.statements).run .initial).2.errors.size = 0 := by
      simpa using hempty
    obtain ⟨hlocals, hlegal⟩ := hnoted hsize
    cases h
    exact ⟨hlocals, hlegal⟩
  · cases h

end Lox
