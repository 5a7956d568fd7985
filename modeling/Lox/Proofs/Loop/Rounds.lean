import Lox.Proofs.Loop.Trees
import Lox.Proofs.Run.Return

/-!
# Rounds of a `for` statement

A `for` statement begins its body again and again (`ForLoop.BeginsBody`), each time in a round that
follows the ones before it (`ForLoop.Rounds`).  Whatever is executed in its course, but the parts
that it is made of, is executed in the body (`ForLoop.within_tree`).

**Frames.** All rounds are in the frame of the loop (`ForLoop.frame`): whatever frame is entered
within the body, there is a way from it to that frame, so that functions made in the body share
the variable of the loop.  A body that is a block has a frame of its own in each round
(`ForLoop.BeginsBody.size_lt`), and functions made by its statements are inside of that one.

**Returns.** A return in the body is passed on by the round, by the loop and by the statement, and
nothing is done after it (`ForLoop.BeginsBody.returns`).
-/

namespace Lox

open Run

/-! ## Frames within a task -/

namespace Machine

theorem ancestor?_openBlock (m : Machine) :
    m.openBlock.store.ancestor? 1 m.openBlock.current = some m.current := by
  simp [openBlock, Store.ancestor?, Store.enclosing?_addFrame]

theorem size_openBlock (m : Machine) :
    m.openBlock.store.frames.size = m.store.frames.size + 1 := Store.size_addFrame _ _

theorem grows_openBlock (m : Machine) : m.store.Grows m.openBlock.store := .addFrame _ _

end Machine

/-- One way up a chain of frames and then another one. -/
theorem Store.ancestor?_add {s : Store} {d d' : Nat} {e e' e'' : FrameId}
    (h : s.ancestor? d e = some e') (h' : s.ancestor? d' e' = some e'') :
    s.ancestor? (d + d') e = some e'' := by
  induction d generalizing e with
  | zero =>
    cases h
    rwa [Nat.zero_add]
  | succ d ih =>
    rw [Nat.succ_add, Store.ancestor?]
    rw [Store.ancestor?] at h
    cases hnext : s.enclosing? e with
    | none => simp [hnext] at h
    | some next =>
      rw [hnext] at h
      exact ih h

namespace Within

variable {n k : Nat} {t t' : Task} {m m' : Machine}

theorem trans {j : Nat} {t'' : Task} {m'' : Machine} (h : Within n t m k t' m')
    (h' : Within k t' m' j t'' m'') : Within n t m j t'' m'' := by
  induction h' with
  | refl => exact h
  | step _ henter hcall ih => exact .step ih henter hcall

theorem isCall_eq (h : Within n t m k t' m') (ht : t.isCall = false) : t'.isCall = false := by
  cases h with
  | refl => exact ht
  | step _ _ hcall => exact hcall

/-- What is begun within a task is the task itself, or within a task that it begins first thing. -/
theorem cases_head (h : Within n t m k t' m') :
    (k = n ∧ t' = t ∧ m' = m) ∨ ∃ j t₁ m₁, n = j + 1 ∧ Enters j t m t₁ m₁ ∧ t₁.isCall = false ∧
      Within j t₁ m₁ k t' m' := by
  induction h with
  | refl => exact .inl ⟨rfl, rfl, rfl⟩
  | step _ hlast hcall ih =>
    right
    rcases ih with ⟨rfl, rfl, rfl⟩ | ⟨j, t₁, m₁, rfl, henter, hcall₁, hwithin⟩
    · exact ⟨_, _, _, rfl, hlast, hcall, .refl⟩
    · exact ⟨j, t₁, m₁, rfl, henter, hcall₁, .step hwithin hlast hcall⟩

/-- The store grows, and frames are only entered from the current one. -/
theorem ancestor (h : Within n t m k t' m') (ht : t.isCall = false) :
    m.store.Grows m'.store ∧ ∃ d, m'.store.ancestor? d m'.current = some m.current := by
  induction h with
  | refl => exact ⟨.refl _, 0, rfl⟩
  | @step k t₁ m₁ t₂ m₂ hbefore henter hcall ih =>
    obtain ⟨hgrows, d, hd⟩ := ih
    have ht₁ : t₁.isCall = false := hbefore.isCall_eq ht
    cases henter.entry with
    | after hsteady _ =>
      refine ⟨hgrows.trans hsteady.store, d, ?_⟩
      rw [hsteady.current]
      exact hsteady.store.ancestor?_eq hd
    | call _ _ => exact ⟨hgrows, d, hd⟩
    | body => cases ht₁
    | block =>
      have hopen := m₁.grows_openBlock
      exact ⟨hgrows.trans hopen, 1 + d,
        Store.ancestor?_add m₁.ancestor?_openBlock (hopen.ancestor?_eq hd)⟩

end Within

/-- The task is part of the evaluation of an expression. -/
def Task.isEvaluation : Task → Bool
  | evaluate _ | evaluateAll _ | invoke .. | instantiate .. | make _ | property .. => true
  | _ => false

/-- Without a call, no statement is executed in an evaluation. -/
theorem Within.isEvaluation {n k : Nat} {t t' : Task} {m m' : Machine} (h : Within n t m k t' m')
    (ht : t.isEvaluation) : t'.isEvaluation := by
  induction h with
  | refl => exact ht
  | step _ henter hcall ih =>
    cases henter with
    | apply => cases hcall
    | functionBody | expression | printed | initializer | blockBody | condition | thenBranch
    | elseBranch | loop | returned | firstStmt | otherStmts | test | round | again => cases ih
    | _ => rfl

/-- Within a task, a function is made, with its own declaration or with that of its class; the last
argument is the store at that moment. -/
inductive Makes (n : Nat) (t : Task) (m : Machine) : Closure → Store → Prop
  | function {k decl span m'} :
      Within n t m (k + 1) (.execute (.function decl span)) m' →
      Makes n t m ⟨decl, m'.current⟩ m'.store
  | method {k name methods span decl m'} :
      Within n t m (k + 1) (.execute (.class name methods span)) m' → decl ∈ methods →
      Makes n t m ⟨decl, m'.current⟩ m'.store

/-- A function that is made within a task is inside of the frame of the task from then on. -/
theorem Makes.ancestor {n : Nat} {t : Task} {m : Machine} {f : Closure} {s : Store}
    (h : Makes n t m f s) (ht : t.isCall = false) :
    m.store.Grows s ∧ ∃ d, ∀ s' : Store, s.Grows s' → s'.ancestor? d f.frame = some m.current := by
  have within {k : Nat} {t' : Task} {m' : Machine} (h : Within n t m k t' m') :
      m.store.Grows m'.store ∧
        ∃ d, ∀ s' : Store, m'.store.Grows s' → s'.ancestor? d m'.current = some m.current := by
    obtain ⟨hgrows, d, hd⟩ := h.ancestor ht
    exact ⟨hgrows, d, fun s' hs' => hs'.ancestor?_eq hd⟩
  cases h with
  | function h => exact within h
  | method h _ => exact within h

/-! ## Statements in order -/

theorem Run.execute_block_eq_ok {n : Nat} {items : List Stmt} {span : Span} {m m' : Machine}
    {flow : Flow} (h : execute n (.block items span) m = .ok flow m') :
    ∃ k m₁, n = k + 1 ∧ executeAll k items m.openBlock = .ok flow m₁ ∧
      m' = { m₁ with current := m.current } := by
  cases n with
  | zero => cases h
  | succ n =>
    cases hitems : executeAll n items m.openBlock with
    | ok flow' m₁ =>
      rw [execute_block_of_ok span hitems] at h
      cases h
      exact ⟨n, m₁, rfl, hitems, rfl⟩
    | error stop m₁ =>
      rw [execute_block_of_error span hitems] at h
      cases h

theorem Run.executeAll_cons_eq_ok_normal {n : Nat} {s : Stmt} {ss : List Stmt} {m m' : Machine}
    (h : executeAll n (s :: ss) m = .ok .normal m') :
    ∃ k m₁, n = k + 1 ∧ execute k s m = .ok .normal m₁ ∧ executeAll k ss m₁ = .ok .normal m' := by
  cases n with
  | zero => cases h
  | succ n =>
    replace h : (Task.executeAll (s :: ss)).run (n + 1) m = .ok .normal m' := h
    rw [Task.run_succ] at h
    obtain ⟨flow, m₁, hs, h⟩ := Plan.run_begin_eq_ok.1 h
    cases flow with
    | «return» v => cases h
    | normal =>
      obtain ⟨flow, m₂, hss, h⟩ := Plan.run_begin_eq_ok.1 h
      cases h
      exact ⟨n, m₁, rfl, hs, hss⟩


/-- A declaration that is executed binds its variable in the current frame. -/
theorem isSome_getHere?_of_execute {n : Nat} {name : String} {value : Option Expr} {span : Span}
    {m m' : Machine} (h : execute n (.var name value span) m = .ok .normal m')
    (hlt : m.current < m.store.frames.size) : (m'.store.getHere? m.current name).isSome := by
  have hbound (v : Value) {m₁ : Machine} (hm : m.Steady m₁) :
      ((m₁.store.define m₁.current name v).getHere? m.current name).isSome := by
    rw [hm.current, Store.getHere?_define,
      if_pos ⟨rfl, rfl, Nat.lt_of_lt_of_le hlt hm.store.size_le⟩]
    rfl
  cases n with
  | zero => cases h
  | succ n =>
    replace h : (Task.execute (.var name value span)).run (n + 1) m = .ok .normal m' := h
    rw [Task.run_succ] at h
    cases value with
    | none =>
      cases h
      exact hbound .nil (.refl m)
    | some value =>
      obtain ⟨v, m₁, hv, h⟩ := Plan.run_begin_eq_ok.1 h
      cases h
      exact hbound v ((Task.keeps n (.evaluate value)).of_ok hv)

/-- Variables that statements declare are bound behind them in the current frame. -/
theorem isSome_getHere?_of_executeAll {n : Nat} {ss : List Stmt} {m m' : Machine}
    (h : executeAll n ss m = .ok .normal m') (hlt : m.current < m.store.frames.size)
    {name : String} {value : Option Expr} {span : Span} (hmem : Stmt.var name value span ∈ ss) :
    (m'.store.getHere? m.current name).isSome := by
  induction ss generalizing n m with
  | nil => cases hmem
  | cons first ss ih =>
    obtain ⟨n, m₁, rfl, hfirst, hss⟩ := executeAll_cons_eq_ok_normal h
    have hsteady : m.Steady m₁ := (Task.keeps n (.execute first)).of_ok hfirst
    have hsteady' : m₁.Steady m' := (Task.keeps n (.executeAll ss)).of_ok hss
    rcases List.mem_cons.1 hmem with rfl | hmem
    · exact hsteady'.store.isSome_getHere? _ _ (isSome_getHere?_of_execute hfirst hlt)
    · rw [← hsteady.current]
      refine ih hss ?_ hmem
      rw [hsteady.current]
      exact Nat.lt_of_lt_of_le hlt hsteady.store.size_le

/-! ## Rounds -/

namespace ForLoop

section

variable (loop : ForLoop) (node : Node) (span : Span)

/-- The frame of the loop, if the statement is begun on the machine. -/
def frame (m : Machine) : FrameId :=
  match loop.initializer with
  | none => m.current
  | some _ => m.store.frames.size

/-- The statement, begun with budget `n` on the machine `m`, comes to the first test of its
condition with budget `k` on the machine `m'`. -/
inductive Starts : Nat → Machine → Nat → Machine → Prop
  | plain {n m} : loop.initializer = none → Starts (n + 1) m n m
  | initialized {first n m m'} :
      loop.initializer = some first → execute (n + 2) first m.openBlock = .ok .normal m' →
      Starts (n + 4) m n m'

/-- From a test of the condition with budget `n` on the machine `m` on, a round is begun with budget
`k` on the machine `m'`: all rounds before it have ended normally. -/
inductive Rounds : Nat → Machine → Nat → Machine → Prop
  | first {n m v m'} :
      evaluate n (loop.testTree node) m = .ok v m' → v.isTruthy = true → Rounds (n + 1) m n m'
  | next {n m v m₁ m₂ k m'} :
      evaluate n (loop.testTree node) m = .ok v m₁ → v.isTruthy = true →
      execute n (loop.roundTree span) m₁ = .ok .normal m₂ → Rounds n m₂ k m' →
      Rounds (n + 1) m k m'

/-- The machine on which the body is begun, if its round is begun on the machine. -/
def bodyMachine (m : Machine) : Machine :=
  match loop.increment with
  | none => m
  | some _ => m.openBlock

/-- How many frames the round of a body is inside of the loop. -/
def roundDepth : Nat := if loop.increment.isSome then 1 else 0

/-- The statement, begun with budget `n` on the machine `m`, begins its body with budget `k` on the
machine `m'`. -/
def BeginsBody (n : Nat) (m : Machine) (k : Nat) (m' : Machine) : Prop :=
  ∃ j m₁ m₂, loop.Starts n m j m₁ ∧ loop.Rounds node span j m₁ (k + 2 * loop.roundDepth) m₂ ∧
    m' = loop.bodyMachine m₂

end

variable {loop : ForLoop} {node : Node} {span : Span} {n j k k' : Nat} {m m₁ m' m'' : Machine}

/-! ### Where the body is begun -/

theorem tree_of_none (h : loop.initializer = none) :
    loop.tree node span = .while (loop.testTree node) (loop.roundTree span) span := by
  obtain ⟨initializer, condition, increment, body⟩ := loop
  cases h
  rfl

theorem tree_of_some {first : Stmt} (h : loop.initializer = some first) :
    loop.tree node span =
      .block [first, .while (loop.testTree node) (loop.roundTree span) span] span := by
  obtain ⟨initializer, condition, increment, body⟩ := loop
  cases h
  rfl

theorem Starts.within (h : loop.Starts n m k m') :
    Within n (.execute (loop.tree node span)) m k
      (.loop (loop.testTree node) (loop.roundTree span)) m' := by
  cases h with
  | plain hnone =>
    rw [tree_of_none hnone]
    exact .step .refl .loop rfl
  | initialized hsome hfirst =>
    rw [tree_of_some hsome]
    have hrest : Within (k + 4)
        (.execute (.block [_, .while (loop.testTree node) (loop.roundTree span) span] span)) m
        (k + 2) (.executeAll [.while (loop.testTree node) (loop.roundTree span) span]) m' :=
      .step (.step .refl .blockBody rfl) (.otherStmts hfirst) rfl
    exact .step (.step hrest .firstStmt rfl) .loop rfl

theorem Rounds.within (h : loop.Rounds node span n m k m') :
    Within n (.loop (loop.testTree node) (loop.roundTree span)) m k
      (.execute (loop.roundTree span)) m' := by
  induction h with
  | first hv htruthy => exact .step .refl (.round hv htruthy) rfl
  | next hv htruthy hround _ ih => exact .head (.again hv htruthy hround) rfl ih

theorem within_bodyMachine (k : Nat) (m : Machine) :
    Within (k + 2 * loop.roundDepth) (.execute (loop.roundTree span)) m k (.execute loop.body)
      (loop.bodyMachine m) := by
  obtain ⟨initializer, condition, increment, body⟩ := loop
  cases increment with
  | none => exact .refl
  | some increment => exact .step (.step .refl .blockBody rfl) .firstStmt rfl

/-- The body is begun in the course of the statement, in no further call. -/
theorem BeginsBody.within (h : loop.BeginsBody node span n m k m') :
    Within n (.execute (loop.tree node span)) m k (.execute loop.body) m' := by
  obtain ⟨j, m₁, m₂, hstarts, hrounds, rfl⟩ := h
  exact (hstarts.within.trans hrounds.within).trans (within_bodyMachine k m₂)

/-! ### The frame of the loop -/

theorem Starts.current (h : loop.Starts n m k m') : m'.current = loop.frame m := by
  cases h with
  | plain hnone => simp [frame, hnone]
  | @initialized first n m m' hsome hfirst =>
    rw [((Task.keeps _ (.execute first)).of_ok hfirst).current, frame, hsome]
    rfl

theorem Rounds.steady (h : loop.Rounds node span n m k m') : m.Steady m' := by
  induction h with
  | first hv _ => exact (Task.keeps _ (.evaluate _)).of_ok hv
  | next hv _ hround _ ih =>
    have htest := (Task.keeps _ (.evaluate _)).of_ok hv
    exact (htest.trans ((Task.keeps _ (.execute _)).of_ok hround)).trans ih

theorem grows_bodyMachine (m : Machine) : m.store.Grows (loop.bodyMachine m).store := by
  rw [bodyMachine]
  cases loop.increment with
  | none => exact .refl _
  | some increment => exact m.grows_openBlock

theorem ancestor?_bodyMachine (m : Machine) :
    (loop.bodyMachine m).store.ancestor? loop.roundDepth (loop.bodyMachine m).current =
      some m.current := by
  rw [bodyMachine, roundDepth]
  cases loop.increment with
  | none => rfl
  | some increment => exact m.ancestor?_openBlock

/-- The body is begun in the frame of the loop or in a frame inside of it. -/
theorem BeginsBody.ancestor (h : loop.BeginsBody node span n m k m') :
    m'.store.ancestor? loop.roundDepth m'.current = some (loop.frame m) := by
  obtain ⟨j, m₁, m₂, hstarts, hrounds, rfl⟩ := h
  rw [ancestor?_bodyMachine, hrounds.steady.current, hstarts.current]

/-- The loop's own variable is bound in the frame of the loop. -/
theorem BeginsBody.isSome_getHere? (h : loop.BeginsBody node span n m k m') {name : String}
    {value : Option Expr} {span' : Span} (hvar : loop.initializer = some (.var name value span')) :
    (m'.store.getHere? (loop.frame m) name).isSome := by
  obtain ⟨j, m₁, m₂, hstarts, hrounds, rfl⟩ := h
  refine (hrounds.steady.store.trans (grows_bodyMachine m₂)).isSome_getHere? _ _ ?_
  cases hstarts with
  | plain hnone =>
    rw [hnone] at hvar
    cases hvar
  | initialized hsome hfirst =>
    rw [hvar] at hsome
    cases hsome
    rw [frame, hvar]
    exact isSome_getHere?_of_execute hfirst (by simp [Machine.openBlock])

/-! ### Rounds in order -/

theorem Rounds.lt (h : loop.Rounds node span n m k m') : k < n := by
  induction h with
  | first => exact Nat.lt_succ_self _
  | next _ _ _ _ ih => exact Nat.lt_succ_of_lt ih

/-- A round that is followed by another one ends normally before that one. -/
theorem Rounds.before (h : loop.Rounds node span n m k m') (h' : loop.Rounds node span n m k' m'')
    (hlt : k' < k) :
    ∃ m₁, execute k (loop.roundTree span) m' = .ok .normal m₁ ∧ m₁.Steady m'' := by
  induction h with
  | first hv htruthy =>
    cases h' with
    | first => omega
    | next hv' htruthy' hround hrest =>
      rw [hv] at hv'
      cases hv'
      exact ⟨_, hround, hrest.steady⟩
  | next hv htruthy hround hrest ih =>
    cases h' with
    | first =>
      have hk := hrest.lt
      omega
    | next hv' htruthy' hround' hrest' =>
      rw [hv] at hv'
      cases hv'
      rw [hround] at hround'
      cases hround'
      exact ih hrest' hlt

/-- A block leaves its frame in the store. -/
theorem size_lt_of_block {items : List Stmt} {flow : Flow}
    (h : execute n (.block items span) m = .ok flow m') :
    m.store.frames.size < m'.store.frames.size := by
  obtain ⟨k, m₁, rfl, hitems, rfl⟩ := execute_block_eq_ok h
  have hsize : m.openBlock.store.frames.size ≤ m₁.store.frames.size :=
    ((Task.keeps k (.executeAll items)).of_ok hitems).store.size_le
  rw [m.size_openBlock] at hsize
  exact hsize

/-- A body that is a block leaves its frame in the store. -/
theorem size_lt_of_roundTree {items : List Stmt} {span' : Span}
    (hbody : loop.body = .block items span')
    (h : execute k (loop.roundTree span) m = .ok .normal m') :
    (loop.bodyMachine m).store.frames.size < m'.store.frames.size := by
  obtain ⟨initializer, condition, increment, body⟩ := loop
  cases hbody
  cases increment with
  | none => exact size_lt_of_block h
  | some increment =>
    obtain ⟨k, m₁, rfl, hround, rfl⟩ := execute_block_eq_ok h
    obtain ⟨k, m₂, rfl, hblock, hincrement⟩ := executeAll_cons_eq_ok_normal hround
    have hle := ((Task.keeps k (.executeAll _)).of_ok hincrement).store.size_le
    exact Nat.lt_of_lt_of_le (size_lt_of_block hblock) hle

/-- **Bodies that are blocks** are in new frames in each round. -/
theorem BeginsBody.size_lt (h : loop.BeginsBody node span n m k m')
    (h' : loop.BeginsBody node span n m k' m'') (hlt : k' < k) {items : List Stmt} {span' : Span}
    (hbody : loop.body = .block items span') :
    m'.store.frames.size < m''.store.frames.size := by
  obtain ⟨j, m₁, m₂, hstarts, hrounds, rfl⟩ := h
  obtain ⟨j', m₁', m₂', hstarts', hrounds', rfl⟩ := h'
  have hstart : j' = j ∧ m₁' = m₁ := by
    cases hstarts with
    | plain hnone =>
      cases hstarts' with
      | plain => exact ⟨rfl, rfl⟩
      | initialized hsome => rw [hnone] at hsome; cases hsome
    | initialized hsome hfirst =>
      cases hstarts' with
      | plain hnone => rw [hsome] at hnone; cases hnone
      | initialized hsome' hfirst' =>
        rw [hsome] at hsome'
        cases hsome'
        rw [hfirst] at hfirst'
        cases hfirst'
        exact ⟨rfl, rfl⟩
  obtain ⟨rfl, rfl⟩ := hstart
  obtain ⟨m₃, hround, hsteady⟩ := hrounds.before hrounds' (by omega)
  have hlt := size_lt_of_roundTree hbody hround
  have hgrows : m₂'.store.Grows (loop.bodyMachine m₂').store := grows_bodyMachine m₂'
  have hle := (hsteady.store.trans hgrows).size_le
  omega

/-! ### What is executed in the statement -/

/-- The statement is made for the `for` statement, or stands before the first semicolon of it. -/
def IsOwn (loop : ForLoop) (node : Node) (span : Span) (s : Stmt) : Prop :=
  s = loop.tree node span ∨ s ∈ loop.initializer ∨ s = loop.rest node span ∨
    ∃ increment ∈ loop.increment,
      s = loop.roundTree span ∨ s = .expression increment increment.span

/-- Nothing that makes a function or returns is made for a `for` statement. -/
theorem IsOwn.ne (hlegal : loop.IsLegal) {s : Stmt} (h : loop.IsOwn node span s) :
    (∀ decl span', s ≠ .function decl span') ∧ (∀ name methods span', s ≠ .class name methods span') ∧
      ∀ value span', s ≠ .return value span' := by
  obtain ⟨initializer, condition, increment, body⟩ := loop
  rcases h with rfl | hfirst | rfl | ⟨value, rfl, rfl | rfl⟩
  · cases initializer <;> simp [tree, Stmt.forLoop]
  · have hkind := hlegal.initializer s hfirst
    cases s <;> simp [Stmt.isInitializer] at hkind ⊢
  · simp [rest]
  · simp [roundTree]
  · simp

/-- What is executed in the course of an initializer is the initializer itself. -/
theorem eq_of_within_initializer {first s : Stmt} (hfirst : first.isInitializer)
    (h : Within n (.execute first) m k (.execute s) m') : s = first := by
  rcases h.cases_head with ⟨-, heq, -⟩ | ⟨j, t₁, m₁, rfl, henter, -, hwithin⟩
  · cases heq
    rfl
  · cases henter with
    | expression | initializer => cases hwithin.isEvaluation rfl
    | _ => cases hfirst

/-- What is executed in the course of statements is in the course of one of them. -/
theorem within_executeAll {ss : List Stmt} {s : Stmt}
    (h : Within n (.executeAll ss) m k (.execute s) m') :
    ∃ first rest j, ss = first :: rest ∧ n = j + 1 ∧
      (Within j (.execute first) m k (.execute s) m' ∨
        ∃ m₁, execute j first m = .ok .normal m₁ ∧
          Within j (.executeAll rest) m₁ k (.execute s) m') := by
  rcases h.cases_head with ⟨-, heq, -⟩ | ⟨j, t₁, m₁, rfl, henter, -, hwithin⟩
  · cases heq
  · cases henter with
    | firstStmt => exact ⟨_, _, j, rfl, rfl, .inl hwithin⟩
    | otherStmts hfirst => exact ⟨_, _, j, rfl, rfl, .inr ⟨_, hfirst, hwithin⟩⟩

/-- What is executed in the course of a round is the round, its increment, or in its body. -/
theorem within_roundTree {s : Stmt}
    (h : Within n (.execute (loop.roundTree span)) m k (.execute s) m') :
    loop.IsOwn node span s ∨ ∃ j, n = j + 2 * loop.roundDepth ∧
      Within j (.execute loop.body) (loop.bodyMachine m) k (.execute s) m' := by
  obtain ⟨initializer, condition, increment, body⟩ := loop
  cases increment with
  | none => exact .inr ⟨n, rfl, h⟩
  | some increment =>
    rcases h.cases_head with ⟨-, heq, -⟩ | ⟨j, t₁, m₁, rfl, henter, -, hwithin⟩
    · cases heq
      exact .inl (.inr (.inr (.inr ⟨increment, rfl, .inl rfl⟩)))
    · cases henter
      obtain ⟨first, rest, i, heq, rfl, hfirst | ⟨m₂, -, hrest⟩⟩ := within_executeAll hwithin
      · cases heq
        exact .inr ⟨i, rfl, hfirst⟩
      · cases heq
        obtain ⟨first, rest, i, heq, rfl, hfirst | ⟨m₃, -, hrest⟩⟩ := within_executeAll hrest
        · cases heq
          have hs := eq_of_within_initializer rfl hfirst
          exact .inl (.inr (.inr (.inr ⟨increment, rfl, .inr hs⟩)))
        · cases heq
          obtain ⟨first, rest, i, heq, -⟩ := within_executeAll hrest
          cases heq

/-- What is executed in the course of the loop is in a round. -/
theorem within_loop {s : Stmt}
    (h : Within n (.loop (loop.testTree node) (loop.roundTree span)) m k (.execute s) m') :
    ∃ j m₁, loop.Rounds node span n m j m₁ ∧
      Within j (.execute (loop.roundTree span)) m₁ k (.execute s) m' := by
  induction n generalizing m with
  | zero =>
    rcases h.cases_head with ⟨-, heq, -⟩ | ⟨j, t₁, m₁, hn, -⟩
    · cases heq
    · omega
  | succ n ih =>
    rcases h.cases_head with ⟨-, heq, -⟩ | ⟨j, t₁, m₁, hn, henter, hcall, hwithin⟩
    · cases heq
    · cases hn
      cases henter with
      | test => cases hwithin.isEvaluation rfl
      | round hv htruthy => exact ⟨_, _, .first hv htruthy, hwithin⟩
      | again hv htruthy hround =>
        obtain ⟨j, m₂, hrounds, hwithin⟩ := ih hwithin
        exact ⟨j, m₂, .next hv htruthy hround hrounds, hwithin⟩

/-- **Whatever is executed in the statement** is in the body, apart from the statement's own
parts. -/
theorem within_tree (hlegal : loop.IsLegal) {s : Stmt}
    (h : Within n (.execute (loop.tree node span)) m k (.execute s) m') :
    loop.IsOwn node span s ∨ ∃ j m₁, loop.BeginsBody node span n m j m₁ ∧
      Within j (.execute loop.body) m₁ k (.execute s) m' := by
  have hloop {i : Nat} {m₂ : Machine} (hstarts : loop.Starts n m i m₂)
      (hwithin : Within i (.loop (loop.testTree node) (loop.roundTree span)) m₂ k (.execute s) m') :
      loop.IsOwn node span s ∨ ∃ j m₁, loop.BeginsBody node span n m j m₁ ∧
        Within j (.execute loop.body) m₁ k (.execute s) m' := by
    obtain ⟨j, m₃, hrounds, hround⟩ := within_loop hwithin
    rcases within_roundTree hround with hown | ⟨j, rfl, hbody⟩
    · exact .inl hown
    · exact .inr ⟨j, _, ⟨i, m₂, m₃, hstarts, hrounds, rfl⟩, hbody⟩
  cases hinitializer : loop.initializer with
  | none =>
    rw [tree_of_none hinitializer] at h
    rcases h.cases_head with ⟨-, heq, -⟩ | ⟨j, t₁, m₁, rfl, henter, -, hwithin⟩
    · cases heq
      exact .inl (.inr (.inr (.inl rfl)))
    · cases henter
      exact hloop (.plain hinitializer) hwithin
  | some first =>
    rw [tree_of_some hinitializer] at h
    rcases h.cases_head with ⟨-, heq, -⟩ | ⟨j, t₁, m₁, rfl, henter, -, hwithin⟩
    · cases heq
      exact .inl (.inl (tree_of_some hinitializer).symm)
    · cases henter
      obtain ⟨s₁, ss, i, heq, rfl, hfirst | ⟨m₂, hfirst, hrest⟩⟩ := within_executeAll hwithin
      · cases heq
        have hs := eq_of_within_initializer (hlegal.initializer _ hinitializer) hfirst
        rw [hs]
        exact .inl (.inr (.inl hinitializer))
      · cases heq
        obtain ⟨s₁, ss, i, heq, rfl, hwhile | ⟨m₃, -, hrest⟩⟩ := within_executeAll hrest
        · cases heq
          rcases hwhile.cases_head with ⟨-, heq, -⟩ | ⟨j, t₁, m₁, rfl, henter, -, hwithin⟩
          · cases heq
            exact .inl (.inr (.inr (.inl rfl)))
          · cases henter
            exact hloop (.initialized hinitializer hfirst) hwithin
        · cases heq
          obtain ⟨s₁, ss, i, heq, -⟩ := within_executeAll hrest
          cases heq

/-! ### Functions made in the body -/

namespace BeginsBody

variable {f : Closure} {s : Store}

/-- Functions made in the body share the frame of the loop. -/
theorem makes (h : loop.BeginsBody node span n m k m') (hf : Makes k (.execute loop.body) m' f s) :
    ∃ d, ∀ s' : Store, s.Grows s' → s'.ancestor? d f.frame = some (loop.frame m) := by
  obtain ⟨hgrows, d, hd⟩ := hf.ancestor rfl
  refine ⟨d + loop.roundDepth, fun s' hs' => Store.ancestor?_add (hd s' hs') ?_⟩
  exact (hgrows.trans hs').ancestor?_eq h.ancestor

/-- Functions made by the statements of a block that is the body are inside of its frame in this
round, and share the frame of the loop around it. -/
theorem makes_in_block (h : loop.BeginsBody node span n m (k + 1) m') {items : List Stmt}
    (hf : Makes k (.executeAll items) m'.openBlock f s) :
    ∃ d, ∀ s' : Store, s.Grows s' → s'.ancestor? d f.frame = some m'.store.frames.size ∧
      s'.ancestor? (d + 1 + loop.roundDepth) f.frame = some (loop.frame m) := by
  obtain ⟨hgrows, d, hd⟩ := hf.ancestor rfl
  refine ⟨d, fun s' hs' => ⟨hd s' hs', ?_⟩⟩
  have hopen := m'.ancestor?_openBlock
  have hround := m'.grows_openBlock.ancestor?_eq h.ancestor
  rw [Nat.add_assoc]
  refine Store.ancestor?_add (hd s' hs') ?_
  exact (hgrows.trans hs').ancestor?_eq (Store.ancestor?_add hopen hround)

end BeginsBody

/-- Functions that are made in the statement are made in the body. -/
theorem makes_in_body (hlegal : loop.IsLegal) {f : Closure} {s : Store}
    (h : Makes n (.execute (loop.tree node span)) m f s) :
    ∃ k m', loop.BeginsBody node span n m k m' ∧ Makes k (.execute loop.body) m' f s := by
  cases h with
  | function hwithin =>
    rcases within_tree hlegal hwithin with hown | ⟨k, m', hbegins, hbody⟩
    · exact absurd rfl ((hown.ne hlegal).1 _ _)
    · exact ⟨k, m', hbegins, .function hbody⟩
  | method hwithin hmem =>
    rcases within_tree hlegal hwithin with hown | ⟨k, m', hbegins, hbody⟩
    · exact absurd rfl ((hown.ne hlegal).2.1 _ _ _)
    · exact ⟨k, m', hbegins, .method hbody hmem⟩

/-! ### Returns in the body -/

/-- A return in the body ends the statement, and nothing is done after it. -/
theorem BeginsBody.returns (h : loop.BeginsBody node span n m k m') {v : Value}
    (hreturn : execute k loop.body m' = .ok (.return v) m₁) :
    (∃ m₂, execute n (loop.tree node span) m = .ok (.return v) m₂) ∧
      ∃ before, (Task.execute (loop.tree node span)).course n m =
        before ++ (Task.execute loop.body).course k m' := by
  have hreturns : (Task.execute loop.body).Returns k m' v m₁ := hreturn
  exact h.within.returns hreturns

/-- The statement returns only from its body. -/
theorem returns_in_body (hlegal : loop.IsLegal) {v : Value}
    (h : execute n (loop.tree node span) m = .ok (.return v) m₁) :
    ∃ k m' m₂, loop.BeginsBody node span n m k m' ∧ execute k loop.body m' = .ok (.return v) m₂ := by
  obtain ⟨i, value, span', m₂, m₃, hwithin, hvalue⟩ :=
    Task.Returns.origin (t := .execute (loop.tree node span)) h rfl
  rcases within_tree hlegal hwithin with hown | ⟨k, m', hbegins, hbody⟩
  · exact absurd rfl ((hown.ne hlegal).2.2 _ _)
  · have hreturns : (Task.execute (.return value span')).Returns (i + 1) m₂ v m₃ :=
      execute_return_of_ok hvalue
    obtain ⟨⟨m₄, hreturn⟩, -⟩ := hbody.returns hreturns
    exact ⟨k, m', m₄, hbegins, hreturn⟩

end ForLoop

end Lox
