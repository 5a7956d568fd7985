import Lox.Proofs.Syntax.Reading

/-!
# Contracts of rules

A contract says for each rule when it may begin, and what holds where it answers and where it
gives up.  It also says which moves are allowed.

**Kept by one rule, kept by all.** It is enough to look at the reading of one rule, and to take
for granted of the rules that it begins what the contract says of them (`Contract.Kept`).  Then
the contract is true of each rule as it runs (`Kept.reads_of_ok`, `Kept.stops_of_error`), of every
rule that begins in the course of it (`Kept.ready_of_reaches`), and of every move on the way
(`Kept.safe_of_mem_moves`).

**Moves.** What every move keeps, every rule keeps (`Rule.kept_by_moves`).

**Budget.** When a rule may begin can depend on its budget.  If no rule may begin without budget,
then more budget makes no difference (`Kept.run_eq`).
-/

namespace Lox

namespace Parse

/-! ## What happens in a reading -/

namespace Reading

variable {α : Type}

/-- The moves that a reading makes by itself, each with the state it is made in.  Giving up looks
at the token at the cursor. -/
def moves (n : Nat) : Reading α → Parser → List (Move × Parser)
  | answer _, _ => []
  | fail _, p => [(.look, p)]
  | move m next, p => (m, p) :: (next (m.answer p)).moves n (m.after p)
  | begin r next, p =>
    match r.run n p with
    | .ok a q => (next a).moves n q
    | .error _ _ => []
  | attempt r next, p =>
    match r.run n p with
    | .ok a q => (next (.ok a)).moves n q
    | .error e q => (next (.error e)).moves n q

/-- The rules that a reading begins by itself, each with the state it begins in. -/
def begun (n : Nat) : Reading α → Parser → List (Rule × Parser)
  | answer _, _ => []
  | fail _, _ => []
  | move m next, p => (next (m.answer p)).begun n (m.after p)
  | begin r next, p =>
    (r, p) :: match r.run n p with
    | .ok a q => (next a).begun n q
    | .error _ _ => []
  | attempt r next, p =>
    (r, p) :: match r.run n p with
    | .ok a q => (next (.ok a)).begun n q
    | .error e q => (next (.error e)).begun n q

end Reading

/-- In the course of the rule `r` with budget `n`, the rule `s` begins with budget `m`. -/
inductive Reaches (n : Nat) (r : Rule) (p : Parser) : Nat → Rule → Parser → Prop
  /-- The rule itself begins. -/
  | self : Reaches n r p n r p
  /-- A rule that begins by then begins another one. -/
  | step {m : Nat} {s t : Rule} {q q' : Parser} (before : Reaches n r p (m + 1) s q)
    (begins : (t, q') ∈ (Reading.ofRule s).begun m q) : Reaches n r p m t q'

/-! ## What every move keeps -/

section

variable {n : Nat} {I : Parser → Prop} (hmoves : ∀ (m : Move) p, I p → I (m.after p))

include hmoves

theorem Reading.kept_by_moves {α : Type}
    (hrules : ∀ (r : Rule) p, I p → I (endState (r.run n) p)) (x : Reading α) {p : Parser}
    (hp : I p) : I (endState (x.run n) p) := by
  induction x generalizing p with
  | answer a => exact hp
  | fail fault => exact hp
  | move m next ih => exact ih _ (hmoves m p hp)
  | begin r next ih =>
    have hrule := hrules r p hp
    rw [Reading.run]
    cases h : r.run n p with
    | ok a q =>
      rw [endState_of_ok h] at hrule
      rw [endState_bind_of_ok h]
      exact ih a hrule
    | error e q =>
      rw [endState_of_error h] at hrule
      rwa [endState_bind_of_error h]
  | attempt r next ih =>
    have hrule := hrules r p hp
    rw [Reading.run]
    cases h : r.run n p with
    | ok a q =>
      rw [endState_of_ok h] at hrule
      rw [endState_bind_of_ok (attempt_of_ok h)]
      exact ih (.ok a) hrule
    | error e q =>
      rw [endState_of_error h] at hrule
      rw [endState_bind_of_ok (attempt_of_error h)]
      exact ih (.error e) hrule

/-- What every move keeps, every rule keeps, however it ends. -/
theorem Rule.kept_by_moves (r : Rule) {p : Parser} (hp : I p) : I (endState (r.run n) p) := by
  induction n generalizing r p with
  | zero =>
    obtain ⟨fault, hrun⟩ := r.run_zero
    rwa [endState_of_error (hrun p)]
  | succ n ih =>
    rw [r.run_succ]
    exact Reading.kept_by_moves hmoves (fun r p => ih r) _ hp

end

/-! ## Contracts -/

/-- What rules rely on and what they see to. -/
structure Contract where
  /-- Which moves are allowed. -/
  safe : Move → Parser → Prop
  /-- When a rule may begin. -/
  ready : Nat → Rule → Parser → Prop
  /-- What holds of the state before, the answer and the state after. -/
  reads : (r : Rule) → Parser → r.Answer → Parser → Prop
  /-- What holds of the state before, the error and the state after. -/
  stops : Rule → Parser → CompileError → Parser → Prop

namespace Reading

variable {α β : Type} {c : Contract} {n : Nat} {ok : α → Parser → Prop}
  {stop : CompileError → Parser → Prop}

/-- From `p` on, a reading makes allowed moves and begins rules that may begin; if these see to
what the contract says, it answers with `ok` or gives up with `stop`. -/
def Obeys (c : Contract) (n : Nat) (ok : α → Parser → Prop)
    (stop : CompileError → Parser → Prop) : Reading α → Parser → Prop
  | answer a, p => ok a p
  | fail fault, p => c.safe .look p ∧ stop (.parse fault p.current) p
  | move m next, p => c.safe m p ∧ (next (m.answer p)).Obeys c n ok stop (m.after p)
  | begin r next, p =>
    c.ready n r p ∧ (∀ a q, c.reads r p a q → (next a).Obeys c n ok stop q) ∧
      ∀ e q, c.stops r p e q → stop e q
  | attempt r next, p =>
    c.ready n r p ∧ (∀ a q, c.reads r p a q → (next (.ok a)).Obeys c n ok stop q) ∧
      ∀ e q, c.stops r p e q → (next (.error e)).Obeys c n ok stop q

@[simp] theorem obeys_pure {a : α} {p : Parser} :
    (pure a : Reading α).Obeys c n ok stop p ↔ ok a p := Iff.rfl

@[simp] theorem obeys_fail {fault : SyntaxFault} {p : Parser} :
    (fail fault : Reading α).Obeys c n ok stop p ↔
      c.safe .look p ∧ stop (.parse fault p.current) p := Iff.rfl

/-- In a sequence, the second reading goes on where the first one answers. -/
@[simp] theorem obeys_bind {x : Reading β} {f : β → Reading α} {p : Parser} :
    (x >>= f).Obeys c n ok stop p ↔
      x.Obeys c n (fun b q => (f b).Obeys c n ok stop q) stop p := by
  show (x.bind f).Obeys c n ok stop p ↔ _
  induction x generalizing p with
  | answer b => rfl
  | fail fault => rfl
  | move m next ih => simp only [bind, Obeys, ih]
  | begin r next ih => simp only [bind, Obeys, ih]
  | attempt r next ih => simp only [bind, Obeys, ih]

/-- What comes after two branches need not be split. -/
theorem obeys_ite_bind {d : Prop} [Decidable d] {x y : Reading β} {f : β → Reading α} {p : Parser} :
    (if d then x >>= f else y >>= f).Obeys c n ok stop p ↔
      (if d then x else y).Obeys c n (fun b q => (f b).Obeys c n ok stop q) stop p := by
  split <;> exact obeys_bind

@[simp] theorem obeys_map {f : β → α} {x : Reading β} {p : Parser} :
    (f <$> x).Obeys c n ok stop p ↔ x.Obeys c n (fun b q => ok (f b) q) stop p :=
  obeys_bind

@[simp] theorem obeys_rule {r : Rule} {p : Parser} {ok : r.Answer → Parser → Prop} :
    (rule r).Obeys c n ok stop p ↔
      c.ready n r p ∧ (∀ a q, c.reads r p a q → ok a q) ∧ ∀ e q, c.stops r p e q → stop e q :=
  Iff.rfl

@[simp] theorem obeys_attempted {r : Rule} {p : Parser}
    {ok : Except CompileError r.Answer → Parser → Prop} :
    (attempted r).Obeys c n ok stop p ↔
      c.ready n r p ∧ (∀ a q, c.reads r p a q → ok (.ok a) q) ∧
        ∀ e q, c.stops r p e q → ok (.error e) q :=
  Iff.rfl

theorem obeys_peek_iff {ok : Token.Kind → Parser → Prop} {p : Parser} :
    peek.Obeys c n ok stop p ↔ c.safe .look p ∧ ok p.kind p := Iff.rfl

theorem obeys_atEnd_iff {ok : Bool → Parser → Prop} {p : Parser} :
    atEnd.Obeys c n ok stop p ↔ c.safe .look p ∧ ok p.atEnd p := Iff.rfl

theorem obeys_note_iff {e : CompileError} {ok : Unit → Parser → Prop} {p : Parser} :
    (note e).Obeys c n ok stop p ↔
      c.safe (.note e) p ∧ ok () { p with errors := p.errors.push e } := Iff.rfl

theorem Obeys.mono {ok' : α → Parser → Prop} {stop' : CompileError → Parser → Prop}
    {x : Reading α} {p : Parser} (h : x.Obeys c n ok stop p)
    (hok : ∀ a q, ok a q → ok' a q) (hstop : ∀ e q, stop e q → stop' e q) :
    x.Obeys c n ok' stop' p := by
  induction x generalizing p with
  | answer a => exact hok a p h
  | fail fault => exact ⟨h.1, hstop _ _ h.2⟩
  | move m next ih => exact ⟨h.1, ih _ h.2⟩
  | begin r next ih =>
    exact ⟨h.1, fun a q ha => ih a (h.2.1 a q ha), fun e q he => hstop e q (h.2.2 e q he)⟩
  | attempt r next ih =>
    exact ⟨h.1, fun a q ha => ih (.ok a) (h.2.1 a q ha),
      fun e q he => ih (.error e) (h.2.2 e q he)⟩

end Reading

namespace Contract

/-- How a run of a rule ends is as the contract says. -/
def Ends (c : Contract) (r : Rule) (p : Parser) : EStateM.Result CompileError Parser r.Answer → Prop
  | .ok a q => c.reads r p a q
  | .error e q => c.stops r p e q

/-- The reading of a rule keeps the contract, if the rules that it begins do. -/
def KeptBy (c : Contract) (r : Rule) : Prop :=
  ∀ n p, c.ready (n + 1) r p → (Reading.ofRule r).Obeys c n (c.reads r p) (c.stops r p) p

/-- Every rule keeps the contract, if the rules that it begins do. -/
structure Kept (c : Contract) : Prop where
  /-- A rule without budget gives up. -/
  zero : ∀ r p fault, c.ready 0 r p → c.stops r p (.parse fault p.current) p
  /-- A rule with budget obeys. -/
  succ : ∀ r, c.KeptBy r

namespace Kept

variable {c : Contract} {n m : Nat} {r s : Rule} {p q : Parser} {α : Type}

/-- A reading ends as it should, if the rules that it begins do. -/
theorem run_reading {x : Reading α} {ok : α → Parser → Prop}
    {stop : CompileError → Parser → Prop}
    (hrules : ∀ r p, c.ready n r p → c.Ends r p (r.run n p))
    (hx : x.Obeys c n ok stop p) :
    match x.run n p with
    | .ok a q => ok a q
    | .error e q => stop e q := by
  induction x generalizing p with
  | answer a => exact hx
  | fail fault => exact hx.2
  | move m next ih => exact ih _ hx.2
  | begin r next ih =>
    have hends := hrules r p hx.1
    rw [Reading.run]
    cases h : r.run n p with
    | ok a q =>
      rw [h] at hends
      rw [bind_of_ok h]
      exact ih a (hx.2.1 a q hends)
    | error e q =>
      rw [h] at hends
      rw [bind_of_error h]
      exact hx.2.2 e q hends
  | attempt r next ih =>
    have hends := hrules r p hx.1
    rw [Reading.run]
    cases h : r.run n p with
    | ok a q =>
      rw [h] at hends
      rw [bind_of_ok (attempt_of_ok h)]
      exact ih (.ok a) (hx.2.1 a q hends)
    | error e q =>
      rw [h] at hends
      rw [bind_of_ok (attempt_of_error h)]
      exact ih (.error e) (hx.2.2 e q hends)

/-- A rule ends as a contract says, if its reading does and the rules that it begins end as they
should; this can be by another contract. -/
theorem ends_succ {d : Contract} (hrules : ∀ s q, d.ready n s q → d.Ends s q (s.run n q))
    (hr : (Reading.ofRule r).Obeys d n (c.reads r p) (c.stops r p) p) :
    c.Ends r p (r.run (n + 1) p) := by
  have h := run_reading hrules hr
  rw [Rule.run_succ]
  cases hrun : (Reading.ofRule r).run n p with
  | ok a q =>
    rw [hrun] at h
    exact h
  | error e q =>
    rw [hrun] at h
    exact h

/-- A rule that may begin ends as the contract says. -/
theorem ends (hc : c.Kept) (hready : c.ready n r p) : c.Ends r p (r.run n p) := by
  induction n generalizing r p with
  | zero =>
    obtain ⟨fault, hrun⟩ := r.run_zero
    rw [hrun]
    exact hc.zero r p fault hready
  | succ n ih => exact ends_succ (fun _ _ => ih) (hc.succ r n p hready)

theorem reads_of_ok (hc : c.Kept) (hready : c.ready n r p) {a : r.Answer}
    (h : r.run n p = .ok a q) : c.reads r p a q := by
  have hends := hc.ends hready
  rwa [h] at hends

theorem stops_of_error (hc : c.Kept) (hready : c.ready n r p) {e : CompileError}
    (h : r.run n p = .error e q) : c.stops r p e q := by
  have hends := hc.ends hready
  rwa [h] at hends

/-! ### What happens on the way -/

/-- A rule that begins may do so.  The rules may run with more budget than the reading is looked
at with. -/
theorem ready_of_mem_begun (hc : c.Kept) (hup : ∀ r p, c.ready n r p → c.ready m r p)
    {x : Reading α} {ok : α → Parser → Prop} {stop : CompileError → Parser → Prop}
    (hx : x.Obeys c n ok stop p) (hmem : (s, q) ∈ x.begun m p) : c.ready n s q := by
  induction x generalizing p with
  | answer a => simp [Reading.begun] at hmem
  | fail fault => simp [Reading.begun] at hmem
  | move m next ih => exact ih _ hx.2 hmem
  | begin r next ih =>
    rw [Reading.begun, List.mem_cons] at hmem
    rcases hmem with heq | hmem
    · obtain ⟨rfl, rfl⟩ := Prod.mk.inj heq
      exact hx.1
    · cases h : r.run m p with
      | ok a q' =>
        rw [h] at hmem
        exact ih a (hx.2.1 a q' (hc.reads_of_ok (hup r p hx.1) h)) hmem
      | error e q' => simp [h] at hmem
  | attempt r next ih =>
    rw [Reading.begun, List.mem_cons] at hmem
    rcases hmem with heq | hmem
    · obtain ⟨rfl, rfl⟩ := Prod.mk.inj heq
      exact hx.1
    · cases h : r.run m p with
      | ok a q' =>
        rw [h] at hmem
        exact ih (.ok a) (hx.2.1 a q' (hc.reads_of_ok (hup r p hx.1) h)) hmem
      | error e q' =>
        rw [h] at hmem
        exact ih (.error e) (hx.2.2 e q' (hc.stops_of_error (hup r p hx.1) h)) hmem

theorem safe_of_mem_moves (hc : c.Kept) {x : Reading α} {ok : α → Parser → Prop}
    {stop : CompileError → Parser → Prop} {m : Move} (hx : x.Obeys c n ok stop p)
    (hmem : (m, q) ∈ x.moves n p) : c.safe m q := by
  induction x generalizing p with
  | answer a => simp [Reading.moves] at hmem
  | fail fault =>
    simp only [Reading.moves, List.mem_singleton, Prod.mk.injEq] at hmem
    obtain ⟨rfl, rfl⟩ := hmem
    exact hx.1
  | move m' next ih =>
    rcases List.mem_cons.1 hmem with heq | hmem
    · obtain ⟨rfl, rfl⟩ := Prod.mk.inj heq
      exact hx.1
    · exact ih _ hx.2 hmem
  | begin r next ih =>
    cases h : r.run n p with
    | ok a q' =>
      simp only [Reading.moves, h] at hmem
      exact ih a (hx.2.1 a q' (hc.reads_of_ok hx.1 h)) hmem
    | error e q' => simp [Reading.moves, h] at hmem
  | attempt r next ih =>
    cases h : r.run n p with
    | ok a q' =>
      simp only [Reading.moves, h] at hmem
      exact ih (.ok a) (hx.2.1 a q' (hc.reads_of_ok hx.1 h)) hmem
    | error e q' =>
      simp only [Reading.moves, h] at hmem
      exact ih (.error e) (hx.2.2 e q' (hc.stops_of_error hx.1 h)) hmem

/-- Every rule that begins in the course of another one may begin. -/
theorem ready_of_reaches (hc : c.Kept) (hready : c.ready n r p)
    (h : Reaches n r p m s q) : c.ready m s q := by
  induction h with
  | self => exact hready
  | step _ hmem ih => exact hc.ready_of_mem_begun (fun _ _ h => h) (hc.succ _ _ _ ih) hmem

/-! ### More budget -/

theorem run_reading_eq (hc : c.Kept) {x : Reading α} {ok : α → Parser → Prop}
    {stop : CompileError → Parser → Prop} (hx : x.Obeys c n ok stop p)
    (hrules : ∀ r p, c.ready n r p → r.run m p = r.run n p) : x.run m p = x.run n p := by
  induction x generalizing p with
  | answer a => rfl
  | fail fault => rfl
  | move m' next ih => exact ih _ hx.2
  | begin r next ih =>
    have heq := hrules r p hx.1
    rw [Reading.run, Reading.run]
    cases h : r.run n p with
    | ok a q =>
      rw [bind_of_ok h, bind_of_ok (heq.trans h)]
      exact ih a (hx.2.1 a q (hc.reads_of_ok hx.1 h))
    | error e q => rw [bind_of_error h, bind_of_error (heq.trans h)]
  | attempt r next ih =>
    have heq := hrules r p hx.1
    rw [Reading.run, Reading.run]
    cases h : r.run n p with
    | ok a q =>
      rw [bind_of_ok (attempt_of_ok h), bind_of_ok (attempt_of_ok (heq.trans h))]
      exact ih (.ok a) (hx.2.1 a q (hc.reads_of_ok hx.1 h))
    | error e q =>
      rw [bind_of_ok (attempt_of_error h), bind_of_ok (attempt_of_error (heq.trans h))]
      exact ih (.error e) (hx.2.2 e q (hc.stops_of_error hx.1 h))

/-- If no rule may begin without budget, then a rule does the same with more of it. -/
theorem run_eq (hc : c.Kept) (hzero : ∀ r p, ¬ c.ready 0 r p) (hready : c.ready n r p)
    (hle : n ≤ m) : r.run m p = r.run n p := by
  induction n generalizing r p m with
  | zero => exact absurd hready (hzero r p)
  | succ n ih =>
    obtain ⟨k, rfl⟩ := Nat.exists_eq_add_of_le hle
    rw [Nat.add_right_comm, Rule.run_succ, Rule.run_succ]
    exact hc.run_reading_eq (hc.succ r n p hready) fun r p h => ih h (Nat.le_add_right n k)

end Kept

/-! ### Reading along -/

/-- The contract, knowing of rules that answer how they ran with budget `n`. -/
def along (c : Contract) (n : Nat) : Contract :=
  { c with reads := fun r p a q => c.reads r p a q ∧ r.run n p = .ok a q }

/-- Rules end as the contract says, if their readings obey knowing how the rules that they begin
ran. -/
theorem ends_along {c : Contract}
    (hzero : ∀ r p fault, c.ready 0 r p → c.stops r p (.parse fault p.current) p)
    (hsucc : ∀ n r p, c.ready (n + 1) r p →
      (Reading.ofRule r).Obeys (c.along n) n (c.reads r p) (c.stops r p) p)
    {n : Nat} {r : Rule} {p : Parser} (hready : c.ready n r p) : c.Ends r p (r.run n p) := by
  induction n generalizing r p with
  | zero =>
    obtain ⟨fault, hrun⟩ := r.run_zero
    rw [hrun]
    exact hzero r p fault hready
  | succ n ih =>
    refine Kept.ends_succ (fun s q hs => ?_) (hsucc n r p hready)
    have hends := ih hs
    cases hrun : s.run n q with
    | ok a q' =>
      rw [hrun] at hends
      exact ⟨hends, hrun⟩
    | error e q' =>
      rw [hrun] at hends
      exact hends

end Contract

end Parse

end Lox
