import Lox.Proofs.Loop.Rounds
import Lox.Proofs.Loop.Sessions

/-!
# The meaning of `for` statements

The tree of a `for` statement, executed as any other code, does what the statement does if it is
read directly (`ForLoop.direct`), in whatever state a session comes to it
(`for_statement_meaning`).
-/

namespace Lox

open Run

/-- Where a session comes to a `for` statement, the direct reading of the session comes to it as
well, and both go on alike. -/
theorem Session.Begins.agrees_direct {limit budget n : Nat} {output : Output}
    {sources : List String} {loop : ForLoop} {node : Node} {span : Span} {m : Machine}
    (hlegal : loop.IsLegal)
    (h : (Session.initial limit output).Begins budget sources n
      (.execute (loop.tree node span)) m) :
    (loop.tree node span).Orderly ∧
      ∃ known m' place, (Session.initial limit output).DirectlyBegins budget sources n
          (.execute (loop.tree node span)) m' ∧
        m.ReadAs known m' ∧
        m.AlignedAt known m' place ((loop.tree node span).occurrences place) ∧
        Agrees known (fun m₁ m₁' flow => flow.Shared known m₁ m₁')
          (execute n (loop.tree node span) m) (loop.direct n m') := by
  obtain ⟨known, m', hbegins, hm, haligned⟩ := h.directly
  have hagrees := tasksAgree known n _ m m' hm haligned
  rw [ForLoop.direct_tree hlegal.body] at hagrees
  obtain ⟨horderly, place, hplace, -⟩ := haligned
  exact ⟨horderly, known, m', place, hbegins, hm, hplace, hagrees⟩

/-- **A `for` statement means what it says.**  Every `for` statement that is read is the tree of its
parts.

A session reports the same if all `for` statements are read directly.  In whatever state it comes to
such a statement, the direct reading comes to the statement in a state that is read as this one;
then both print the same and end with the same error or the same flow: the initializer is run once,
in a new scope, and in that scope condition, body and increment in turn, up to a test that fails
or a return.

In the condition, a name is found in the scope of the loop if the initializer declares it, else
around the statement (`ForLoop.distance?`).  Body and increment are in a scope of the round within,
which declares nothing.

Functions are only made in the body.  They share the frame of the loop, in which the loop's own
variable is bound.  If the body is a block, those made by its statements are inside of a frame in
which the variables that the block declares are bound, and which is a new one in each round.

A return comes from the body.  It is the end of the statement, and the last thing that is done in
it. -/
theorem for_statement_meaning :
    (∀ n, Parse.Gives (Parse.forStatement n) fun s =>
      ∃ (loop : ForLoop) (node : Node) (span : Span),
        s = loop.tree node span ∧ loop.IsLegal) ∧
    (∀ (limit : Nat) (output : Output) (budget : Nat) (sources : List String),
      (Session.initial limit output).directReports budget sources =
        (Session.initial limit output).reports budget sources) ∧
    ∀ (loop : ForLoop) (node : Node) (span : Span), loop.IsLegal →
      (∀ (limit : Nat) (output : Output) (budget : Nat) (sources : List String) (n : Nat)
        (m : Machine),
        (Session.initial limit output).Begins budget sources n
          (.execute (loop.tree node span)) m →
        (loop.tree node span).Orderly ∧
        ∃ known m' place, (Session.initial limit output).DirectlyBegins budget sources n
            (.execute (loop.tree node span)) m' ∧
          m.ReadAs known m' ∧
          m.AlignedAt known m' place ((loop.tree node span).occurrences place) ∧
          Agrees known (fun m₁ m₁' flow => flow.Shared known m₁ m₁')
            (execute n (loop.tree node span) m) (loop.direct n m')) ∧
      ((loop.tree node span).Orderly → ∀ place,
        (loop.tree node span).occurrences place =
          loop.initializer.elim [] (·.occurrences (loop.firstPlace node span place)) ++
          ((loop.testTree node).occurrences (loop.inside node span place) ++
            (loop.body.occurrences (loop.roundPlace node span place) ++
              Expr.occurrencesOption (loop.roundPlace node span place) loop.increment)) ∧
        ∀ name,
          scopeDistance? name (loop.inside node span place).names = loop.distance? name place ∧
          scopeDistance? name (loop.roundPlace node span place).names =
            if loop.increment.isSome then (loop.distance? name place).map (· + 1)
            else loop.distance? name place) ∧
      (∀ (n : Nat) (m : Machine),
        (∀ f s, Makes n (.execute (loop.tree node span)) m f s →
          ∃ k m', loop.BeginsBody node span n m k m' ∧ Makes k (.execute loop.body) m' f s) ∧
        ∀ v m₁, execute n (loop.tree node span) m = .ok (.return v) m₁ →
          ∃ k m' m₂, loop.BeginsBody node span n m k m' ∧
            execute k loop.body m' = .ok (.return v) m₂) ∧
      ∀ (n : Nat) (m : Machine) (k : Nat) (m' : Machine), loop.BeginsBody node span n m k m' →
        (∀ name value span', loop.initializer = some (.var name value span') →
          (m'.store.getHere? (loop.frame m) name).isSome) ∧
        (∀ f s, Makes k (.execute loop.body) m' f s →
          ∃ d, ∀ s' : Store, s.Grows s' → s'.ancestor? d f.frame = some (loop.frame m)) ∧
        (∀ items span' j, loop.body = .block items span' → k = j + 1 →
          (∀ i before m₁ name value span'', executeAll i before m'.openBlock = .ok .normal m₁ →
            Stmt.var name value span'' ∈ before →
            (m₁.store.getHere? m'.store.frames.size name).isSome) ∧
          (∀ f s, Makes j (.executeAll items) m'.openBlock f s →
            ∃ d, ∀ s' : Store, s.Grows s' → s'.ancestor? d f.frame = some m'.store.frames.size ∧
              s'.ancestor? (d + 1 + loop.roundDepth) f.frame = some (loop.frame m)) ∧
          ∀ k' m'', loop.BeginsBody node span n m k' m'' → k' < k →
            m'.store.frames.size < m''.store.frames.size) ∧
        ∀ v m₁, execute k loop.body m' = .ok (.return v) m₁ →
          (∃ m₂, execute n (loop.tree node span) m = .ok (.return v) m₂) ∧
          ∃ before, (Task.execute (loop.tree node span)).course n m =
            before ++ (Task.execute loop.body).course k m' := by
  refine ⟨Parse.gives_forStatement, fun limit output budget sources => ?_,
    fun loop node span hlegal => ⟨fun limit output budget sources n m h => ?_,
      fun horderly place => ⟨?_, fun name => ⟨?_, ?_⟩⟩, fun n m => ⟨?_, ?_⟩,
      fun n m k m' h => ⟨?_, ?_, ?_, ?_⟩⟩⟩
  · exact (Session.readAs_initial limit output).directReports_eq budget sources
  · exact h.agrees_direct hlegal
  · exact ForLoop.occurrences_tree hlegal horderly
  · exact ForLoop.scopeDistance?_inside hlegal name
  · exact ForLoop.scopeDistance?_roundPlace hlegal name
  · exact fun f s hf => ForLoop.makes_in_body hlegal hf
  · exact fun v m₁ hreturn => ForLoop.returns_in_body hlegal hreturn
  · exact fun name value span' hvar => h.isSome_getHere? hvar
  · exact fun f s hf => h.makes hf
  · rintro items span' j hbody rfl
    refine ⟨fun i before m₁ name value span'' hbefore hmem => ?_,
      fun f s hf => h.makes_in_block hf, fun k' m'' h' hlt => h.size_lt h' hlt hbody⟩
    exact isSome_getHere?_of_executeAll hbefore (by simp [Machine.openBlock]) hmem
  · exact fun v m₁ hreturn => h.returns hreturn

/-- Read directly, a loop counts as far as its condition says. -/
example : ((Session.initial 9 .capturing).directReports 40
    ["for (var i = 0; i < 2; i = i + 1) \x7b var j = i; print j; \x7d"]).map (·.printed) =
      [["0", "1"]] := by
  decide +kernel

end Lox
