import Lox.Proofs.Run.Course
import Lox.Proofs.Run.Printing

/-!
# Output that fails

A sink takes a number of bytes and then fails.  A run that prints to a sink is compared with
the run of the same program that keeps its lines: both do the same up to the first line that
does not fit, and there the run on the sink stops (`sink_takes_prefix`).

**Machines.** The machine that prints to the sink is a function of the one that keeps its
lines (`Machine.onSink`).  `Echoes` says of an action either that it fits and does the same on
the sink, or that it breaks off there at a print; plans keep it.
-/

namespace Lox

open Run

/-! ## Bytes of lines -/

/-- The bytes of a line and of the line feed behind it. -/
def lineBytes (line : String) : ByteArray := (line.push '\n').toUTF8

/-- The bytes of lines, each with a line feed behind it. -/
def linesBytes : List String → ByteArray
  | [] => .empty
  | line :: lines => lineBytes line ++ linesBytes lines

theorem linesBytes_append (lines lines' : List String) :
    linesBytes (lines ++ lines') = linesBytes lines ++ linesBytes lines' := by
  induction lines with
  | nil => exact ByteArray.empty_append.symm
  | cons line lines ih => rw [List.cons_append, linesBytes, linesBytes, ih, ByteArray.append_assoc]

theorem linesBytes_concat (lines : List String) (line : String) :
    linesBytes (lines ++ [line]) = linesBytes lines ++ lineBytes line := by
  rw [linesBytes_append, linesBytes, linesBytes, ByteArray.append_empty]

theorem ByteArray.extract_eq_self_of_size_le {bytes : ByteArray} {n : Nat} (h : bytes.size ≤ n) :
    bytes.extract 0 n = bytes := by
  apply ByteArray.ext
  rw [ByteArray.data_extract]
  exact Array.extract_eq_self_of_le h

namespace Output

/-- The bytes of the lines that were kept. -/
def bytes (o : Output) : ByteArray := linesBytes o.lines.toList

/-- The sink that takes `n` bytes, when all lines that were kept have been printed to it. -/
def onSink (n : Nat) (o : Output) : Output :=
  .sink (n - o.bytes.size) (o.bytes.extract 0 n)

/-- The output keeps every line. -/
def Captures (o : Output) : Prop := ∃ lines, o = .captured lines

theorem print_sink (room : Nat) (taken : ByteArray) (line : String) :
    (sink room taken).print line =
      if (lineBytes line).size ≤ room then
        (true, .sink (room - (lineBytes line).size) (taken ++ lineBytes line))
      else (false, .sink 0 (taken ++ (lineBytes line).extract 0 room)) := rfl

theorem lines_print {o : Output} (ho : o.Captures) (line : String) :
    (o.print line).2.lines.toList = o.lines.toList ++ [line] := by
  obtain ⟨lines, rfl⟩ := ho
  simp [print, Output.lines]

theorem bytes_print {o : Output} (ho : o.Captures) (line : String) :
    (o.print line).2.bytes = o.bytes ++ lineBytes line := by
  rw [bytes, lines_print ho, linesBytes_concat]
  rfl

/-- As long as there was room, printing to the sink is printing, and it fails exactly if the
line does not fit. -/
theorem print_onSink {n : Nat} {o : Output} (ho : o.Captures) (hfits : o.bytes.size ≤ n)
    (line : String) :
    (o.onSink n).print line =
      (decide ((o.print line).2.bytes.size ≤ n), (o.print line).2.onSink n) := by
  have hsize : (o.print line).2.bytes.size = o.bytes.size + (lineBytes line).size := by
    rw [bytes_print ho, ByteArray.size_append]
  have htaken : (o.print line).2.bytes.extract 0 n =
      o.bytes ++ (lineBytes line).extract 0 (n - o.bytes.size) := by
    rw [bytes_print ho, ByteArray.extract_append, ByteArray.extract_eq_self_of_size_le hfits,
      Nat.zero_sub]
  have hbefore : o.bytes.extract 0 n = o.bytes := ByteArray.extract_eq_self_of_size_le hfits
  rw [onSink, onSink, htaken, hbefore, hsize, print_sink]
  by_cases hline : (lineBytes line).size ≤ n - o.bytes.size
  · rw [if_pos hline, ByteArray.extract_eq_self_of_size_le hline, decide_eq_true (by omega)]
    congr 2
    omega
  · rw [if_neg hline, decide_eq_false (by omega)]
    congr 2
    omega

theorem Grows.captures {o o' : Output} (h : o.Grows o') (ho : o.Captures) : o'.Captures := by
  induction h with
  | refl => exact ho
  | print line _ ih =>
    obtain ⟨lines, rfl⟩ := ih
    exact ⟨_, rfl⟩

theorem Grows.bytes_eq {o o' : Output} (h : o.Grows o') :
    ∃ more, o'.bytes = o.bytes ++ more := by
  obtain ⟨lines, hlines⟩ := h.keeps_lines
  exact ⟨linesBytes lines, by rw [bytes, ← hlines, linesBytes_append]; rfl⟩

/-- A full sink stays as it is. -/
theorem Grows.onSink_eq {n : Nat} {o o' : Output} (h : o.Grows o') (hfull : n < o.bytes.size) :
    o'.onSink n = o.onSink n := by
  obtain ⟨more, hmore⟩ := h.bytes_eq
  have hsize : o'.bytes.size = o.bytes.size + more.size := by
    rw [hmore, ByteArray.size_append]
  have hmore : o'.bytes.extract 0 n = o.bytes.extract 0 n := by
    rw [hmore, ByteArray.extract_append, Nat.sub_eq_zero_of_le (Nat.le_of_lt hfull),
      Nat.zero_sub, ByteArray.extract_same, ByteArray.append_empty]
  rw [onSink, onSink, hmore]
  congr 1
  omega

end Output

/-! ## Machines and events -/

/-- The machine that has printed to the sink all lines that were kept. -/
def Machine.onSink (n : Nat) (m : Machine) : Machine := { m with output := m.output.onSink n }

/-- The same ending on the machine that prints to the sink. -/
def Run.resultOnSink {α : Type} (n : Nat) :
    EStateM.Result Stop Machine α → EStateM.Result Stop Machine α
  | .ok a m => .ok a (m.onSink n)
  | .error stop m => .error stop (m.onSink n)

/-- The same event on the machine that prints to the sink. -/
def Event.onSink (n : Nat) : Event → Event
  | begins k t m => .begins k t (m.onSink n)
  | acts a m => .acts a (m.onSink n)

theorem Setting.enter_onSink (n : Nat) (s : Setting) (m : Machine) :
    s.enter (m.onSink n) = (s.enter m).onSink n := by
  cases s <;> rfl

theorem Setting.leave_onSink (n : Nat) (s : Setting) (before m : Machine) :
    s.leave (before.onSink n) (m.onSink n) = (s.leave before m).onSink n := by
  cases s <;> rfl

/-- An action with its course does the same on the sink, or breaks off there at the first
print that does not fit. -/
inductive Echoes (n : Nat) {α : Type} (x : Run α) (course : Machine → List Event)
    (m : Machine) : Prop
  /-- All that is printed fits. -/
  | whole :
      (endState x m).output.bytes.size ≤ n →
      x (m.onSink n) = resultOnSink n (x m) →
      course (m.onSink n) = (course m).map (Event.onSink n) →
      Echoes n x course m
  /-- The line that a print produces does not fit, and nothing follows on the sink. -/
  | broken (before : List Event) (v : Value) (span : Span) (m₁ : Machine)
      (after : List Event) (m₂ : Machine) :
      course m = before ++ .acts (.print v span) m₁ :: after →
      m₁.output.bytes.size ≤ n →
      n < (m₁.output.bytes ++ lineBytes (m₁.store.display v)).size →
      m₁.output.lines.toList ++ [m₁.store.display v] <+: (endState x m).output.lines.toList →
      course (m.onSink n) = (before ++ [Event.acts (.print v span) m₁]).map (Event.onSink n) →
      x (m.onSink n) = .error (.error ⟨.outputFailed "sink full", span⟩) m₂ →
      m₂.output = (endState x m).output.onSink n →
      Echoes n x course m

namespace Echoes

variable {n : Nat} {α β : Type} {x : Run α} {f : α → Run β} {course : Machine → List Event}
  {courseOf : α → Machine → List Event} {m : Machine}

/-- Two actions in sequence. -/
theorem bind (hx : Echoes n x course m) (hgrows : ∀ a, Onward (f a))
    (hf : ∀ a m₁, x m = .ok a m₁ → m₁.output.bytes.size ≤ n → Echoes n (f a) (courseOf a) m₁) :
    Echoes n (x >>= f) (fun m => course m ++ follow x m courseOf) m := by
  cases hx with
  | whole hfits hsame hcourse =>
    cases h : x m with
    | error stop m₁ =>
      rw [h] at hsame
      rw [endState_of_error h] at hfits
      refine .whole ?_ ?_ ?_
      · rwa [endState_bind_of_error h]
      · rw [bind_of_error h, bind_of_error hsame]
        rfl
      · rw [follow_of_error h, follow_of_error hsame, hcourse, List.append_nil, List.append_nil]
    | ok a m₁ =>
      rw [h] at hsame
      rw [endState_of_ok h] at hfits
      cases hf a m₁ h hfits with
      | whole hfits' hsame' hcourse' =>
        refine .whole ?_ ?_ ?_
        · rwa [endState_bind_of_ok h]
        · rw [bind_of_ok h, bind_of_ok hsame]
          exact hsame'
        · rw [follow_of_ok h, follow_of_ok hsame, hcourse, hcourse', List.map_append]
      | broken before v span m₂ after m₃ hcut hbefore hover hline hcourse' hstop hout =>
        refine .broken (course m ++ before) v span m₂ after m₃ ?_ hbefore hover ?_ ?_ ?_ ?_
        · rw [follow_of_ok h, hcut, List.append_assoc]
        · rwa [endState_bind_of_ok h]
        · rw [follow_of_ok hsame, hcourse, hcourse', List.append_assoc, ← List.map_append]
        · rw [bind_of_ok hsame]
          exact hstop
        · rw [endState_bind_of_ok h]
          exact hout
  | broken before v span m₁ after m₂ hcut hbefore hover hline hcourse hstop hout =>
    have hmore : (endState x m).output.Grows (endState (x >>= f) m).output := by
      cases h : x m with
      | ok a m₁ =>
        rw [endState_of_ok h, endState_bind_of_ok h]
        exact (hgrows a).grows m₁
      | error stop m₁ =>
        rw [endState_of_error h, endState_bind_of_error h]
        exact .refl _
    have hfull : n < (endState x m).output.bytes.size := by
      obtain ⟨rest, hrest⟩ := hline
      rw [Output.bytes, ← hrest, linesBytes_append, ByteArray.size_append, linesBytes_concat]
      exact Nat.lt_of_lt_of_le hover (Nat.le_add_right _ _)
    refine .broken before v span m₁ (after ++ follow x m courseOf) m₂ ?_ hbefore hover
      (hline.trans hmore.keeps_lines) ?_ (bind_of_error hstop) ?_
    · rw [hcut, List.append_assoc]
      rfl
    · rw [follow_of_error hstop, hcourse, List.append_nil]
    · rw [hout, hmore.onSink_eq hfull]

/-- Carrying an action out in a setting. -/
theorem setting {s : Setting} (hx : Echoes n x course (s.enter m)) :
    Echoes n (s.run x) (fun m => course (s.enter m)) m := by
  have hend : (endState (s.run x) m).output = (endState x (s.enter m)).output :=
    congrArg Prod.snd (s.world_endState x m)
  cases hx with
  | whole hfits hsame hcourse =>
    refine .whole (by rwa [hend]) ?_ ?_
    · rw [← s.enter_onSink] at hsame
      cases h : x (s.enter m) with
      | ok a m₁ =>
        rw [h] at hsame
        rw [s.run_of_ok h, s.run_of_ok hsame, s.leave_onSink]
        rfl
      | error stop m₁ =>
        rw [h] at hsame
        rw [s.run_of_error h, s.run_of_error hsame, s.leave_onSink]
        rfl
    · rw [s.enter_onSink, hcourse]
  | broken before v span m₁ after m₂ hcut hbefore hover hline hcourse hstop hout =>
    rw [← s.enter_onSink] at hstop hcourse
    refine .broken before v span m₁ after (s.leave (m.onSink n) m₂) hcut hbefore hover
      (by rwa [hend]) hcourse (s.run_of_error hstop) ?_
    rw [hend, s.leave_output]
    exact hout

/-- One event more at the beginning. -/
theorem cons (hx : Echoes n x course m) (k : Nat) (t : Task) :
    Echoes n x (fun m => .begins k t m :: course m) m := by
  cases hx with
  | whole hfits hsame hcourse =>
    refine .whole hfits hsame ?_
    rw [hcourse]
    rfl
  | broken before v span m₁ after m₂ hcut hbefore hover hline hcourse hstop hout =>
    refine .broken (.begins k t m :: before) v span m₁ after m₂ ?_ hbefore hover hline ?_ hstop hout
    · rw [hcut]
      rfl
    · rw [hcourse]
      rfl

end Echoes

/-! ## Basic actions -/

/-- The action prints. -/
def Act.isPrint : Act → Bool
  | print .. => true
  | _ => false

/-- All basic actions but printing leave the output alone, and do the same whatever it is. -/
theorem Act.quiet {a : Act} (ha : a.isPrint = false) (n : Nat) (m : Machine) :
    (endState a.run m).output = m.output ∧ a.run (m.onSink n) = resultOnSink n (a.run m) := by
  cases a with
  | check span answer => cases answer <;> exact ⟨rfl, rfl⟩
  | lookUp name node =>
    have hfound : found? (m.onSink n) name node = found? m name node := rfl
    rw [Act.run, endState, lookUp_apply, lookUp_apply, hfound]
    cases found? m name node <;> exact ⟨rfl, rfl⟩
  | assign name node value =>
    have hassigned : assigned (m.onSink n) name node value = assigned m name node value := rfl
    rw [Act.run, endState, assign_apply, assign_apply, hassigned]
    cases (assigned m name node value).1 <;> simp [resultOnSink, Machine.onSink]
  | checkCall arity count paren =>
    rw [Act.run, endState, checkCall_apply, checkCall_apply]
    by_cases hcount : count = arity
    · by_cases hdepth : m.maxCallDepth ≤ m.callDepth <;>
        simp [hcount, hdepth, resultOnSink, Machine.onSink]
    · simp [hcount, resultOnSink]
  | print value span => cases ha
  | defineClass name methods =>
    rw [Act.run, endState, defineClass_apply, defineClass_apply]
    exact ⟨rfl, rfl⟩
  | spent t =>
    cases t with
    | instantiate callee arguments paren =>
      cases callee with
      | «class» c =>
        rw [Act.run, Task.run, endState, instantiate_class_apply, instantiate_class_apply]
        by_cases hcount : arguments.length = 0
        · by_cases hdepth : m.maxCallDepth ≤ m.callDepth <;>
            simp [hcount, hdepth, resultOnSink, Machine.onSink]
        · simp [hcount, resultOnSink]
      | _ => exact ⟨rfl, rfl⟩
    | property object name nameSpan =>
      cases object with
      | «instance» i =>
        have hstore : (m.onSink n).store = m.store := rfl
        rw [Act.run, Task.run, endState, property_instance_apply, property_instance_apply, hstore]
        cases (m.store.property i name).1 <;> simp [resultOnSink, Machine.onSink]
      | _ => exact ⟨rfl, rfl⟩
    | _ => exact ⟨rfl, rfl⟩
  | _ => exact ⟨rfl, rfl⟩

theorem Act.echoes {n : Nat} {m : Machine} (hcaptures : m.output.Captures)
    (hfits : m.output.bytes.size ≤ n) (a : Act) : Echoes n a.run (fun m => [.acts a m]) m := by
  cases ha : a.isPrint with
  | false =>
    obtain ⟨houtput, hsame⟩ := Act.quiet ha n m
    exact .whole (by rwa [houtput]) hsame rfl
  | true =>
    obtain ⟨v, span, rfl⟩ : ∃ v span, a = .print v span := by
      cases a with
      | print v span => exact ⟨v, span, rfl⟩
      | _ => cases ha
    have hrun : (Act.print v span).run m =
        .ok () { m with output := (m.output.print (m.store.display v)).2 } := by
      obtain ⟨lines, hlines⟩ := hcaptures
      show Run.print (m.store.display v) span m = _
      rw [print_apply, hlines]
      rfl
    have hsink : (Act.print v span).run (m.onSink n) =
        if (m.output.print (m.store.display v)).2.bytes.size ≤ n then
          .ok () ({ m with output := (m.output.print (m.store.display v)).2 }.onSink n)
        else .error (.error ⟨.outputFailed "sink full", span⟩)
          ({ m with output := (m.output.print (m.store.display v)).2 }.onSink n) := by
      show Run.print (m.store.display v) span (m.onSink n) = _
      rw [print_apply, Machine.onSink, Output.print_onSink hcaptures hfits]
      simp [Machine.onSink]
    by_cases hline : (m.output.print (m.store.display v)).2.bytes.size ≤ n
    · rw [if_pos hline] at hsink
      exact .whole (by rwa [endState_of_ok hrun]) (by rw [hrun, hsink]; rfl) rfl
    · rw [if_neg hline] at hsink
      refine .broken [] v span m [] _ rfl hfits ?_ ?_ rfl hsink ?_
      · rw [← Output.bytes_print hcaptures]
        exact Nat.lt_of_not_le hline
      · rw [endState_of_ok hrun]
        exact (Output.lines_print hcaptures _).symm ▸ List.prefix_rfl
      · rw [endState_of_ok hrun]
        rfl

/-! ## Plans and tasks -/

theorem Plan.echoes {n k : Nat} {α : Type}
    (htasks : ∀ (t : Task) (m : Machine), m.output.Captures → m.output.bytes.size ≤ n →
      Echoes n (t.run k) (fun m => t.course k m) m)
    (p : Plan α) (m : Machine) (hcaptures : m.output.Captures)
    (hfits : m.output.bytes.size ≤ n) :
    Echoes n (p.run k) (fun m => p.course k (fun t m => t.course k m) m) m := by
  induction p generalizing m with
  | answer a => exact .whole hfits rfl rfl
  | act a next ih =>
    refine (a.echoes hcaptures hfits).bind (fun b => (next b).onward (Task.onward k)) ?_
    intro b m₁ hact hfits'
    refine ih b m₁ ?_ hfits'
    have hgrows := a.onward.grows m
    rw [endState_of_ok hact] at hgrows
    exact hgrows.captures hcaptures
  | begin s t next ih =>
    have hfirst : Echoes n (t.run k) (fun m => t.course k m) (s.enter m) :=
      htasks t (s.enter m) (by simpa using hcaptures) (by simpa using hfits)
    refine hfirst.setting.bind (fun b => (next b).onward (Task.onward k)) ?_
    intro b m₁ hbegin hfits'
    refine ih b m₁ ?_ hfits'
    have htask : Onward (t.run k) := Task.onward k t
    have hgrows := (inferInstance : Onward (s.run (t.run k))).grows m
    rw [endState_of_ok hbegin] at hgrows
    exact hgrows.captures hcaptures

/-- Every task does the same on the sink, or breaks off there at a print. -/
theorem Task.echoes {n : Nat} (k : Nat) (t : Task) (m : Machine)
    (hcaptures : m.output.Captures) (hfits : m.output.bytes.size ≤ n) :
    Echoes n (t.run k) (fun m => t.course k m) m := by
  induction k generalizing t m with
  | zero => exact ((Act.spent t).echoes hcaptures hfits).cons 0 t
  | succ k ih =>
    rw [run_succ]
    exact (t.plan.echoes ih m hcaptures hfits).cons (k + 1) t

/-- How an ending of the statements of a program shows. -/
def Ending.ofResult : EStateM.Result Stop Machine Unit → Ending
  | .ok () _ => .finished
  | .error (.error e) _ => .failed e
  | .error .exhausted _ => .exhausted

theorem Ending.ofResult_onSink (n : Nat) (r : EStateM.Result Stop Machine Unit) :
    ofResult (resultOnSink n r) = ofResult r := by
  cases r with
  | ok u m => rfl
  | error stop m => cases stop <;> rfl

theorem output_of_resultOnSink {n : Nat} {α : Type} {x : Run α} {m m' : Machine}
    (h : x m' = resultOnSink n (x m)) :
    (endState x m').output = (endState x m).output.onSink n := by
  rw [endState, endState, h]
  cases x m <;> rfl

theorem runCompiled_eq (budget : Nat) (m : Machine) (c : Compiled) :
    Session.runCompiled budget m c =
      (.ofResult ((Plan.statements c.program.statements).run budget (m.learn c.locals)),
        endState ((Plan.statements c.program.statements).run budget) (m.learn c.locals)) := by
  rw [Plan.run_statements, Session.runCompiled, program_apply, endState]
  cases statements budget c.program.statements (m.learn c.locals) with
  | ok u m => rfl
  | error stop m => cases stop <;> rfl

theorem initial_limited (limit n : Nat) :
    Machine.initial limit (.limited n) = (Machine.initial limit .capturing).onSink n := by
  have hempty : Output.capturing.onSink n = .limited n := by
    rw [Output.onSink, ByteArray.extract_eq_self_of_size_le (Nat.zero_le n)]
    rfl
  rw [← hempty]
  rfl

/-- **A failing sink has exactly a prefix.**  A program is run twice: once all lines are kept,
and once they are printed to a sink that takes `n` bytes and then fails.  If the lines with
their line feeds have at most `n` bytes, both runs end in the same way and the sink has taken
these bytes.  Otherwise the run on the sink fails at the print statement that produces the
first line which does not fit; up to there its course is the same, and it ends with this
print; and the sink has taken the first `n` bytes. -/
theorem sink_takes_prefix (c : Compiled) (limit n budget : Nat) :
    let start := Machine.initial limit .capturing
    let kept := Session.runCompiled budget start c
    let sunk := Session.runCompiled budget (Machine.initial limit (.limited n)) c
    let printed := linesBytes kept.2.output.lines.toList
    (printed.size ≤ n → sunk.1 = kept.1 ∧ sunk.2.output = .sink (n - printed.size) printed) ∧
    (n < printed.size →
      ∃ before v span m after,
        c.course budget start = before ++ .acts (.print v span) m :: after ∧
        (∃ k e m₀, c.Begins budget start (k + 1) (.execute (.print e span)) m₀ ∧
          evaluate k e m₀ = .ok v m) ∧
        (linesBytes m.output.lines.toList).size ≤ n ∧
        n < (linesBytes (m.output.lines.toList ++ [m.store.display v])).size ∧
        m.output.lines.toList ++ [m.store.display v] <+: kept.2.output.lines.toList ∧
        sunk.1 = .failed ⟨.outputFailed "sink full", span⟩ ∧
        c.course budget (Machine.initial limit (.limited n)) =
          (before ++ [Event.acts (.print v span) m]).map (Event.onSink n) ∧
        sunk.2.output = .sink 0 (printed.extract 0 n)) := by
  intro start kept sunk printed
  let plan := Plan.statements c.program.statements
  let first := start.learn c.locals
  have hkept : kept = (.ofResult (plan.run budget first), endState (plan.run budget) first) :=
    runCompiled_eq budget start c
  have hsunk : sunk = (.ofResult (plan.run budget (first.onSink n)),
      endState (plan.run budget) (first.onSink n)) := by
    show Session.runCompiled budget _ c = _
    rw [initial_limited, runCompiled_eq]
    rfl
  have hprinted : printed = (endState (plan.run budget) first).output.bytes := by
    show linesBytes kept.2.output.lines.toList = _
    rw [hkept]
    rfl
  have hechoes := plan.echoes (Task.echoes budget) first ⟨#[], rfl⟩ (Nat.zero_le n)
  cases hechoes with
  | whole hfits hsame hcourse =>
    rw [← hprinted] at hfits
    refine ⟨fun _ => ⟨?_, ?_⟩, fun hover => absurd hfits (Nat.not_le_of_lt hover)⟩
    · rw [hsunk, hkept, hsame, Ending.ofResult_onSink]
    · rw [hsunk, output_of_resultOnSink hsame, Output.onSink, ← hprinted,
        ByteArray.extract_eq_self_of_size_le hfits]
  | broken before v span m after m₂ hcut hbefore hover hline hcourse hstop hout =>
    have hline' : linesBytes (m.output.lines.toList ++ [m.store.display v]) =
        m.output.bytes ++ lineBytes (m.store.display v) := linesBytes_concat _ _
    have hfull : n < printed.size := by
      obtain ⟨rest, hrest⟩ := hline
      rw [hprinted, Output.bytes, ← hrest, linesBytes_append, hline', ByteArray.size_append]
      exact Nat.lt_of_lt_of_le hover (Nat.le_add_right _ _)
    refine ⟨fun hfits => absurd hfits (Nat.not_le_of_lt hfull), fun _ => ?_⟩
    have hmem : .acts (.print v span) m ∈ c.course budget start := by
      rw [Compiled.course]
      exact hcut ▸ List.mem_append_cons_self
    refine ⟨before, v, span, m, after, hcut, ?_, hbefore, ?_, ?_, ?_, ?_, ?_⟩
    · rcases Compiled.acts_mem_course.1 hmem with ⟨k, t, m₀, hbegins, hdoes⟩ | ⟨_, _, h⟩
      · cases hdoes with
        | print hv => exact ⟨k, _, m₀, hbegins, hv⟩
      · cases h
    · rwa [hline']
    · rw [hkept]
      exact hline
    · rw [hsunk, hstop]
      rfl
    · rw [initial_limited]
      exact hcourse
    · rw [hsunk, endState_of_error hstop, hout, Output.onSink, ← hprinted,
        Nat.sub_eq_zero_of_le (Nat.le_of_lt hfull)]

end Lox
