import Lox.Proofs.Syntax.Outcome

/-!
# Answers of reading

`Answers blamed x p P us` says that an action answers: its answer has a property, and the
tokens `us` are left.  The errors that it notes are at the tokens `blamed`; if there are no
such tokens, it notes none.  There is a law for each basic action at the head of a
sequence.
-/

namespace Lox

namespace Parse

variable {α β : Type}

/-- Every error is at one of the tokens, and there is an error if there is a token. -/
structure Blames (tokens : List Token) (errors : List CompileError) : Prop where
  mem : ∀ e ∈ errors, ∃ fault, ∃ t ∈ tokens, e = .parse fault t
  ne_nil : tokens ≠ [] → errors ≠ []

namespace Blames

variable {ts us : List Token} {es es' : List CompileError}

theorem nil : Blames [] [] := ⟨by simp, by simp⟩

theorem eq_nil (h : Blames [] es) : es = [] := by
  refine List.eq_nil_iff_forall_not_mem.2 fun e he => ?_
  obtain ⟨fault, t, ht, -⟩ := h.mem e he
  cases ht

theorem append (h : Blames ts es) (h' : Blames us es') : Blames (ts ++ us) (es ++ es') where
  mem e he := by
    rcases List.mem_append.1 he with he | he
    · obtain ⟨fault, t, ht, rfl⟩ := h.mem e he
      exact ⟨fault, t, List.mem_append_left us ht, rfl⟩
    · obtain ⟨fault, t, ht, rfl⟩ := h'.mem e he
      exact ⟨fault, t, List.mem_append_right ts ht, rfl⟩
  ne_nil hne hnone := by
    obtain ⟨rfl, rfl⟩ := List.append_eq_nil_iff.1 hnone
    cases ts with
    | nil => exact h'.ne_nil hne rfl
    | cons t ts => exact h.ne_nil (List.cons_ne_nil t ts) rfl

end Blames

/-- The action answers, leaves the given tokens, and notes errors at those to be blamed. -/
def Answers (blamed : List Token) (x : Parse α) (p : Parser) (P : α → Prop)
    (us : List Token) : Prop :=
  ∃ a p' es, x p = .ok a p' ∧ P a ∧ p'.rest = us ∧
    p'.errors.toList = p.errors.toList ++ es ∧ Blames blamed es

namespace Answers

variable {p : Parser} {P : β → Prop} {us blamed : List Token}

theorem pure {a : β} (ha : P a) (hp : p.rest = us) : Answers [] (Pure.pure a) p P us :=
  ⟨a, p, [], rfl, ha, hp, by simp, .nil⟩

theorem bind {x : Parse α} {f : α → Parse β} {Q : α → Prop} {ts blamed' : List Token}
    (hx : Answers blamed x p Q ts)
    (hf : ∀ a p₁, Q a → p₁.rest = ts → Answers blamed' (f a) p₁ P us) :
    Answers (blamed ++ blamed') (x >>= f) p P us := by
  obtain ⟨a, p₁, es, hrun, ha, hrest, herrors, hes⟩ := hx
  obtain ⟨b, p₂, es', hrun', hb, hrest', herrors', hes'⟩ := hf a p₁ ha hrest
  refine ⟨b, p₂, es ++ es', ?_, hb, hrest', ?_, hes.append hes'⟩
  · rw [bind_of_ok hrun, hrun']
  · rw [herrors', herrors, List.append_assoc]

/-- What comes last notes no error. -/
theorem bind_last {x : Parse α} {f : α → Parse β} {Q : α → Prop} {ts : List Token}
    (hx : Answers blamed x p Q ts)
    (hf : ∀ a p₁, Q a → p₁.rest = ts → Answers [] (f a) p₁ P us) :
    Answers blamed (x >>= f) p P us := by
  have h := hx.bind hf
  rwa [List.append_nil] at h

theorem map {x : Parse α} {f : α → β} {Q : α → Prop} (hx : Answers blamed x p Q us)
    (hf : ∀ a, Q a → P (f a)) : Answers blamed (f <$> x) p P us := by
  obtain ⟨a, p₁, es, hrun, ha, hrest, herrors⟩ := hx
  exact ⟨f a, p₁, es, map_of_ok hrun, hf a ha, hrest, herrors⟩

theorem mono {x : Parse β} {Q : β → Prop} (hx : Answers blamed x p Q us)
    (h : ∀ b, Q b → P b) : Answers blamed x p P us := by
  obtain ⟨b, p₁, es, hrun, hb, hrest, herrors⟩ := hx
  exact ⟨b, p₁, es, hrun, h b hb, hrest, herrors⟩

/-- An action that notes errors and runs into another one. -/
theorem of_noted {x : Parse β} {p₁ : Parser} {y : Parse β} {es : List CompileError}
    {blamed' : List Token} (heq : x p = y p₁)
    (herrors : p₁.errors.toList = p.errors.toList ++ es) (hes : Blames blamed es)
    (hy : Answers blamed' y p₁ P us) : Answers (blamed ++ blamed') x p P us := by
  obtain ⟨b, p₂, es', hrun, hb, hrest, herrors', hes'⟩ := hy
  refine ⟨b, p₂, es ++ es', heq.trans hrun, hb, hrest, ?_, hes.append hes'⟩
  rw [herrors', herrors, List.append_assoc]

/-- An action that runs into another one answers like it. -/
theorem of_eq {x : Parse β} {p₁ : Parser} {y : Parse β} (heq : x p = y p₁)
    (herrors : p₁.errors = p.errors) (hy : Answers blamed y p₁ P us) :
    Answers blamed x p P us :=
  of_noted heq (by rw [herrors, List.append_nil]) .nil hy

theorem get_bind {f : Parser → Parse β} (h : Answers blamed (f p) p P us) :
    Answers blamed (get >>= f) p P us := of_eq rfl rfl h

theorem peek_bind {f : Token.Kind → Parse β} {t : Token} {ts : List Token}
    (hp : p.rest = t :: ts) (h : Answers blamed (f t.kind) p P us) :
    Answers blamed (peek >>= f) p P us := by
  rw [← Parser.kind_eq hp] at h
  exact of_eq rfl rfl h

theorem here_bind {f : Span → Parse β} (h : ∀ span, Answers blamed (f span) p P us) :
    Answers blamed (here >>= f) p P us := of_eq rfl rfl (h _)

theorem before_bind {f : Span → Parse β} (h : ∀ span, Answers blamed (f span) p P us) :
    Answers blamed (before >>= f) p P us := of_eq rfl rfl (h _)

theorem spanFrom_bind {start : Span} {f : Span → Parse β}
    (h : ∀ span, Answers blamed (f span) p P us) : Answers blamed (spanFrom start >>= f) p P us :=
  of_eq rfl rfl (h _)

theorem freshNode_bind {span : Span} {f : Node → Parse β}
    (h : ∀ node p₁, p₁.rest = p.rest → Answers blamed (f node) p₁ P us) :
    Answers blamed (freshNode span >>= f) p P us := of_eq rfl rfl (h _ _ rfl)

theorem freshFunction_bind {f : Nat → Parse β}
    (h : ∀ number p₁, p₁.rest = p.rest → Answers blamed (f number) p₁ P us) :
    Answers blamed (freshFunction >>= f) p P us := of_eq rfl rfl (h _ _ rfl)

theorem advance_bind {f : Unit → Parse β} {t : Token} {ts : List Token}
    (hp : p.rest = t :: ts) (hts : ts ≠ []) (hkind : t.kind ≠ .eof)
    (h : ∀ p₁, p₁.rest = ts → Answers blamed (f ()) p₁ P us) :
    Answers blamed (advance >>= f) p P us := by
  obtain ⟨next, ts, rfl⟩ := List.exists_cons_of_ne_nil hts
  exact of_eq (bind_of_ok (advance_apply p)) (Parser.errors_advance p)
    (h _ (Parser.rest_advance hp hkind))

theorem accept_bind {kind : Token.Kind} {f : Bool → Parse β} {t : Token}
    {ts : List Token} (hp : p.rest = t :: ts) (hts : ts ≠ []) (ht : t.kind = kind)
    (hkind : kind ≠ .eof) (h : ∀ p₁, p₁.rest = ts → Answers blamed (f true) p₁ P us) :
    Answers blamed (accept kind >>= f) p P us := by
  obtain ⟨next, ts, rfl⟩ := List.exists_cons_of_ne_nil hts
  have hrest := Parser.rest_advance hp (ht ▸ hkind)
  have haccept : accept kind p = .ok true p.advance := by
    rw [accept_apply, if_pos ((Parser.kind_eq hp).trans ht)]
  exact of_eq (bind_of_ok haccept) (Parser.errors_advance p) (h _ hrest)

theorem refuse_bind {kind : Token.Kind} {f : Bool → Parse β} {ts : List Token}
    (hp : p.rest = ts) (hts : ¬ At kind ts) (h : Answers blamed (f false) p P us) :
    Answers blamed (accept kind >>= f) p P us := by
  have haccept : accept kind p = .ok false p := by
    rw [accept_apply, if_neg]
    intro hkind
    exact hts (hp ▸ At.cons_iff.2 hkind)
  exact of_eq (bind_of_ok haccept) rfl h

theorem expect_bind {kind : Token.Kind} {missing : Missing} {f : Unit → Parse β}
    {t : Token} {ts : List Token} (hp : p.rest = t :: ts) (hts : ts ≠ [])
    (ht : t.kind = kind) (hkind : kind ≠ .eof)
    (h : ∀ p₁, p₁.rest = ts → Answers blamed (f ()) p₁ P us) :
    Answers blamed (expect kind missing >>= f) p P us := by
  obtain ⟨next, ts, rfl⟩ := List.exists_cons_of_ne_nil hts
  have hrest := Parser.rest_advance hp (ht ▸ hkind)
  have hexpect : expect kind missing p = .ok () p.advance := by
    rw [expect_apply, if_pos ((Parser.kind_eq hp).trans ht)]
  exact of_eq (bind_of_ok hexpect) (Parser.errors_advance p) (h _ hrest)

theorem expectName_bind {missing : Missing} {f : String → Parse β} {t : Token}
    {ts : List Token} (hp : p.rest = t :: ts) (hts : ts ≠ []) (ht : t.kind = .identifier)
    (h : ∀ p₁, p₁.rest = ts → Answers blamed (f t.lexeme) p₁ P us) :
    Answers blamed (expectName missing >>= f) p P us := by
  obtain ⟨next, ts, rfl⟩ := List.exists_cons_of_ne_nil hts
  have hrest := Parser.rest_advance hp (ht ▸ by decide)
  have hexpect : expectName missing p = .ok t.lexeme p.advance := by
    rw [expectName_apply, if_pos ((Parser.kind_eq hp).trans ht), Parser.current_eq hp]
  exact of_eq (bind_of_ok hexpect) (Parser.errors_advance p) (h _ hrest)

/-! ### Actions by themselves -/

theorem of_bind_pure {x : Parse β} (h : Answers blamed (x >>= Pure.pure) p P us) :
    Answers blamed x p P us := by
  rwa [bind_pure] at h

theorem advance {t : Token} (hp : p.rest = t :: us) (hus : us ≠ []) (hkind : t.kind ≠ .eof) :
    Answers [] Parse.advance p (fun _ => True) us :=
  .of_bind_pure (.advance_bind hp hus hkind fun _ hp₁ => .pure trivial hp₁)

theorem expectName {missing : Missing} {t : Token} (hp : p.rest = t :: us) (hus : us ≠ [])
    (ht : t.kind = .identifier) : Answers [] (Parse.expectName missing) p (fun _ => True) us :=
  .of_bind_pure (.expectName_bind hp hus ht fun _ hp₁ => .pure trivial hp₁)

theorem accept {kind : Token.Kind} {t : Token} (hp : p.rest = t :: us) (hus : us ≠ [])
    (ht : t.kind = kind) (hkind : kind ≠ .eof) : Answers [] (Parse.accept kind) p (· = true) us :=
  .of_bind_pure (.accept_bind hp hus ht hkind fun _ hp₁ => .pure rfl hp₁)

theorem refuse {kind : Token.Kind} (hp : p.rest = us) (hus : ¬ At kind us) :
    Answers [] (Parse.accept kind) p (· = false) us :=
  .of_bind_pure (.refuse_bind hp hus (.pure rfl hp))

end Answers

theorem Answers.attempt {x : Parse α} {p : Parser} {P : α → Prop} {us blamed : List Token}
    (h : Answers blamed x p P us) :
    Answers blamed (Parse.attempt x) p (fun r => ∃ a, r = .ok a ∧ P a) us := by
  obtain ⟨a, p', es, hrun, ha, hrest, herrors⟩ := h
  exact ⟨.ok a, p', es, attempt_of_ok hrun, ⟨a, rfl, ha⟩, hrest, herrors⟩

end Parse

end Lox
