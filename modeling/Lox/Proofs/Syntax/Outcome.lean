import Lox.Proofs.Syntax.Cursor

/-!
# Outcomes of reading

`Sound x Q` says that, if an action answers and notes no error, then `Q` holds of the
tokens before it, the answer and the tokens after it.  An error that is noted is never
taken back, so that nothing need be known of an answer after one.

**Order of facts.** In a sequence, what is to be shown of the last action comes after
what is known of the actions before it, the latest of them first.
-/

namespace Lox

namespace Parse

variable {α β : Type}

/-- The next token is of the given kind. -/
def At (kind : Token.Kind) (ts : List Token) : Prop :=
  ∃ t us, ts = t :: us ∧ t.kind = kind

theorem At.cons_iff {kind : Token.Kind} {t : Token} {ts : List Token} :
    At kind (t :: ts) ↔ t.kind = kind := by
  simp [At]

theorem At.unique {kind kind' : Token.Kind} {ts : List Token} (h : At kind ts)
    (h' : At kind' ts) : kind = kind' := by
  obtain ⟨t, us, rfl, rfl⟩ := h
  exact At.cons_iff.1 h'

theorem At.not_append {kind : Token.Kind} {ts us : List Token} (hts : ¬ At kind ts)
    (hus : ¬ At kind us) : ¬ At kind (ts ++ us) := by
  cases ts with
  | nil => exact hus
  | cons t ts => exact fun hat => hts (At.cons_iff.2 (At.cons_iff.1 hat))

/-- The outcomes of an action that notes no error. -/
structure Sound (x : Parse α) (Q : List Token → α → List Token → Prop) : Prop where
  /-- The list stays ended, and errors stay noted. -/
  ends : ∀ p : Parser, p.Ended →
    (endState x p).Ended ∧ p.errors.size ≤ (endState x p).errors.size
  /-- An answer without a new error is one of the outcomes. -/
  answers : ∀ {p p' : Parser} {a : α}, x p = .ok a p' → p.Ended →
    p'.errors.size = p.errors.size → Q p.rest a p'.rest

namespace Sound

variable {x : Parse α} {Q : List Token → α → List Token → Prop}

theorem pure {a : α} (h : ∀ ts, Q ts a ts) : Sound (Pure.pure a) Q where
  ends p hended := ⟨hended, Nat.le_refl _⟩
  answers := by
    intro p p' b hx _ _
    cases hx
    exact h _

theorem answer (a : α) : Sound (Pure.pure a) fun ts b us => b = a ∧ us = ts :=
  pure fun _ => ⟨rfl, rfl⟩

/-- The outcomes of a sequence are those of its second action after those of its first. -/
theorem bind {f : α → Parse β} {R : List Token → β → List Token → Prop} (hx : Sound x Q)
    (hf : ∀ a, Sound (f a) fun ts₁ b us => ∀ ts, Q ts a ts₁ → R ts b us) :
    Sound (x >>= f) R where
  ends := by
    intro p hended
    have hfirst := hx.ends p hended
    cases h : x p with
    | ok a p₁ =>
      rw [endState_of_ok h] at hfirst
      have hsecond := (hf a).ends p₁ hfirst.1
      have hend : endState (x >>= f) p = endState (f a) p₁ := by
        rw [endState, endState, bind_of_ok h]
      rw [hend]
      exact ⟨hsecond.1, Nat.le_trans hfirst.2 hsecond.2⟩
    | error e p₁ =>
      rw [endState_of_error h] at hfirst
      rwa [endState_of_error (bind_of_error h)]
  answers := by
    intro p p' b h hended hsize
    obtain ⟨a, p₁, h₁, h₂⟩ := bind_eq_ok.1 h
    have hfirst := hx.ends p hended
    rw [endState_of_ok h₁] at hfirst
    have hsecond := (hf a).ends p₁ hfirst.1
    rw [endState_of_ok h₂] at hsecond
    have hsize₁ : p₁.errors.size = p.errors.size := by omega
    have hsize₂ : p'.errors.size = p₁.errors.size := by omega
    exact (hf a).answers h₂ hfirst.1 hsize₂ _ (hx.answers h₁ hended hsize₁)

theorem weaken {R : List Token → α → List Token → Prop} (hx : Sound x Q)
    (h : ∀ ts a us, Q ts a us → R ts a us) : Sound x R where
  ends := hx.ends
  answers := fun hrun hended hsize => h _ _ _ (hx.answers hrun hended hsize)

/-- An action that neither moves nor notes an error. -/
theorem still (hstate : ∀ p, (endState x p).rest = p.rest ∧ (endState x p).errors = p.errors)
    (hanswer : ∀ p p' a, x p = .ok a p' → Q p.rest a p.rest) : Sound x Q where
  ends := by
    intro p hended
    obtain ⟨hrest, herrors⟩ := hstate p
    rw [herrors]
    refine ⟨?_, Nat.le_refl _⟩
    rwa [Parser.Ended, hrest]
  answers := by
    intro p p' a h _ _
    have hrest := (hstate p).1
    rw [endState_of_ok h] at hrest
    rw [hrest]
    exact hanswer p p' a h

theorem fail (fault : SyntaxFault) : Sound (Parse.fail fault : Parse α) Q :=
  still (fun _ => ⟨rfl, rfl⟩) fun p p' a h => by cases h

theorem get : Sound get fun ts p us => ts = p.rest ∧ us = ts :=
  still (fun _ => ⟨rfl, rfl⟩) fun p p' a h => by cases h; exact ⟨rfl, rfl⟩

theorem peek : Sound peek fun ts kind us => At kind ts ∧ us = ts :=
  still (fun _ => ⟨rfl, rfl⟩) fun p p' a h => by
    cases h
    exact ⟨⟨p.current, p.later, rfl, rfl⟩, rfl⟩

theorem here : Sound here fun ts _ us => us = ts :=
  still (fun _ => ⟨rfl, rfl⟩) fun _ _ _ _ => rfl

theorem before : Sound before fun ts _ us => us = ts :=
  still (fun _ => ⟨rfl, rfl⟩) fun _ _ _ _ => rfl

theorem spanFrom (span : Span) : Sound (Parse.spanFrom span) fun ts _ us => us = ts :=
  still (fun _ => ⟨rfl, rfl⟩) fun _ _ _ _ => rfl

theorem freshNode (span : Span) : Sound (Parse.freshNode span) fun ts _ us => us = ts :=
  still (fun _ => ⟨rfl, rfl⟩) fun _ _ _ _ => rfl

theorem freshFunction : Sound freshFunction fun ts _ us => us = ts :=
  still (fun _ => ⟨rfl, rfl⟩) fun _ _ _ _ => rfl

/-- After a noted error nothing is promised. -/
theorem note (error : CompileError) : Sound (Parse.note error) fun _ _ _ => False where
  ends p hended := by
    refine ⟨hended, ?_⟩
    simp [endState]
  answers := by
    intro p p' a h _ hsize
    cases h
    simp at hsize

theorem advance : Sound advance fun ts _ us =>
    ∀ kind, At kind ts → kind ≠ .eof → ∃ t, t.kind = kind ∧ ts = t :: us where
  ends p hended := by
    refine ⟨hended.advance, ?_⟩
    simp [endState]
  answers := by
    intro p p' a h hended _ kind hat hkind
    cases h
    have hcurrent : p.kind = kind := At.cons_iff.1 hat
    exact ⟨p.current, hcurrent, hended.rest_advance (hcurrent ▸ hkind)⟩

theorem accept {kind : Token.Kind} (hkind : kind ≠ .eof) :
    Sound (Parse.accept kind) fun ts accepted us =>
      if accepted then ∃ t, t.kind = kind ∧ ts = t :: us else ¬ At kind ts ∧ us = ts where
  ends p hended := by
    rw [endState, accept_apply]
    by_cases h : p.kind = kind
    · simp [h, hended.advance]
    · simp [h, hended]
  answers := by
    intro p p' a h hended _
    rw [accept_apply] at h
    split at h
    · next hp =>
      cases h
      exact ⟨p.current, hp, hended.rest_advance (hp ▸ hkind)⟩
    · next hp =>
      cases h
      exact ⟨fun hat => hp (At.cons_iff.1 hat), rfl⟩

theorem expect {kind : Token.Kind} (hkind : kind ≠ .eof) (missing : Missing) :
    Sound (Parse.expect kind missing) fun ts _ us => ∃ t, t.kind = kind ∧ ts = t :: us where
  ends p hended := by
    rw [endState, expect_apply]
    by_cases h : p.kind = kind
    · simp [h, hended.advance]
    · simp [h, hended]
  answers := by
    intro p p' a h hended _
    rw [expect_apply] at h
    split at h
    · next hp =>
      cases h
      exact ⟨p.current, hp, hended.rest_advance (hp ▸ hkind)⟩
    · cases h

theorem expectName (missing : Missing) :
    Sound (Parse.expectName missing) fun ts name us =>
      ∃ t, t.kind = .identifier ∧ t.lexeme = name ∧ ts = t :: us where
  ends p hended := by
    rw [endState, expectName_apply]
    by_cases h : p.kind = .identifier
    · simp [h, hended.advance]
    · simp [h, hended]
  answers := by
    intro p p' a h hended _
    rw [expectName_apply] at h
    split at h
    · next hp =>
      cases h
      exact ⟨p.current, hp, rfl, hended.rest_advance (hp ▸ by decide)⟩
    · cases h

/-- A rule that is called once the kind of the next token is known. -/
theorem of_at {kind : Token.Kind} (hx : Sound x fun ts a us => At kind ts → Q ts a us) :
    Sound x fun ts₁ a us => ∀ ts, At kind ts ∧ ts₁ = ts → Q ts a us := by
  refine hx.weaken ?_
  rintro ts a us h _ ⟨hat, rfl⟩
  exact h hat

/-- A rule that starts with a word reads it and goes on from the next token. -/
theorem word {kind : Token.Kind} (hkind : kind ≠ .eof) {f : Span → Parse α}
    (hf : ∀ start, Sound (f start) fun ts a us =>
      ∀ word : Token, word.kind = kind → Q (word :: ts) a us) :
    Sound (Parse.here >>= fun start => Parse.advance >>= fun _ => f start)
      fun ts a us => At kind ts → Q ts a us := by
  refine .bind .here fun start => .bind .advance fun _ => (hf start).weaken ?_
  rintro ts a us h _ hadvance _ rfl hat
  obtain ⟨word, hword, rfl⟩ := hadvance _ hat hkind
  exact h word hword

/-- Outcomes of an attempt: nothing is promised of one that fails. -/
theorem attempt (hx : Sound x Q) :
    Sound (Parse.attempt x) fun ts r us => ∀ a, r = .ok a → Q ts a us where
  ends p hended := by
    have hends := hx.ends p hended
    cases h : x p with
    | ok a p₁ =>
      rw [endState_of_ok h] at hends
      rwa [endState_of_ok (attempt_of_ok h)]
    | error e p₁ =>
      rw [endState_of_error h] at hends
      rwa [endState_of_ok (attempt_of_error h)]
  answers := by
    intro p p' r hr hended hsize a ha
    subst ha
    cases h : x p with
    | ok b p₁ =>
      rw [attempt_of_ok h] at hr
      cases hr
      exact hx.answers h hended hsize
    | error e p₁ =>
      rw [attempt_of_error h] at hr
      cases hr

theorem some (hx : Sound x Q) :
    Sound (Option.some <$> x) fun ts r us => ∃ a, r = Option.some a ∧ Q ts a us where
  ends p hended := by
    have hends := hx.ends p hended
    cases h : x p with
    | ok a p₁ =>
      rw [endState_of_ok h] at hends
      rwa [endState_of_ok (map_of_ok h)]
    | error e p₁ =>
      rw [endState_of_error h] at hends
      rwa [endState_of_error (map_of_error h)]
  answers := by
    intro p p' r hr hended hsize
    cases h : x p with
    | ok a p₁ =>
      rw [map_of_ok h] at hr
      cases hr
      exact ⟨a, rfl, hx.answers h hended hsize⟩
    | error e p₁ =>
      rw [map_of_error h] at hr
      cases hr

end Sound

end Parse

end Lox
