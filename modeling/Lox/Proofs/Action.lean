/-!
# Laws of actions

An action changes a state, and either answers or stops.  Reading a list of tokens and
running a program are both actions of this kind.

**Sequences.** An action in sequence with another answers if both answer in turn,
and stops where the first of them stops.
-/

namespace Lox

variable {ε σ α β : Type}

/-- The state in which an action ends, however it ends. -/
def endState (x : EStateM ε σ α) (s : σ) : σ :=
  match x s with
  | .ok _ s' => s'
  | .error _ s' => s'

theorem endState_of_ok {x : EStateM ε σ α} {s s' : σ} {a : α} (h : x s = .ok a s') :
    endState x s = s' := by
  simp [endState, h]

theorem endState_of_error {x : EStateM ε σ α} {s s' : σ} {e : ε} (h : x s = .error e s') :
    endState x s = s' := by
  simp [endState, h]

@[simp] theorem pure_apply (a : α) (s : σ) : (pure a : EStateM ε σ α) s = .ok a s := rfl

@[simp] theorem get_apply (s : σ) : (get : EStateM ε σ σ) s = .ok s s := rfl

theorem bind_of_ok {x : EStateM ε σ α} {f : α → EStateM ε σ β} {s s' : σ} {a : α}
    (h : x s = .ok a s') : (x >>= f) s = f a s' := by
  simp only [bind, EStateM.bind, h]

theorem bind_of_error {x : EStateM ε σ α} {f : α → EStateM ε σ β} {s s' : σ} {e : ε}
    (h : x s = .error e s') : (x >>= f) s = .error e s' := by
  simp only [bind, EStateM.bind, h]

theorem endState_bind_of_ok {x : EStateM ε σ α} {f : α → EStateM ε σ β} {s s' : σ} {a : α}
    (h : x s = .ok a s') : endState (x >>= f) s = endState (f a) s' := by
  simp only [endState, bind_of_ok h]

theorem endState_bind_of_error {x : EStateM ε σ α} {f : α → EStateM ε σ β} {s s' : σ} {e : ε}
    (h : x s = .error e s') : endState (x >>= f) s = s' :=
  endState_of_error (bind_of_error h)

theorem map_of_ok {x : EStateM ε σ α} {f : α → β} {s s' : σ} {a : α}
    (h : x s = .ok a s') : (f <$> x) s = .ok (f a) s' := by
  simp only [Functor.map, EStateM.map, h]

theorem map_of_error {x : EStateM ε σ α} {f : α → β} {s s' : σ} {e : ε}
    (h : x s = .error e s') : (f <$> x) s = .error e s' := by
  simp only [Functor.map, EStateM.map, h]

theorem map_of_eq {x y : EStateM ε σ α} {s s' : σ} (f : α → β) (h : x s = y s') :
    (f <$> x) s = (f <$> y) s' := by
  simp only [Functor.map, EStateM.map, h]

/-- A sequence answers exactly if both of its actions do. -/
theorem bind_eq_ok {x : EStateM ε σ α} {f : α → EStateM ε σ β} {s s' : σ} {b : β} :
    (x >>= f) s = .ok b s' ↔ ∃ a s₁, x s = .ok a s₁ ∧ f a s₁ = .ok b s' := by
  cases h : x s with
  | ok a s₁ => simp [bind_of_ok h, and_assoc]
  | error e s₁ => simp [bind_of_error h]

/-- A sequence stops where its first action stops, or else where its second does. -/
theorem bind_eq_error {x : EStateM ε σ α} {f : α → EStateM ε σ β} {s s' : σ} {e : ε} :
    (x >>= f) s = .error e s' ↔
      x s = .error e s' ∨ ∃ a s₁, x s = .ok a s₁ ∧ f a s₁ = .error e s' := by
  cases h : x s with
  | ok a s₁ => simp [bind_of_ok h, and_assoc]
  | error e' s₁ => simp [bind_of_error h]

end Lox
