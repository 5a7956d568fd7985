import Lox.Operators

/-!
# Related values

Two runs may hold different functions where they otherwise hold the same values.  Such
values behave alike: no operator looks into a function, and equality of functions asks
only whether they are the same.
-/

namespace Lox

theorem rel_imp {α β : Type} {p q : α → β → Prop} {a : Option α} {b : Option β}
    (h : Option.Rel p a b) (hpq : ∀ a b, p a b → q a b) : Option.Rel q a b := by
  cases h with
  | some h => exact .some (hpq _ _ h)
  | none => exact .none

/-- The values are related functions, or the same. -/
inductive Value.Lift (related : Closure → Closure → Prop) : Value → Value → Prop
  | function {f f'} : related f f' → Value.Lift related (.function f) (.function f')
  | same {value} : (∀ f, value ≠ .function f) → Value.Lift related value value

theorem onNumbers_map_ne_function {α : Type} {op : Float → Float → α} {g : α → Value}
    {a b value : Value} (hg : ∀ x f, g x ≠ .function f)
    (h : (onNumbers op a b).map g = .ok value) (f : Closure) : value ≠ .function f := by
  unfold onNumbers at h
  split at h
  · cases h
    exact hg _ f
  · cases h

theorem UnaryOp.apply_ne_function {op : UnaryOp} {a value : Value}
    (h : op.apply a = .ok value) (f : Closure) : value ≠ .function f := by
  unfold UnaryOp.apply at h
  split at h <;> cases h <;> simp

/-- Operators answer no functions. -/
theorem BinaryOp.apply_ne_function {op : BinaryOp} {a b value : Value}
    (h : op.apply a b = .ok value) (f : Closure) : value ≠ .function f := by
  cases op with
  | add =>
    rw [BinaryOp.apply] at h
    unfold addValues at h
    split at h <;> cases h <;> simp
  | divide =>
    rw [BinaryOp.apply] at h
    unfold divideValues at h
    split at h
    · split at h <;> cases h
      simp
    · cases h
  | equal | notEqual => cases h; simp
  | subtract | multiply | less | lessEqual | greater | greaterEqual =>
    exact onNumbers_map_ne_function (by simp) h f

namespace Value.Lift

variable {related : Closure → Closure → Prop} {a a' b b' : Value}

theorem nil : Value.Lift related .nil .nil := .same (by simp)

theorem «class» (c : ClassId) : Value.Lift related (.class c) (.class c) := .same (by simp)

theorem «instance» (i : InstanceId) : Value.Lift related (.instance i) (.instance i) :=
  .same (by simp)

theorem ofConstant (c : Constant) : Value.Lift related (.ofConstant c) (.ofConstant c) :=
  .same fun f => by cases c <;> simp [Value.ofConstant]

theorem mono {related' : Closure → Closure → Prop} (h : Value.Lift related a a')
    (hrelated : ∀ f f', related f f' → related' f f') : Value.Lift related' a a' := by
  cases h with
  | function hf => exact .function (hrelated _ _ hf)
  | same ha => exact .same ha

theorem isTruthy_eq (h : Value.Lift related a a') : a'.isTruthy = a.isTruthy := by
  cases h <;> rfl

/-- Related values are equal if they were before. -/
theorem equal_eq (hsame : ∀ f f' g g', related f f' → related g g' → f'.same g' = f.same g)
    (ha : Value.Lift related a a') (hb : Value.Lift related b b') :
    a'.equal b' = a.equal b := by
  cases ha with
  | function hf =>
    cases hb with
    | function hg => exact hsame _ _ _ _ hf hg
    | same hb => cases b <;> first | rfl | exact absurd rfl (hb _)
  | same ha =>
    cases hb with
    | function hg => cases a <;> first | rfl | exact absurd rfl (ha _)
    | same _ => rfl

theorem isDecidedBy_eq (h : Value.Lift related a a') (op : LogicalOp) :
    op.isDecidedBy a' = op.isDecidedBy a := by
  cases op <;> simp [LogicalOp.isDecidedBy, h.isTruthy_eq]

theorem unary_eq (h : Value.Lift related a a') (op : UnaryOp) : op.apply a' = op.apply a := by
  cases h with
  | function hf => cases op <;> rfl
  | same _ => rfl

theorem onNumbers_eq {α : Type} (ha : Value.Lift related a a') (hb : Value.Lift related b b')
    (f : Float → Float → α) : onNumbers f a' b' = onNumbers f a b := by
  cases ha with
  | function _ => rfl
  | same _ =>
    cases hb with
    | function _ => cases a <;> rfl
    | same _ => rfl

theorem binary_eq (hsame : ∀ f f' g g', related f f' → related g g' → f'.same g' = f.same g)
    (ha : Value.Lift related a a') (hb : Value.Lift related b b') (op : BinaryOp) :
    op.apply a' b' = op.apply a b := by
  cases op with
  | add =>
    cases ha with
    | function _ => rfl
    | same _ =>
      cases hb with
      | function _ => cases a <;> rfl
      | same _ => rfl
  | divide =>
    cases ha with
    | function _ => rfl
    | same _ =>
      cases hb with
      | function _ => cases a <;> rfl
      | same _ => rfl
  | equal => simp only [BinaryOp.apply, ha.equal_eq hsame hb]
  | notEqual => simp only [BinaryOp.apply, ha.equal_eq hsame hb]
  | subtract | multiply | less | lessEqual | greater | greaterEqual =>
    simp only [BinaryOp.apply, ha.onNumbers_eq hb]

end Value.Lift

end Lox
