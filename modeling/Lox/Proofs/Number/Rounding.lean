import Lox.Number.Shortest
import Mathlib.Tactic.Linarith
import Mathlib.Tactic.Ring

/-!
# Rounding to the nearest number

The magnitude `b * 2 ^ 52 + M` measures `M * 2 ^ b` units, for every mantissa `M` that the
binade `b` can have, and for the one that follows the last of them (`Binary64.units_eq`).  So the
numbers next to it are one step of the binade away, unless it is the first of its binade: then
the number below is half a step away.

**Reading back.** A decimal that lies in the rounding interval of a magnitude is rounded to this
magnitude (`Decimal.magnitude_of_readsBack`).
-/

namespace Lox

theorem twoPow_eq (n : Nat) : twoPow n = 2 ^ n := rfl

theorem tenPow_eq (n : Nat) : tenPow n = 10 ^ n := rfl

theorem twoPow_pos (n : Nat) : 0 < twoPow n := Nat.pow_pos (by decide)

theorem tenPow_pos (n : Nat) : 0 < tenPow n := Nat.pow_pos (by decide)

namespace Binary64

/-! ## Rounding to whole numbers -/

/-- A quotient is rounded to the whole number that is at most a half away, if this one is even
or less than a half away. -/
theorem roundHalfEven_eq {num den k : Nat} (hden : 0 < den)
    (hlow : 2 * k * den ≤ 2 * num + den) (hhigh : 2 * num ≤ (2 * k + 1) * den)
    (hodd : k % 2 = 1 → 2 * k * den < 2 * num + den ∧ 2 * num < (2 * k + 1) * den) :
    roundHalfEven num den = k := by
  have hsplit := Nat.div_add_mod num den
  have hmod := Nat.mod_lt num hden
  have hbelow := Nat.mul_div_le num den
  have hle : num / den ≤ k := by
    have hlt : den * (2 * (num / den)) < den * (2 * k + 2) := by nlinarith
    have := Nat.lt_of_mul_lt_mul_left hlt
    omega
  have hge : k ≤ num / den + 1 := by
    have hlt : den * (2 * k) < den * (2 * (num / den) + 3) := by nlinarith
    have := Nat.lt_of_mul_lt_mul_left hlt
    omega
  unfold roundHalfEven
  dsimp only
  generalize num / den = q at *
  generalize num % den = r at *
  rcases Nat.lt_or_ge q k with hlt | hge'
  · obtain rfl : k = q + 1 := by omega
    have hhalf : den ≤ 2 * r := by nlinarith
    rw [if_pos]
    rcases Nat.lt_or_ge den (2 * r) with hmore | hexact
    · exact .inl hmore
    · refine .inr ⟨by omega, ?_⟩
      by_contra heven
      have hstrict := (hodd (by omega)).1
      nlinarith
  · obtain rfl : k = q := by omega
    have hhalf : 2 * r ≤ den := by nlinarith
    rw [if_neg]
    rintro (hmore | ⟨hexact, hodd'⟩)
    · omega
    · have hstrict := (hodd hodd').2
      nlinarith

/-! ## Mantissas -/

/-- The mantissa can stand in the binade. -/
def IsMantissa (b M : Nat) : Prop := M < 2 ^ 53 ∧ (b = 0 ∨ 2 ^ 52 ≤ M)

/-- Every magnitude is made of a binade and a mantissa. -/
theorem exists_mantissa (m : Nat) : ∃ b M, IsMantissa b M ∧ m = b * 2 ^ 52 + M := by
  refine ⟨m / 2 ^ 52 - 1, m - (m / 2 ^ 52 - 1) * 2 ^ 52, ⟨?_, ?_⟩, ?_⟩ <;> omega

/-- What a magnitude measures; the mantissa may be one too many for the binade. -/
theorem units_eq {b M : Nat} (hM : M ≤ 2 ^ 53) (hb : b = 0 ∨ 2 ^ 52 ≤ M) :
    units (b * 2 ^ 52 + M) = M * 2 ^ b := by
  unfold units binade
  simp only [twoPow_eq]
  rcases Nat.lt_or_ge M (2 ^ 52) with hsmall | hlarge
  · obtain rfl : b = 0 := by omega
    have hdiv : (0 * 2 ^ 52 + M) / 2 ^ 52 - 1 = 0 := by omega
    rw [hdiv]
    omega
  · rcases Nat.lt_or_ge M (2 ^ 53) with hlt | hge
    · have hdiv : (b * 2 ^ 52 + M) / 2 ^ 52 - 1 = b := by omega
      rw [hdiv, Nat.add_sub_cancel_left]
    · obtain rfl : M = 2 ^ 53 := by omega
      have hdiv : (b * 2 ^ 52 + 2 ^ 53) / 2 ^ 52 - 1 = b + 1 := by omega
      have hrest : b * 2 ^ 52 + 2 ^ 53 - (b + 1) * 2 ^ 52 = 2 ^ 52 := by omega
      rw [hdiv, hrest, Nat.pow_succ']
      ring

/-- The doublings that make a whole number have 53 binary digits, if it has that many. -/
theorem doublings_eq {q b : Nat} (hlow : b = 0 ∨ 2 ^ (52 + b) ≤ q) (hhigh : q < 2 ^ (53 + b)) :
    q.log2 - 52 = b := by
  rcases Nat.eq_zero_or_pos q with rfl | hpos
  · rcases hlow with rfl | hlow
    · rfl
    · exact absurd (Nat.pow_pos (by decide)) (Nat.not_lt.2 hlow)
  · have hlt : q.log2 < 53 + b := (Nat.log2_lt (Nat.ne_of_gt hpos)).2 hhigh
    rcases hlow with rfl | hlow
    · omega
    · have hle : 52 + b ≤ q.log2 := (Nat.le_log2 (Nat.ne_of_gt hpos)).2 hlow
      omega

/-! ## The nearest magnitude -/

/-- If the number of units has the binade, only the mantissa is rounded. -/
theorem nearest_eq_of_binade {num den b k : Nat} (hden : 0 < den)
    (hlow : b = 0 ∨ 2 ^ 52 * (den * 2 ^ b) ≤ num * 2 ^ places)
    (hhigh : num * 2 ^ places < 2 ^ 53 * (den * 2 ^ b))
    (hround : roundHalfEven (num * 2 ^ places) (den * 2 ^ b) = k)
    (hfinite : b * 2 ^ 52 + k < infinity) : nearest num den = b * 2 ^ 52 + k := by
  have hdoublings : (num * 2 ^ places / den).log2 - 52 = b := by
    refine doublings_eq (hlow.imp_right fun hle => ?_) ?_
    · rw [Nat.le_div_iff_mul_le hden, Nat.pow_add]
      nlinarith
    · rw [Nat.div_lt_iff_lt_mul hden, Nat.pow_add]
      nlinarith
  unfold nearest
  simp only [twoPow_eq]
  rw [hdoublings, hround]
  omega

/-- What is at most half a step of the binade away is rounded to the mantissa, if this one is
even or less than half a step away. -/
theorem nearest_eq_inside {num den b M : Nat} (hden : 0 < den) (hb : b = 0 ∨ 2 ^ 52 ≤ M)
    (hM : M + 1 < 2 ^ 53) (hfinite : b * 2 ^ 52 + (M + 1) < infinity)
    (hlow : (2 * M + 1) * (den * 2 ^ b) ≤ 2 * (num * 2 ^ places))
    (hhigh : 2 * (num * 2 ^ places) ≤ (2 * (M + 1) + 1) * (den * 2 ^ b))
    (hodd : (M + 1) % 2 = 1 → (2 * M + 1) * (den * 2 ^ b) < 2 * (num * 2 ^ places) ∧
      2 * (num * 2 ^ places) < (2 * (M + 1) + 1) * (den * 2 ^ b)) :
    nearest num den = b * 2 ^ 52 + (M + 1) := by
  have hD : 0 < den * 2 ^ b := Nat.mul_pos hden (Nat.pow_pos (by decide))
  refine nearest_eq_of_binade hden (hb.imp_right fun hle => ?_) ?_ ?_ hfinite
  · have := Nat.mul_le_mul_right (den * 2 ^ b) hle
    nlinarith
  · have := Nat.mul_le_mul_right (den * 2 ^ b) (Nat.le_of_lt_succ hM)
    nlinarith
  · refine roundHalfEven_eq hD ?_ hhigh fun h => ⟨?_, (hodd h).2⟩
    · nlinarith
    · have := (hodd h).1
      nlinarith

/-- What is at most half a step above the first number of a binade, or at most a quarter of
such a step below, is rounded to this number. -/
theorem nearest_eq_first {num den b : Nat} (hden : 0 < den)
    (hfinite : b * 2 ^ 52 + 2 ^ 53 < infinity)
    (hlow : 2 ^ 54 * (den * 2 ^ b) ≤ 2 * (num * 2 ^ places) + den * 2 ^ b)
    (hhigh : 2 * (num * 2 ^ places) ≤ (2 ^ 54 + 2) * (den * 2 ^ b)) :
    nearest num den = b * 2 ^ 52 + 2 ^ 53 := by
  have hdouble : den * 2 ^ (b + 1) = 2 * (den * 2 ^ b) := by ring
  have hD : 0 < den * 2 ^ b := Nat.mul_pos hden (Nat.pow_pos (by decide))
  rcases Nat.lt_or_ge (num * 2 ^ places) (2 ^ 53 * (den * 2 ^ b)) with hbelow | habove
  · exact nearest_eq_of_binade hden (.inr (by omega)) hbelow
      (roundHalfEven_eq hD (by omega) (by omega) (by omega)) hfinite
  · have hsame : b * 2 ^ 52 + 2 ^ 53 = (b + 1) * 2 ^ 52 + 2 ^ 52 := by omega
    rw [hsame] at hfinite ⊢
    refine nearest_eq_of_binade hden (.inr ?_) ?_ ?_ hfinite <;> rw [hdouble]
    · omega
    · omega
    · exact roundHalfEven_eq (by omega) (by omega) (by omega) (by omega)

end Binary64

namespace Decimal

/-- What it means that a decimal lies in a rounding interval. -/
theorem readsBack_iff {d : Decimal} {m : Nat} :
    d.readsBack m = true ↔
      let scaled := d.num * 2 ^ Binary64.places
      let low := (Binary64.units (m - 1) + Binary64.units m) * d.den
      let high := (Binary64.units m + Binary64.units (m + 1)) * d.den
      low ≤ 2 * scaled ∧ 2 * scaled ≤ high ∧
        (m % 2 = 1 → low < 2 * scaled ∧ 2 * scaled < high) := by
  have htwice : d.num * twoPow (Binary64.places + 1) = 2 * (d.num * 2 ^ Binary64.places) := by
    rw [twoPow_eq, Nat.pow_succ]
    ring
  unfold readsBack Interval.contains Interval.around
  dsimp only
  rw [htwice]
  by_cases heven : m % 2 = 0
  · simp [heven]
  · have hodd : m % 2 = 1 := by omega
    simp only [hodd, Nat.one_ne_zero, decide_false, Bool.false_eq_true, if_false, Bool.and_eq_true,
      decide_eq_true_eq, true_implies]
    omega

theorem den_pos (d : Decimal) : 0 < d.den := tenPow_pos _

open Binary64

/-- A decimal in the rounding interval of a finite magnitude above zero is rounded to this
magnitude. -/
theorem magnitude_of_readsBack {d : Decimal} {m : Nat} (hpos : 0 < m) (hfinite : m < infinity)
    (h : d.readsBack m = true) : d.magnitude = m := by
  obtain ⟨hlow, hhigh, hodd⟩ := readsBack_iff.1 h
  obtain ⟨b, M, ⟨hM, hb⟩, rfl⟩ := exists_mantissa m
  have hden := d.den_pos
  have hthis : units (b * 2 ^ 52 + M) = M * 2 ^ b := units_eq (Nat.le_of_lt hM) hb
  have hnext : units (b * 2 ^ 52 + M + 1) = (M + 1) * 2 ^ b := by
    rw [Nat.add_assoc]
    exact units_eq hM (hb.imp_right fun h => Nat.le_succ_of_le h)
  have hparity : (b * 2 ^ 52 + M) % 2 = M % 2 := by omega
  rw [hparity] at hodd
  rw [hthis, hnext] at hhigh hodd
  rw [hthis] at hlow
  unfold magnitude
  -- unless the magnitude is the first of its binade, the number below is one step away
  by_cases hfirst : b ≠ 0 ∧ M = 2 ^ 52
  · obtain ⟨hb', rfl⟩ := hfirst
    obtain ⟨b, rfl⟩ := Nat.exists_eq_succ_of_ne_zero hb'
    rw [Nat.succ_eq_add_one] at *
    have hsame : (b + 1) * 2 ^ 52 + 2 ^ 52 = b * 2 ^ 52 + 2 ^ 53 := by
      rw [Nat.succ_mul]
      omega
    have hprev : units ((b + 1) * 2 ^ 52 + 2 ^ 52 - 1) + 2 ^ b = 2 ^ 53 * 2 ^ b := by
      have hsplit : (b + 1) * 2 ^ 52 + 2 ^ 52 - 1 = b * 2 ^ 52 + (2 ^ 53 - 1) := by omega
      rw [hsplit, units_eq (by omega) (.inr (by omega)), ← Nat.succ_mul]
      norm_num
    rw [hsame] at hfinite ⊢
    refine nearest_eq_first hden hfinite ?_ ?_
    · calc
        2 ^ 54 * (d.den * 2 ^ b) = (2 ^ 53 * 2 ^ b + 2 ^ 52 * 2 ^ (b + 1)) * d.den := by ring
        _ = (units ((b + 1) * 2 ^ 52 + 2 ^ 52 - 1) + 2 ^ 52 * 2 ^ (b + 1)) * d.den +
            d.den * 2 ^ b := by
          rw [← hprev]
          ring
        _ ≤ 2 * (d.num * 2 ^ places) + d.den * 2 ^ b := Nat.add_le_add_right hlow _
    · calc
        2 * (d.num * 2 ^ places) ≤
            (2 ^ 52 * 2 ^ (b + 1) + (2 ^ 52 + 1) * 2 ^ (b + 1)) * d.den := hhigh
        _ = (2 ^ 54 + 2) * (d.den * 2 ^ b) := by ring
  · have hM0 : M ≠ 0 := by omega
    obtain ⟨M, rfl⟩ := Nat.exists_eq_succ_of_ne_zero hM0
    rw [Nat.succ_eq_add_one] at *
    have hb' : b = 0 ∨ 2 ^ 52 ≤ M := by omega
    have hprev : units (b * 2 ^ 52 + (M + 1) - 1) = M * 2 ^ b := by
      rw [← Nat.add_assoc, Nat.add_sub_cancel]
      exact units_eq (by omega) hb'
    have hlower : (M * 2 ^ b + (M + 1) * 2 ^ b) * d.den = (2 * M + 1) * (d.den * 2 ^ b) := by
      ring
    have hupper : ((M + 1) * 2 ^ b + (M + 1 + 1) * 2 ^ b) * d.den =
        (2 * (M + 1) + 1) * (d.den * 2 ^ b) := by ring
    rw [hprev, hlower] at hlow hodd
    rw [hupper] at hhigh hodd
    exact nearest_eq_inside hden hb' hM hfinite hlow hhigh hodd

end Decimal

end Lox
