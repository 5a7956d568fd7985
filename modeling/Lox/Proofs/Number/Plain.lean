import Lox.Number.Reading
import Lox.Number.Text
import Lox.Proofs.Number.Rounding
import Lox.Proofs.Token.Lexemes

/-!
# Plain decimals

A finite number is written as digits, or as digits on both sides of a point.  What is written is
a decimal that is rounded to the number (`NumberStyle.writes_layMagnitude`), so that different
numbers have different texts (`NumberStyle.plain_format_inj`).
-/

namespace Lox

/-! ## The shortest decimal reads back -/

namespace Binary64

/-- Greater magnitudes measure more. -/
theorem units_lt_succ (m : Nat) : units m < units (m + 1) := by
  obtain ⟨b, M, ⟨hM, hb⟩, rfl⟩ := exists_mantissa m
  rw [units_eq (Nat.le_of_lt hM) hb, Nat.add_assoc,
    units_eq hM (hb.imp_right fun h => Nat.le_succ_of_le h)]
  exact Nat.mul_lt_mul_of_pos_right (Nat.lt_succ_self M) (Nat.pow_pos (by decide))

theorem nearest_zero (den : Nat) : nearest 0 den = 0 := by
  simp [nearest, roundHalfEven]

/-- A number is its sign and its magnitude. -/
theorem eq_of_magnitude_eq {x y : Float} (hsign : isNegative x = isNegative y)
    (h : magnitude x = magnitude y) : x = y := by
  have hbits : bits x = bits y := by
    have hx : bits x < 2 ^ 64 := x.toBits.toNat_lt
    have hy : bits y < 2 ^ 64 := y.toBits.toNat_lt
    unfold isNegative at hsign
    rw [decide_eq_decide] at hsign
    rw [magnitude, magnitude] at h
    rw [twoPow_eq] at hsign h
    omega
  have htoBits : x.toModel.toBits = y.toModel.toBits := UInt64.toNat_inj.1 hbits
  obtain ⟨⟨_, _⟩⟩ := x
  obtain ⟨⟨_, _⟩⟩ := y
  cases htoBits
  rfl

end Binary64

namespace Decimal

/-- A decimal that is equal to a magnitude reads back to it. -/
theorem readsBack_of_units {d : Decimal} {m : Nat} (hpos : 0 < m)
    (h : d.num * 2 ^ Binary64.places = Binary64.units m * d.den) : d.readsBack m = true := by
  have hbelow : Binary64.units (m - 1) < Binary64.units m := by
    obtain ⟨m, rfl⟩ := Nat.exists_eq_succ_of_ne_zero (Nat.ne_of_gt hpos)
    exact Binary64.units_lt_succ m
  have habove := Binary64.units_lt_succ m
  have hden := d.den_pos
  rw [readsBack_iff]
  dsimp only
  rw [h]
  refine ⟨?_, ?_, fun _ => ⟨?_, ?_⟩⟩ <;> nlinarith

/-- The exact expansion of a magnitude reads back to it. -/
theorem readsBack_exact {m : Nat} (hpos : 0 < m) : (exact m).readsBack m = true := by
  refine readsBack_of_units hpos ?_
  unfold exact num den
  dsimp only
  generalize Binary64.places = p
  have hnum : (-(p : Int)).toNat = 0 := by omega
  have hden : (- -(p : Int)).toNat = p := by omega
  rw [hnum, hden, tenPow_zero, tenPow_eq, Nat.mul_one, Nat.mul_assoc]
  show Binary64.units m * (5 ^ p * 2 ^ p) = Binary64.units m * 10 ^ p
  rw [← Nat.mul_pow]

theorem contains_of_withDigits? {tie : Tie} {interval : Interval} {units : Nat} {leading : Int}
    {digits : Nat} {d : Decimal} (h : withDigits? tie interval units leading digits = some d) :
    interval.contains d = true := by
  unfold withDigits? at h
  dsimp only at h
  split at h
  · cases h
  · next hbelow _ =>
    cases h
    exact hbelow
  · next _ habove =>
    cases h
    exact habove
  · next hbelow habove =>
    split at h
    · cases h
      exact hbelow
    · split at h
      · cases h
        exact habove
      · split at h
        · cases h
          exact habove
        · split at h <;> cases h
          · exact hbelow
          · exact habove

/-- The shortest decimal of a magnitude above zero reads back to it. -/
theorem readsBack_shortest (tie : Tie) {m : Nat} (hpos : 0 < m) :
    (shortest tie m).readsBack m = true := by
  unfold shortest
  dsimp only
  cases hfound : (List.range 17).findSome? fun n =>
      withDigits? tie (Interval.around m) (Binary64.units m)
        (leadingExponent (Binary64.units m)) (n + 1) with
  | none => exact readsBack_exact hpos
  | some d =>
    obtain ⟨n, -, hd⟩ := List.exists_of_findSome?_eq_some hfound
    exact contains_of_withDigits? hd

/-! ## Digits around a point -/

/-- Digits before and after a point as text, without the point if no digits follow it. -/
def write (whole fraction : List Char) : List Char :=
  if fraction.isEmpty then whole else whole ++ '.' :: fraction

/-- The text is a plain decimal: digits before a point, of which there are some, and digits
after it. -/
structure Writes (text whole fraction : List Char) : Prop where
  /-- There is a digit before the point. -/
  ne_nil : whole ≠ []
  /-- Digits stand before the point. -/
  digits_whole : ∀ c ∈ whole, c.isDigit = true
  /-- Digits stand after it. -/
  digits_fraction : ∀ c ∈ fraction, c.isDigit = true
  /-- The text has no other characters. -/
  eq_write : text = write whole fraction

namespace Writes

variable {text whole fraction whole' fraction' : List Char}

/-- What stands before the point are the first digits of the text. -/
theorem takeWhile_eq (h : Writes text whole fraction) : text.takeWhile Char.isDigit = whole := by
  rw [h.eq_write, write]
  split
  · have hend : ∀ c ∈ ([] : List Char).head?, c.isDigit = false := by simp
    simpa using takeWhile_of_stop h.digits_whole hend
  · exact takeWhile_of_stop h.digits_whole (by simp)

theorem dropWhile_eq (h : Writes text whole fraction) :
    (text.dropWhile Char.isDigit).drop 1 = fraction := by
  rw [h.eq_write, write]
  split
  · next hnil =>
    have hend : ∀ c ∈ ([] : List Char).head?, c.isDigit = false := by simp
    have hnone := dropWhile_of_stop h.digits_whole hend
    rw [List.append_nil] at hnone
    rw [hnone, List.isEmpty_iff.1 hnil]
    rfl
  · rw [dropWhile_of_stop h.digits_whole (by simp)]
    rfl

/-- A text can be read in one way only. -/
theorem unique (h : Writes text whole fraction) (h' : Writes text whole' fraction') :
    whole = whole' ∧ fraction = fraction' :=
  ⟨h.takeWhile_eq.symm.trans h'.takeWhile_eq, h.dropWhile_eq.symm.trans h'.dropWhile_eq⟩

/-- The text has digits and a point only, and begins with a digit. -/
theorem mem (h : Writes text whole fraction) {c : Char} (hc : c ∈ text) :
    c.isDigit = true ∨ c = '.' := by
  rw [h.eq_write, write] at hc
  split at hc
  · exact .inl (h.digits_whole c hc)
  · rcases List.mem_append.1 hc with hc | hc
    · exact .inl (h.digits_whole c hc)
    · rcases List.mem_cons.1 hc with rfl | hc
      · exact .inr rfl
      · exact .inl (h.digits_fraction c hc)

theorem head (h : Writes text whole fraction) :
    ∃ d rest, text = d :: rest ∧ d.isDigit = true := by
  obtain ⟨d, whole, rfl⟩ := List.exists_cons_of_ne_nil h.ne_nil
  refine ⟨d, write whole fraction, ?_, h.digits_whole d (.head _)⟩
  rw [h.eq_write, write, write]
  split <;> rfl

end Writes

end Decimal

namespace NumberStyle

open Decimal

/-- Digits in place around the point are a plain decimal of the same value. -/
theorem writes_positional {digits : List Char} (hdigits : ∀ c ∈ digits, c.isDigit = true)
    (hne : digits ≠ []) (e : Int) :
    ∃ whole fraction, Writes (plain.layPositional digits e) whole fraction ∧
      let d : Decimal := ⟨Nat.ofDigitChars 10 digits 0, e⟩
      (ofDigits whole fraction).num = d.num ∧ (ofDigits whole fraction).den = d.den := by
  have hzeros (n : Nat) : ∀ c ∈ List.replicate n '0', c.isDigit = true := by
    intro c hc
    rw [List.eq_of_mem_replicate hc]
    rfl
  unfold layPositional
  split
  · next hwhole =>
    -- zeros follow the digits
    refine ⟨digits ++ List.replicate e.toNat '0', [], ⟨by simp [hne], fun c hc => ?_, nofun, ?_⟩,
      ?_, ?_⟩
    · exact (List.mem_append.1 hc).elim (hdigits c) (hzeros _ c)
    · simp [wholeEnd, plain, write]
    · simp only [ofDigits, num, List.append_nil, Nat.ofDigitChars_append,
        Nat.ofDigitChars_replicate_zero, tenPow_eq]
      simp [Nat.mul_comm]
    · have hexponent : (-e).toNat = 0 := by omega
      simp [ofDigits, den, hexponent]
  · next hfraction =>
    dsimp only
    split
    · next hlt =>
      -- the point is inside of the digits
      refine ⟨digits.take (digits.length - (-e).toNat), digits.drop (digits.length - (-e).toNat),
        ⟨?_, fun c hc => hdigits c (List.mem_of_mem_take hc),
          fun c hc => hdigits c (List.mem_of_mem_drop hc), ?_⟩, ?_⟩
      · simp [hne]
        omega
      · rw [write, if_neg]
        simp
        omega
      · have hsame : ofDigits (digits.take (digits.length - (-e).toNat))
            (digits.drop (digits.length - (-e).toNat)) = ⟨Nat.ofDigitChars 10 digits 0, e⟩ := by
          rw [ofDigits, List.take_append_drop, List.length_drop]
          congr 1
          omega
        rw [hsame]
        exact ⟨rfl, rfl⟩
    · next hge =>
      -- zeros stand between the point and the digits
      refine ⟨['0'], List.replicate ((-e).toNat - digits.length) '0' ++ digits,
        ⟨by simp, by simp, fun c hc => ?_, ?_⟩, ?_⟩
      · exact (List.mem_append.1 hc).elim (hzeros _ c) (hdigits c)
      · rw [write, if_neg (by simp [hne])]
        rfl
      · have hsame : ofDigits ['0'] (List.replicate ((-e).toNat - digits.length) '0' ++ digits) =
            ⟨Nat.ofDigitChars 10 digits 0, e⟩ := by
          rw [ofDigits, Nat.ofDigitChars_append, Nat.ofDigitChars_append,
            Nat.ofDigitChars_replicate_zero, List.length_append, List.length_replicate]
          have hzero : Nat.ofDigitChars 10 ['0'] 0 = 0 := rfl
          rw [hzero, Nat.mul_zero]
          congr 1
          omega
        rw [hsame]
        exact ⟨rfl, rfl⟩

/-- What is written for a magnitude is a decimal that is rounded to it. -/
theorem writes_layMagnitude {m : Nat} (hfinite : m < Binary64.infinity) :
    ∃ whole fraction, Writes (plain.layMagnitude m) whole fraction ∧
      (ofDigits whole fraction).magnitude = m := by
  unfold layMagnitude
  split
  · next hzero =>
    subst hzero
    refine ⟨['0'], [], ⟨by simp, by simp, nofun, rfl⟩, ?_⟩
    exact Binary64.nearest_zero _
  · next hne =>
    have hpos := Nat.pos_of_ne_zero hne
    have hdigits : ∀ c ∈ Nat.toDigits 10 (shortest .up m).significand, c.isDigit = true :=
      fun c => Nat.isDigit_of_mem_toDigits (by decide) (by decide)
    obtain ⟨whole, fraction, hwrites, hnum, hden⟩ :=
      writes_positional hdigits Nat.toDigits_ne_nil (shortest .up m).exponent
    rw [Nat.ofDigitChars_ten_toDigits] at hnum hden
    refine ⟨whole, fraction, hwrites, ?_⟩
    rw [magnitude, hnum, hden]
    exact magnitude_of_readsBack hpos hfinite (readsBack_shortest .up hpos)

/-- A finite number is written as a sign, if it has one, and a magnitude. -/
theorem toList_plain_format {x : Float} (hx : Binary64.magnitude x < Binary64.infinity) :
    (plain.format x).toList =
      (if Binary64.isNegative x then ['-'] else []) ++ plain.layMagnitude (Binary64.magnitude x) := by
  unfold format
  dsimp only
  rw [if_neg (Nat.not_lt.2 (Nat.le_of_lt hx)), if_neg (Nat.ne_of_lt hx), String.toList_ofList]
  split <;> rfl

/-- A finite number is written with digits, a point and a sign, and does not begin with the
point. -/
theorem plain_format_chars {x : Float} (hx : Binary64.magnitude x < Binary64.infinity) :
    (∀ c ∈ (plain.format x).toList, c.isDigit = true ∨ c = '.' ∨ c = '-') ∧
      ∃ c rest, (plain.format x).toList = c :: rest ∧ (c.isDigit = true ∨ c = '-') := by
  obtain ⟨whole, fraction, hwrites, -⟩ := writes_layMagnitude hx
  rw [toList_plain_format hx]
  constructor
  · intro c hc
    rcases List.mem_append.1 hc with hc | hc
    · split at hc
      · exact .inr (.inr (List.mem_singleton.1 hc))
      · cases hc
    · exact (hwrites.mem hc).imp_right .inl
  · split
    · exact ⟨'-', _, rfl, .inr rfl⟩
    · obtain ⟨d, rest, htext, hd⟩ := hwrites.head
      exact ⟨d, rest, htext, .inl hd⟩

/-- Different finite numbers have different texts. -/
theorem plain_format_inj {x y : Float} (hx : Binary64.magnitude x < Binary64.infinity)
    (hy : Binary64.magnitude y < Binary64.infinity) (h : plain.format x = plain.format y) :
    x = y := by
  obtain ⟨whole, fraction, hwrites, hvalue⟩ := writes_layMagnitude hx
  obtain ⟨whole', fraction', hwrites', hvalue'⟩ := writes_layMagnitude hy
  obtain ⟨d, rest, htext, hd⟩ := hwrites.head
  obtain ⟨d', rest', htext', hd'⟩ := hwrites'.head
  have hchars := congrArg String.toList h
  rw [toList_plain_format hx, toList_plain_format hy] at hchars
  have of_texts (hsign : Binary64.isNegative x = Binary64.isNegative y)
      (htexts : plain.layMagnitude (Binary64.magnitude x) =
        plain.layMagnitude (Binary64.magnitude y)) : x = y := by
    rw [htexts] at hwrites
    obtain ⟨rfl, rfl⟩ := hwrites.unique hwrites'
    exact Binary64.eq_of_magnitude_eq hsign (hvalue.symm.trans hvalue')
  cases hsign : Binary64.isNegative x <;> cases hsign' : Binary64.isNegative y <;>
    rw [hsign, hsign'] at hchars
  · exact of_texts (hsign.trans hsign'.symm) hchars
  · rw [htext] at hchars
    cases (List.cons.inj hchars).1
    cases hd
  · rw [htext'] at hchars
    cases (List.cons.inj hchars).1
    cases hd'
  · exact of_texts (hsign.trans hsign'.symm) (List.cons.inj hchars).2

end NumberStyle

end Lox
