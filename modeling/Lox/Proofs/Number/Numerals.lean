import Lox.Proofs.Number.Plain
import Lox.Proofs.Syntax.Cursor
import Lox.Proofs.Token.Joining
import Lox.Store
import Mathlib

/-!
# Printed numbers are numerals

A numeral is a number token: digits, with or without a point and more digits.  The number it
stands for is the one nearest to its decimal, on each of the three ways of reading: with a
fraction, exact as a whole number below two to the power 63, and rounded beyond that
(`Decimal.constant?_numeral`).

**Reading back.** A finite number that is not negative is displayed as the text of a numeral,
and this numeral is read as the number again (`display_number_readable`).
-/

namespace Lox

namespace Binary64

/-- A number without sign is the number of its magnitude. -/
theorem toFloat_magnitude {x : Float} (hx : isNegative x = false) : toFloat (magnitude x) = x := by
  have hlt : bits x < 2 ^ 63 := by
    unfold isNegative at hx
    rw [twoPow_eq, decide_eq_false_iff_not] at hx
    exact Nat.lt_of_not_le hx
  have hmagnitude : magnitude x = bits x := Nat.mod_eq_of_lt hlt
  rw [hmagnitude, toFloat, bits, UInt64.ofNat_toNat, Float.ofBits_toBits]

/-! ## Numbers out of range -/

/-- A quotient of at most half a unit is rounded to zero. -/
theorem nearest_eq_zero {num den : Nat} (hden : 0 < den) (h : num * 2 ^ (places + 1) ≤ den) :
    nearest num den = 0 := by
  have hhalf : num * 2 ^ (places + 1) = 2 * (num * 2 ^ places) := by ring
  rw [hhalf] at h
  have hround : roundHalfEven (num * 2 ^ places) (den * 2 ^ 0) = 0 :=
    roundHalfEven_eq (by omega) (by omega) (by omega) (by omega)
  exact nearest_eq_of_binade hden (.inl rfl) (by omega) hround (by decide)

/-- What has as many doublings as infinity is rounded to it. -/
theorem nearest_eq_infinity {num den n : Nat} (hden : 0 < den) (hn : 2099 ≤ n + places)
    (h : 2 ^ n * den ≤ num) : nearest num den = infinity := by
  have hquotient : 2 ^ (n + places) ≤ num * 2 ^ places / den := by
    rw [Nat.le_div_iff_mul_le hden, Nat.pow_add]
    calc
      2 ^ n * 2 ^ places * den = 2 ^ n * den * 2 ^ places := Nat.mul_right_comm ..
      _ ≤ num * 2 ^ places := Nat.mul_le_mul_right _ h
  have hne : num * 2 ^ places / den ≠ 0 :=
    Nat.ne_of_gt (Nat.lt_of_lt_of_le (Nat.pow_pos (by decide)) hquotient)
  have hlog : n + places ≤ (num * 2 ^ places / den).log2 := (Nat.le_log2 hne).2 hquotient
  have hdoublings : infinity ≤ ((num * 2 ^ places / den).log2 - 52) * 2 ^ 52 := by
    have hinfinity : infinity = 2047 * 2 ^ 52 := rfl
    rw [hinfinity]
    exact Nat.mul_le_mul_right _ (by omega)
  unfold nearest
  simp only [twoPow_eq]
  exact Nat.min_eq_left (Nat.le_trans hdoublings (Nat.le_add_right _ _))

end Binary64

namespace Decimal

/-- With its first digit far behind the point, a decimal is small. -/
theorem num_mul_le {d : Decimal} {k : Nat}
    (h : (Nat.toDigits 10 d.significand).length + d.exponent ≤ -(k : Int)) :
    d.num * 10 ^ k ≤ d.den := by
  have hlt : d.significand < 10 ^ (Nat.toDigits 10 d.significand).length :=
    (Nat.length_toDigits_le_iff (by decide) Nat.length_toDigits_pos).1 (Nat.le_refl _)
  have hwhole : d.exponent.toNat = 0 := by omega
  unfold num den
  rw [hwhole, tenPow_zero, Nat.mul_one, tenPow_eq]
  calc
    d.significand * 10 ^ k ≤ 10 ^ (Nat.toDigits 10 d.significand).length * 10 ^ k :=
      Nat.mul_le_mul_right _ (Nat.le_of_lt hlt)
    _ = 10 ^ ((Nat.toDigits 10 d.significand).length + k) := (Nat.pow_add ..).symm
    _ ≤ 10 ^ (-d.exponent).toNat := Nat.pow_le_pow_right (by decide) (by omega)

/-- With its first digit far in front of the point, a decimal is large. -/
theorem mul_den_le {d : Decimal} {k : Nat} (hd : d.significand ≠ 0)
    (h : (k : Int) < (Nat.toDigits 10 d.significand).length + d.exponent) :
    10 ^ k * d.den ≤ d.num := by
  obtain ⟨n, hn⟩ := Nat.exists_eq_succ_of_ne_zero
    (Nat.ne_of_gt (Nat.length_toDigits_pos (b := 10) (n := d.significand)))
  have hle : 10 ^ n ≤ d.significand := by
    rcases Nat.eq_zero_or_pos n with rfl | hpos
    · exact Nat.pos_of_ne_zero hd
    · by_contra hlt
      have := (Nat.length_toDigits_le_iff (by decide) hpos).2 (Nat.lt_of_not_le hlt)
      omega
  rw [hn] at h
  unfold num den
  rw [tenPow_eq, tenPow_eq]
  calc
    10 ^ k * 10 ^ (-d.exponent).toNat = 10 ^ (k + (-d.exponent).toNat) := (Nat.pow_add ..).symm
    _ ≤ 10 ^ (n + d.exponent.toNat) := Nat.pow_le_pow_right (by decide) (by omega)
    _ = 10 ^ n * 10 ^ d.exponent.toNat := Nat.pow_add ..
    _ ≤ d.significand * 10 ^ d.exponent.toNat := Nat.mul_le_mul_right _ hle

theorem two_pow_le_ten_pow {n k : Nat} (h : n ≤ 3 * k) : 2 ^ n ≤ 10 ^ k :=
  calc
    2 ^ n ≤ 2 ^ (3 * k) := Nat.pow_le_pow_right (by decide) h
    _ = (2 ^ 3) ^ k := Nat.pow_mul ..
    _ ≤ 10 ^ k := Nat.pow_le_pow_left (by decide) k

/-- The short answers for exponents far outside of the range are those of the rounding. -/
theorem toFloat_eq (d : Decimal) : d.toFloat = Binary64.toFloat d.magnitude := by
  unfold toFloat magnitude
  dsimp only
  split
  · next hsmall =>
    rw [Bool.or_eq_true, decide_eq_true_eq, decide_eq_true_eq] at hsmall
    rcases hsmall with hzero | hsmall
    · rw [num, hzero, Nat.zero_mul, Binary64.nearest_zero]
    · have hle : d.num * 10 ^ 400 ≤ d.den := num_mul_le (by omega)
      have hpow : 2 ^ (Binary64.places + 1) ≤ 10 ^ 400 := two_pow_le_ten_pow (by decide)
      rw [Binary64.nearest_eq_zero d.den_pos (Nat.le_trans (Nat.mul_le_mul_left _ hpow) hle)]
  · next hsmall =>
    rw [Bool.or_eq_true, decide_eq_true_eq, decide_eq_true_eq, not_or] at hsmall
    split
    · next hlarge =>
      have hle : 10 ^ 400 * d.den ≤ d.num := mul_den_le hsmall.1 hlarge
      have hpow : 2 ^ 1025 ≤ 10 ^ 400 := two_pow_le_ten_pow (by decide)
      rw [Binary64.nearest_eq_infinity d.den_pos (by decide)
        (Nat.le_trans (Nat.mul_le_mul_right _ hpow) hle)]
    · rfl

/-! ## What is printed -/

/-- The digits of a magnitude that is a whole number stand for this magnitude. -/
theorem magnitude_of_wholeMagnitude? {m w : Nat} (hfinite : m < Binary64.infinity)
    (h : wholeMagnitude? m = some w) : (ofDigits (Nat.toDigits 10 w) []).magnitude = m := by
  unfold wholeMagnitude? at h
  dsimp only at h
  split at h
  · next hwhole =>
    rw [Bool.and_eq_true, decide_eq_true_eq] at hwhole
    obtain rfl := Option.some.inj h
    have hexact := Nat.div_mul_cancel (Nat.dvd_of_mod_eq_zero hwhole.1)
    generalize Binary64.units m / twoPow Binary64.places = w at *
    have hdigits : ofDigits (Nat.toDigits 10 w) [] = ⟨w, 0⟩ := by
      rw [ofDigits, List.append_nil, Nat.ofDigitChars_ten_toDigits]
      rfl
    rw [hdigits]
    have hnum : num ⟨w, 0⟩ = w := Nat.mul_one w
    have hden : den ⟨w, 0⟩ = 1 := rfl
    rcases Nat.eq_zero_or_pos m with rfl | hpos
    · have hunits : Binary64.units 0 = 0 := by simp [Binary64.units]
      rw [hunits] at hexact
      have hzero : w = 0 :=
        (Nat.mul_eq_zero.1 hexact).resolve_right (Nat.ne_of_gt (twoPow_pos _))
      rw [magnitude, hnum, hzero, Binary64.nearest_zero]
    · refine magnitude_of_readsBack hpos hfinite (readsBack_of_units hpos ?_)
      rw [hnum, hden, Nat.mul_one, ← twoPow_eq]
      exact hexact
  · cases h

end Decimal

open Decimal

/-- A finite number that is not negative is written as a plain decimal that is rounded to it. -/
theorem writes_showNumber {x : Float} (hfinite : Binary64.magnitude x < Binary64.infinity)
    (hsign : Binary64.isNegative x = false) :
    ∃ whole fraction, Writes (showNumber x).toList whole fraction ∧
      (ofDigits whole fraction).magnitude = Binary64.magnitude x := by
  unfold showNumber
  rw [if_pos hfinite, hsign]
  split
  · next w hw =>
    have hdigits : ∀ c ∈ Nat.toDigits 10 w, c.isDigit = true :=
      fun c => Nat.isDigit_of_mem_toDigits (by decide) (by decide)
    refine ⟨Nat.toDigits 10 w, [], ⟨Nat.toDigits_ne_nil, hdigits, nofun, ?_⟩,
      magnitude_of_wholeMagnitude? hfinite hw⟩
    exact String.toList_ofList
  · obtain ⟨whole, fraction, hwrites, hvalue⟩ := NumberStyle.writes_layMagnitude hfinite
    refine ⟨whole, fraction, ?_, hvalue⟩
    rw [NumberStyle.toList_plain_format hfinite, hsign]
    exact hwrites

/-! ## What is read -/

namespace Decimal

/-- Kind of a numeral. -/
def numeralKind (fraction : List Char) : Token.Kind :=
  if fraction.isEmpty then .number else .float

/-- Value of a numeral. -/
def numeralValue (whole fraction : List Char) : Literal :=
  if fraction.isEmpty then .ofWhole whole else .ofFraction whole fraction

/-- The parser takes the number nearest to the decimal, also where the value is exact. -/
theorem constant?_numeral (whole fraction : List Char) (lexeme : String) (span : Span) :
    Parse.constant? ⟨numeralKind fraction, lexeme, some (numeralValue whole fraction), span⟩ =
      some (.ok (.number (Binary64.toFloat (ofDigits whole fraction).magnitude))) := by
  unfold numeralKind numeralValue
  split
  · next hnil =>
    rw [List.isEmpty_iff.1 hnil]
    unfold Literal.ofWhole
    dsimp only
    split
    · have hnum : (ofDigits whole []).num = Nat.ofDigitChars 10 whole 0 := by
        simp [ofDigits, num, tenPow_zero]
      rw [magnitude, hnum]
      rfl
    · rw [toFloat_eq]
      rfl
  · rw [Literal.ofFraction, toFloat_eq]
    rfl

namespace Writes

variable {text whole fraction : List Char}

theorem lexeme (h : Writes text whole fraction) :
    Lexeme (numeralKind fraction) text (some (numeralValue whole fraction)) := by
  rw [h.eq_write, write, numeralKind, numeralValue]
  split
  · exact .whole h.ne_nil h.digits_whole
  · next hfraction =>
    exact .fraction h.ne_nil h.digits_whole (fun hnil => hfraction (List.isEmpty_iff.2 hnil))
      h.digits_fraction

/-- A plain decimal is one piece. -/
theorem splits (h : Writes text whole fraction) :
    Piece.Splits [.token (numeralKind fraction) text (some (numeralValue whole fraction))]
      text := by
  have hfits : Piece.Fits []
      (.token (numeralKind fraction) text (some (numeralValue whole fraction))) := by
    refine ⟨h.lexeme, fun _ other _ _ hother => ?_, fun hcomment => ?_⟩
    · rw [List.append_nil] at hother
      exact hother.length_le
    · obtain ⟨d, rest, rfl, hd⟩ := h.head
      obtain ⟨rfl, -⟩ := List.cons_prefix_cons.1 hcomment
      cases hd
  have hsplits := Piece.Splits.cons hfits .nil
  rwa [List.append_nil] at hsplits

/-- A plain decimal is scanned as one numeral. -/
theorem scan_eq {text : String} (h : Writes text.toList whole fraction) :
    scan text = .ok
      [⟨numeralKind fraction, text, some (numeralValue whole fraction),
        Span.ofText Position.start text.toList⟩,
       Token.endAt (Position.start.after text.toList)] := by
  have hfirst : ¬ ['#', '!'] <+: text.toList := by
    obtain ⟨d, rest, htext, hd⟩ := h.head
    rw [htext]
    intro hstarts
    obtain ⟨rfl, -⟩ := List.cons_prefix_cons.1 hstarts
    cases hd
  have hcut : (⟨[], [.token (numeralKind fraction) text.toList
      (some (numeralValue whole fraction))]⟩ : Cutting).IsOf text := by
    have htext := h.splits.textOf_eq
    exact ⟨htext.symm ▸ .none hfirst, htext.symm ▸ h.splits⟩
  refine hcut.scan_eq_ok.2 ⟨?_, ?_⟩
  · intro piece hpiece hbad
    rw [List.mem_singleton.1 hpiece] at hbad
    cases hbad
  · rw [← String.ofList_toList (s := text), String.toList_ofList]
    rfl

end Writes

end Decimal

namespace Parse

/-- The token of a constant is read as its literal. -/
theorem primary_of_constant? {p : Parser} {value : Constant}
    (h : constant? p.current = some (.ok value)) (n : Nat) :
    primary (n + 1) p = .ok (.literal ⟨p.supply.node, p.current.span⟩ value)
      { p.advance with supply.node := p.supply.node + 1 } := by
  rw [primary, bind_of_ok (get_apply p), h]
  dsimp only
  rw [bind_of_ok (advance_apply p), bind_of_ok (freshNode_apply _ _), p.supply_advance]
  rfl

end Parse

/-- A finite number that is not negative is displayed as digits, or as digits on both sides of a
point.  This text is scanned as one token, which the parser reads as the literal of the same
number. -/
theorem display_number_readable (s : Store) {x : Float}
    (hfinite : Binary64.magnitude x < Binary64.infinity) (hsign : Binary64.isNegative x = false) :
    let text := s.display (.number x)
    ∃ whole fraction, Writes text.toList whole fraction ∧ ∃ token,
      scan text = .ok [token, Token.endAt (Position.start.after text.toList)] ∧
      token.kind = (if fraction.isEmpty then .number else .float) ∧ token.lexeme = text ∧
      token.span = Span.ofText Position.start text.toList ∧
      ∀ (n : Nat) (p : Parser), p.current = token →
        Parse.primary (n + 1) p = .ok (.literal ⟨p.supply.node, token.span⟩ (.number x))
          { p.advance with supply.node := p.supply.node + 1 } := by
  show let text := showNumber x; _
  intro text
  obtain ⟨whole, fraction, hwrites, hvalue⟩ := writes_showNumber hfinite hsign
  have hconstant := constant?_numeral whole fraction text
    (Span.ofText Position.start text.toList)
  rw [hvalue, Binary64.toFloat_magnitude hsign] at hconstant
  refine ⟨whole, fraction, hwrites, _, hwrites.scan_eq, rfl, rfl, rfl, fun n p hp => ?_⟩
  rw [← hp] at hconstant ⊢
  exact Parse.primary_of_constant? hconstant n

/-- Two to the power 63 is displayed with zeros in place of its last digits, and is too wide for
an exact value. -/
theorem display_number_readable_wide :
    let x := Binary64.toFloat 0x43E0000000000000
    let text := "9223372036854776000"
    Binary64.magnitude x < Binary64.infinity ∧ Binary64.isNegative x = false ∧
      Store.empty.display (.number x) = text ∧ ∃ token,
        scan text = .ok [token, Token.endAt (Position.start.after text.toList)] ∧
        Parse.primary 1 (Parser.start Supply.initial
          [token, Token.endAt (Position.start.after text.toList)]) =
          .ok (.literal ⟨0, token.span⟩ (.number x))
            ⟨token, Token.endAt (Position.start.after text.toList), [], ⟨1, 0⟩, #[]⟩ := by
  intro x text
  have hfinite : Binary64.magnitude x < Binary64.infinity := by decide +kernel
  have hsign : Binary64.isNegative x = false := by decide +kernel
  have htext : Store.empty.display (.number x) = text := by decide +kernel
  obtain ⟨whole, fraction, hwrites, token, hscan, hkind, -, -, hprimary⟩ :=
    display_number_readable Store.empty hfinite hsign
  rw [htext] at hscan hwrites
  have hfraction : fraction = [] := hwrites.dropWhile_eq.symm.trans (by decide +kernel)
  refine ⟨hfinite, hsign, htext, token, hscan, ?_⟩
  rw [hfraction] at hkind
  rw [hprimary 0 _ rfl]
  simp [Parser.start, Parser.advance, Parser.atEnd, Parser.kind, hkind, Supply.initial]

end Lox
