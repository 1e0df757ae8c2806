import BraceScript.Number.Decimal
import Mathlib.Algebra.Order.Field.Basic
import Mathlib.Tactic.FieldSimp
import Mathlib.Tactic.Linarith
import Mathlib.Tactic.Positivity
import Mathlib.Tactic.Ring

/-!
# Rounding is correct

The value of a magnitude word is a rational number (`wordValue`), and `Nearest q word` says that a
word is what `q` is rounded to: no other magnitude is nearer to `q`, and if another one is as near
this one is even. There is just one such word, and `nearestWord` computes it from a numerator and
a denominator. So a decimal is rounded correctly, and the shortest decimal of a magnitude rounds
to it.
-/

namespace BraceScript.Number

/-! ## Magnitudes in units -/

theorem leadingBit_eq : leadingBit = 4503599627370496 := rfl

theorem twoTo_pos (n : Nat) : 0 < twoTo n := Nat.two_pow_pos n

theorem twoTo_add (m n : Nat) : twoTo (m + n) = twoTo m * twoTo n := Nat.pow_add 2 m n

/-- `mantissa` is a significand that `shift` scales to units: it has its leading bit unless
    nothing is shifted. The upper bound stands for the first significand of the next shift. -/
structure Normal (shift mantissa : Nat) : Prop where
  lower : 0 < shift → leadingBit ≤ mantissa
  upper : mantissa ≤ 2 * leadingBit

theorem Normal.succ {shift mantissa : Nat} (normal : Normal shift mantissa)
    (below : mantissa < 2 * leadingBit) : Normal shift (mantissa + 1) :=
  ⟨fun up => (normal.lower up).trans (Nat.le_succ mantissa), below⟩

/-- The word of a significand and a shift is their plain sum, and its magnitude their product. -/
theorem units_word {shift mantissa : Nat} (normal : Normal shift mantissa) :
    units (shift * leadingBit + mantissa) = mantissa * twoTo shift := by
  obtain ⟨lower, upper⟩ := normal
  rcases lt_or_ge mantissa leadingBit with small | normal
  · obtain rfl : shift = 0 := by
      by_contra positive
      exact absurd (lower (Nat.pos_of_ne_zero positive)) (by omega)
    have field : mantissa / leadingBit = 0 := Nat.div_eq_of_lt small
    simp [units, significand, unitExponent, small, field]
  have whole : ¬ shift * leadingBit + mantissa < leadingBit := by omega
  rcases Nat.lt_or_eq_of_le upper with below | rfl
  · have field : (shift * leadingBit + mantissa) / leadingBit = shift + 1 := by
      rw [leadingBit_eq] at *
      omega
    have fraction : (shift * leadingBit + mantissa) % leadingBit + leadingBit = mantissa := by
      rw [leadingBit_eq] at *
      omega
    rw [units, significand, unitExponent, if_neg whole, field, fraction, Nat.add_sub_cancel]
  · have field : (shift * leadingBit + 2 * leadingBit) / leadingBit = shift + 2 := by
      rw [leadingBit_eq]
      omega
    have fraction : (shift * leadingBit + 2 * leadingBit) % leadingBit = 0 := by
      rw [leadingBit_eq]
      omega
    rw [units, significand, unitExponent, if_neg whole, field, fraction, Nat.zero_add,
      Nat.add_sub_assoc (by decide), twoTo_add, Nat.mul_comm 2, Nat.mul_assoc, Nat.mul_comm 2]
    rfl

/-- Every word is the sum of a shift and a significand that is not the first of the next shift. -/
theorem word_parts (word : Nat) :
    ∃ shift mantissa, word = shift * leadingBit + mantissa ∧ Normal shift mantissa ∧
      mantissa < 2 * leadingBit := by
  refine ⟨word / leadingBit - 1, word - (word / leadingBit - 1) * leadingBit,
    ?_, ⟨?_, ?_⟩, ?_⟩ <;>
  · rw [leadingBit_eq]
    omega

theorem units_lt_succ (word : Nat) : units word < units (word + 1) := by
  obtain ⟨shift, mantissa, rfl, normal, below⟩ := word_parts word
  rw [units_word normal, Nat.add_assoc, units_word (normal.succ below)]
  exact Nat.mul_lt_mul_of_pos_right (Nat.lt_succ_self _) (twoTo_pos shift)

theorem units_strictMono : StrictMono units := strictMono_nat_of_lt_succ units_lt_succ

/-! ## The nearest magnitude -/

/-- The value of a magnitude word by its two fields: eleven bits of exponent, of which zero means
    that the significand has no leading bit, and 52 bits of fraction. Infinity is given the value
    at which the finite magnitudes would go on. -/
def wordValue (word : Nat) : ℚ :=
  if word / leadingBit = 0 then (word : ℚ) * 2 ^ (-1074 : ℤ)
  else (leadingBit + word % leadingBit : ℕ) * 2 ^ ((word / leadingBit : ℕ) - 1075 : ℤ)

/-- Of two magnitudes the first is nearer to `q`, or it is just as near and even. -/
def Preferred (q : ℚ) (word other : Nat) : Prop :=
  |q - wordValue word| < |q - wordValue other| ∨
    |q - wordValue word| = |q - wordValue other| ∧ Even word

/-- Correct rounding: no magnitude is nearer to `q`, and if another one is as near this one is
    even. -/
structure Nearest (q : ℚ) (word : Nat) : Prop where
  bounded : word ≤ infiniteWord
  preferred : ∀ other ≤ infiniteWord, other ≠ word → Preferred q word other

theorem unitsPerOne_pos : (0 : ℚ) < unitsPerOne := Nat.cast_pos.mpr (twoTo_pos 1074)

theorem cast_twoTo (n : Nat) : (twoTo n : ℚ) = 2 ^ n := by
  rw [twoTo]
  exact Nat.cast_pow 2 n

theorem wordValue_eq (word : Nat) : wordValue word = units word / unitsPerOne := by
  have scale : (unitsPerOne : ℚ) = 2 ^ (1074 : ℤ) := cast_twoTo 1074
  rw [wordValue, units, significand, unitExponent, Nat.cast_mul, cast_twoTo, scale]
  split
  · next zero =>
    have small : word < leadingBit := by
      rw [leadingBit_eq] at *
      omega
    rw [if_pos small, zero, zpow_neg]
    simp only [Nat.zero_sub, pow_zero, mul_one]
    rfl
  · next positive =>
    have whole : ¬ word < leadingBit := by
      rw [leadingBit_eq] at *
      omega
    obtain ⟨field, same⟩ := Nat.exists_eq_succ_of_ne_zero positive
    have exponent : ((field + 1 : ℕ) - 1075 : ℤ) = (field : ℤ) - (1074 : ℤ) := by omega
    rw [if_neg whole, same, Nat.succ_eq_add_one, exponent, zpow_sub₀ two_ne_zero, zpow_natCast,
      Nat.add_sub_cancel, Nat.add_comm, mul_div_assoc]

@[simp] theorem wordValue_zero : wordValue 0 = 0 := by simp [wordValue]

theorem wordValue_strictMono : StrictMono wordValue := by
  intro word other less
  rw [wordValue_eq, wordValue_eq]
  exact div_lt_div_of_pos_right (Nat.cast_lt.mpr (units_strictMono less)) unitsPerOne_pos

theorem wordValue_eq_natCast_iff {word n : Nat} :
    wordValue word = n ↔ units word = n * unitsPerOne := by
  rw [wordValue_eq, div_eq_iff unitsPerOne_pos.ne']
  exact_mod_cast Iff.rfl

theorem wordValue_eq_zero_iff {word : Nat} : wordValue word = 0 ↔ word = 0 := by
  rw [← wordValue_zero, wordValue_strictMono.injective.eq_iff]

theorem wordValue_nonneg (word : Nat) : 0 ≤ wordValue word := by
  rw [← wordValue_zero]
  exact wordValue_strictMono.monotone (Nat.zero_le word)

/-- What is nearer to the lower of two numbers is below their middle. -/
theorem nearer_lower_iff {q a b : ℚ} (less : a < b) :
    (|q - a| < |q - b| ↔ 2 * q < a + b) ∧ (|q - a| = |q - b| ↔ 2 * q = a + b) := by
  have product : (q - b) ^ 2 - (q - a) ^ 2 = (b - a) * (a + b - 2 * q) := by ring
  have gap : 0 < b - a := by linarith
  constructor
  · rw [← sq_lt_sq, ← sub_pos, product, mul_pos_iff_of_pos_left gap, sub_pos]
  · rw [← sq_eq_sq_iff_abs_eq_abs, eq_comm, ← sub_eq_zero, product, mul_eq_zero,
      or_iff_right gap.ne', sub_eq_zero, eq_comm]

theorem preferred_below_iff {q : ℚ} {word other : Nat} (less : word < other) :
    Preferred q word other ↔ 2 * q < wordValue word + wordValue other ∨
      2 * q = wordValue word + wordValue other ∧ Even word := by
  obtain ⟨nearer, tie⟩ := nearer_lower_iff (q := q) (wordValue_strictMono less)
  rw [Preferred, nearer, tie]

theorem preferred_above_iff {q : ℚ} {word other : Nat} (less : other < word) :
    Preferred q word other ↔ wordValue other + wordValue word < 2 * q ∨
      wordValue other + wordValue word = 2 * q ∧ Even word := by
  obtain ⟨nearer, tie⟩ := nearer_lower_iff (q := q) (wordValue_strictMono less)
  rw [Preferred, lt_iff_not_ge, le_iff_lt_or_eq, nearer, tie, eq_comm (a := |q - wordValue word|),
    tie, ← le_iff_lt_or_eq, not_le, eq_comm (a := 2 * q)]

theorem Preferred.trans_below {q : ℚ} {word next other : Nat} (near : Preferred q word next)
    (less : word < next) (further : next ≤ other) : Preferred q word other := by
  rcases Nat.eq_or_lt_of_le further with rfl | further
  · exact near
  have value : wordValue next < wordValue other := wordValue_strictMono further
  refine (preferred_below_iff (less.trans further)).mpr (.inl ?_)
  rcases (preferred_below_iff less).mp near with nearer | ⟨tie, -⟩ <;> linarith

theorem Preferred.trans_above {q : ℚ} {word next other : Nat} (near : Preferred q word next)
    (less : next < word) (further : other ≤ next) : Preferred q word other := by
  rcases Nat.eq_or_lt_of_le further with rfl | further
  · exact near
  have value : wordValue other < wordValue next := wordValue_strictMono further
  refine (preferred_above_iff (further.trans less)).mpr (.inl ?_)
  rcases (preferred_above_iff less).mp near with nearer | ⟨tie, -⟩ <;> linarith

/-- A magnitude that is preferred to its two neighbours is preferred to every other one. -/
theorem preferred_of_neighbours {q : ℚ} {word : Nat} (above : Preferred q word (word + 1))
    (below : 0 < word → Preferred q word (word - 1)) {other : Nat} (different : other ≠ word) :
    Preferred q word other := by
  rcases Nat.lt_or_gt_of_ne different with less | greater
  · exact (below (by omega)).trans_above (by omega) (by omega)
  · exact above.trans_below (by omega) greater

/-- There is one nearest magnitude: between two even ones that are as near there is a third. -/
theorem Nearest.not_lt {q : ℚ} {word other : Nat} (nearest : Nearest q word)
    (rival : Nearest q other) : ¬ word < other := by
  intro less
  have upper := (preferred_below_iff less).mp (nearest.preferred other rival.bounded less.ne')
  have lower := (preferred_above_iff less).mp (rival.preferred word nearest.bounded less.ne)
  obtain ⟨tie, even⟩ : 2 * q = wordValue word + wordValue other ∧ Even word := by
    rcases upper with nearer | tie
    · exact absurd lower (by rintro (further | ⟨tie, -⟩) <;> linarith)
    · exact tie
  have other_even : Even other := by
    rcases lower with further | ⟨-, even⟩
    · linarith
    · exact even
  have between : word + 1 < other := by grind
  have value := wordValue_strictMono between
  have third := nearest.preferred (word + 1) (by have := rival.bounded; omega) (by omega)
  rcases (preferred_below_iff (Nat.lt_succ_self word)).mp third with nearer | ⟨same, -⟩ <;>
    linarith

theorem Nearest.unique {q : ℚ} {word other : Nat} (nearest : Nearest q word)
    (rival : Nearest q other) : word = other :=
  Nat.le_antisymm (Nat.le_of_not_lt (rival.not_lt nearest))
    (Nat.le_of_not_lt (nearest.not_lt rival))

/-- A magnitude is the nearest one to its own value. -/
theorem nearest_wordValue {word : Nat} (bounded : word ≤ infiniteWord) :
    Nearest (wordValue word) word where
  bounded := bounded
  preferred other _ different := by
    refine .inl ?_
    rw [sub_self, abs_zero, abs_pos, sub_ne_zero]
    exact fun same => different (wordValue_strictMono.injective same).symm

theorem nearest_infiniteWord {q : ℚ} (large : wordValue infiniteWord ≤ q) :
    Nearest q infiniteWord where
  bounded := Nat.le_refl _
  preferred other bounded different := by
    have less : other < infiniteWord := Nat.lt_of_le_of_ne bounded different
    have value := wordValue_strictMono less
    exact (preferred_above_iff less).mpr (.inl (by linarith))

theorem nearest_zero {q : ℚ} (small : 2 * q < wordValue 1) : Nearest q 0 where
  bounded := Nat.zero_le _
  preferred other _ different := by
    have near : Preferred q 0 1 :=
      (preferred_below_iff Nat.zero_lt_one).mpr (.inl (by rwa [wordValue_zero, zero_add]))
    exact near.trans_below Nat.zero_lt_one (Nat.pos_of_ne_zero different)

/-! ## Rounding a quotient -/

/-- A quotient is its whole part and a part below one. -/
theorem quotient_parts (num : Nat) {den : Nat} (positive : 0 < den) :
    ∃ part : ℚ, part = (num % den : ℕ) / den ∧ (num / den : ℚ) = (num / den : ℕ) + part ∧
      0 ≤ part ∧ part < 1 := by
  have size : (0 : ℚ) < den := Nat.cast_pos.mpr positive
  refine ⟨_, rfl, ?_, by positivity, ?_⟩
  · rw [eq_comm, ← mul_left_inj' size.ne', add_mul, div_mul_cancel₀ _ size.ne',
      div_mul_cancel₀ _ size.ne']
    exact_mod_cast Nat.div_add_mod' num den
  · rw [div_lt_one size]
    exact Nat.cast_lt.mpr (Nat.mod_lt num positive)

/-- The rounded quotient is at most half away from the quotient, and even if it is half away. -/
theorem roundQuotient_near (num : Nat) {den : Nat} (positive : 0 < den) :
    |(num / den : ℚ) - roundQuotient num den| < 1 / 2 ∨
      |(num / den : ℚ) - roundQuotient num den| = 1 / 2 ∧ Even (roundQuotient num den) := by
  have size : (0 : ℚ) < den := Nat.cast_pos.mpr positive
  obtain ⟨part, rest, quotient, nonneg, below_one⟩ := quotient_parts num positive
  have low : 2 * (num % den) < den ↔ part < 1 / 2 := by
    rw [rest, div_lt_div_iff₀ size two_pos, one_mul, mul_comm]
    exact_mod_cast Iff.rfl
  have high : den < 2 * (num % den) ↔ 1 / 2 < part := by
    rw [rest, div_lt_div_iff₀ two_pos size, one_mul, mul_comm]
    exact_mod_cast Iff.rfl
  rw [quotient, roundQuotient]
  split
  · next down =>
    refine .inl ?_
    rw [add_sub_cancel_left, abs_of_nonneg nonneg]
    exact low.mp down
  split
  · next up =>
    have above := high.mp up
    refine .inl ?_
    rw [Nat.cast_succ, add_sub_add_left_eq_sub, abs_lt]
    constructor <;> linarith
  · next notDown notUp =>
    have half : part = 1 / 2 :=
      le_antisymm (not_lt.mp (high.not.mp notUp)) (not_lt.mp (low.not.mp notDown))
    refine .inr ?_
    rcases Nat.even_or_odd (num / den) with even | odd
    · rw [Nat.even_iff.mp even, add_zero, half, add_sub_cancel_left]
      exact ⟨by norm_num, even⟩
    · rw [Nat.odd_iff.mp odd, half, Nat.cast_succ, add_sub_add_left_eq_sub]
      exact ⟨by norm_num [abs_of_neg], odd.add_one⟩

section Scaled

variable {x step : ℚ} {word mantissa : Nat} (positive : 0 < step)
  (value : wordValue word = mantissa * step) (parity : Even mantissa → Even word)
  (near : |x - mantissa| < 1 / 2 ∨ |x - mantissa| = 1 / 2 ∧ Even mantissa)

include positive value parity near

/-- A rounded significand is preferred to a word above, at a distance of at least one step unless
    the significand was rounded up. -/
theorem preferred_above_scaled {next : Nat} (less : word < next)
    (far : x < mantissa ∨ (mantissa + 1) * step ≤ wordValue next) :
    Preferred (x * step) word next := by
  have increase := wordValue_strictMono less
  rw [value] at increase
  rw [preferred_below_iff less, value]
  rcases far with rounded | far
  · have scaled := mul_lt_mul_of_pos_right rounded positive
    exact .inl (by linarith)
  rcases near with nearer | ⟨tie, even⟩
  · have bound : x < mantissa + 1 / 2 := by linarith [(abs_lt.mp nearer).2]
    have scaled := mul_lt_mul_of_pos_right bound positive
    exact .inl (by linarith)
  · have bound : x ≤ mantissa + 1 / 2 := by linarith [(abs_le.mp tie.le).2]
    have scaled := mul_le_mul_of_nonneg_right bound positive.le
    exact (lt_or_eq_of_le (by linarith)).imp_right fun same => ⟨same, parity even⟩

/-- A rounded significand is preferred to a word below, at a distance of at least one step unless
    the significand was rounded down. -/
theorem preferred_below_scaled {next : Nat} (less : next < word)
    (far : mantissa ≤ x ∨ wordValue next ≤ (mantissa - 1) * step) :
    Preferred (x * step) word next := by
  have increase := wordValue_strictMono less
  rw [value] at increase
  rw [preferred_above_iff less, value]
  rcases far with rounded | far
  · have scaled := mul_le_mul_of_nonneg_right rounded positive.le
    exact .inl (by linarith)
  rcases near with nearer | ⟨tie, even⟩
  · have bound : mantissa - 1 / 2 < x := by linarith [(abs_lt.mp nearer).1]
    have scaled := mul_lt_mul_of_pos_right bound positive
    exact .inl (by linarith)
  · have bound : mantissa - 1 / 2 ≤ x := by linarith [(abs_le.mp tie.le).1]
    have scaled := mul_le_mul_of_nonneg_right bound positive.le
    exact (lt_or_eq_of_le (by linarith)).imp_right fun same => ⟨same, parity even⟩

end Scaled

/-- The distance of neighbouring words of a shift is positive. -/
theorem step_pos (shift : Nat) : (0 : ℚ) < twoTo shift / unitsPerOne :=
  div_pos (Nat.cast_pos.mpr (twoTo_pos shift)) unitsPerOne_pos

theorem wordValue_word {shift mantissa : Nat} (normal : Normal shift mantissa) :
    wordValue (shift * leadingBit + mantissa) = mantissa * (twoTo shift / unitsPerOne) := by
  rw [wordValue_eq, units_word normal, Nat.cast_mul, mul_div_assoc]

/-- The shift of a quotient brings it below the first significand of the next shift, and leaves it
    its leading bit. -/
theorem shifted_bounds (scaled : Nat) {den shift : Nat} (positive : 0 < den)
    (shifted : shift = (scaled / den).log2 - 52) :
    scaled < 2 * leadingBit * (den * twoTo shift) ∧
      (0 < shift → leadingBit * (den * twoTo shift) ≤ scaled) := by
  constructor
  · have bound : scaled / den < 2 * leadingBit * twoTo shift :=
      calc scaled / den < twoTo ((scaled / den).log2 + 1) := Nat.lt_log2_self
        _ ≤ twoTo (53 + shift) := Nat.pow_le_pow_right (by decide) (by omega)
        _ = 2 * leadingBit * twoTo shift := twoTo_add 53 shift
    rw [Nat.div_lt_iff_lt_mul positive] at bound
    calc scaled < 2 * leadingBit * twoTo shift * den := bound
      _ = 2 * leadingBit * (den * twoTo shift) := by ring
  · intro up
    have nonzero : scaled / den ≠ 0 := by
      intro zero
      rw [zero, Nat.log2_zero] at shifted
      omega
    have bound : leadingBit * twoTo shift ≤ scaled / den :=
      calc leadingBit * twoTo shift = twoTo (52 + shift) := (twoTo_add 52 shift).symm
        _ = twoTo (scaled / den).log2 := by rw [shifted]; congr 1; omega
        _ ≤ scaled / den := Nat.log2_self_le nonzero
    rw [Nat.le_div_iff_mul_le positive] at bound
    calc leadingBit * (den * twoTo shift) = leadingBit * twoTo shift * den := by ring
      _ ≤ scaled := bound

/-- The integer next to a number that lies between the significands of a shift is a significand of
    this shift. -/
theorem normal_of_near {x : ℚ} {shift mantissa : Nat} (near : |x - mantissa| ≤ 1 / 2)
    (upper : x < 2 * leadingBit) (lower : 0 < shift → leadingBit ≤ x) :
    Normal shift mantissa := by
  obtain ⟨above, below⟩ := abs_le.mp near
  constructor
  · intro up
    have bound : (leadingBit : ℚ) < (mantissa + 1 : ℕ) := by
      push_cast
      linarith [lower up]
    exact Nat.lt_succ_iff.mp (Nat.cast_lt.mp bound)
  · have bound : (mantissa : ℚ) < (2 * leadingBit + 1 : ℕ) := by
      push_cast
      linarith
    exact Nat.lt_succ_iff.mp (Nat.cast_lt.mp bound)

/-- The word of a rounded significand is preferred to every other one. Its neighbours are a step
    away, but for the word below the first one of a shift, which is nearer; there the significand
    was rounded down. -/
theorem preferred_significand {x : ℚ} {shift mantissa : Nat}
    (near : |x - mantissa| < 1 / 2 ∨ |x - mantissa| = 1 / 2 ∧ Even mantissa)
    (upper : x < 2 * leadingBit) (lower : 0 < shift → leadingBit ≤ x) {other : Nat}
    (different : other ≠ shift * leadingBit + mantissa) :
    Preferred (x * (twoTo shift / unitsPerOne)) (shift * leadingBit + mantissa) other := by
  have normal := normal_of_near (near.elim le_of_lt fun tie => tie.1.le) upper lower
  have step := step_pos shift
  have value := wordValue_word normal
  have parity : Even mantissa → Even (shift * leadingBit + mantissa) := fun even =>
    ((by decide : Even leadingBit).mul_left shift).add even
  refine preferred_of_neighbours ?_ ?_ different
  · refine preferred_above_scaled step value parity near (Nat.lt_succ_self _) ?_
    rcases Nat.lt_or_eq_of_le normal.upper with small | rfl
    · refine .inr ?_
      rw [Nat.add_assoc, wordValue_word (normal.succ small), Nat.cast_succ]
    · refine .inl ?_
      push_cast
      exact upper
  · intro positive
    refine preferred_below_scaled step value parity near (Nat.sub_lt positive Nat.one_pos) ?_
    by_cases first : 0 < shift ∧ mantissa = leadingBit
    · obtain ⟨up, rfl⟩ := first
      exact .inl (lower up)
    · obtain ⟨less, rfl⟩ : ∃ less, mantissa = less + 1 := by
        refine Nat.exists_eq_succ_of_ne_zero ?_
        rintro rfl
        have := normal.lower
        rw [leadingBit_eq] at *
        omega
      have next : Normal shift less :=
        ⟨fun up => by have := normal.lower up; omega, by have := normal.upper; omega⟩
      refine .inr ?_
      rw [← Nat.add_assoc, Nat.add_sub_cancel, wordValue_word next, Nat.cast_succ,
        add_sub_cancel_right]

/-- Rounding to infinity in place of a word that lies past it. -/
theorem nearest_min {q : ℚ} {word : Nat}
    (preferred : ∀ other, other ≠ word → Preferred q word other) :
    Nearest q (min word infiniteWord) := by
  rcases le_or_gt word infiniteWord with bounded | past
  · rw [min_eq_left bounded]
    exact ⟨bounded, fun other _ different => preferred other different⟩
  · rw [min_eq_right past.le]
    have value := wordValue_strictMono past
    refine nearest_infiniteWord ?_
    rcases (preferred_above_iff past).mp (preferred infiniteWord past.ne) with
      above | ⟨tie, -⟩ <;> linarith

/-- The computed word is the nearest magnitude to the quotient. -/
theorem nearest_nearestWord (num : Nat) {den : Nat} (positive : 0 < den) :
    Nearest (num / den) (nearestWord num den) := by
  rw [nearestWord]
  generalize shifted : (num * unitsPerOne / den).log2 - 52 = shift
  have size : 0 < den * twoTo shift := Nat.mul_pos positive (twoTo_pos shift)
  have scaled : (num / den : ℚ) = (num * unitsPerOne : ℕ) / (den * twoTo shift : ℕ) *
      (twoTo shift / unitsPerOne) := by
    have one := unitsPerOne_pos
    have two : (0 : ℚ) < twoTo shift := Nat.cast_pos.mpr (twoTo_pos shift)
    push_cast
    field_simp
  obtain ⟨upper, lower⟩ := shifted_bounds (num * unitsPerOne) positive shifted.symm
  refine nearest_min fun other different => ?_
  rw [scaled]
  refine preferred_significand (roundQuotient_near _ size) ?_ ?_ different
  · rw [div_lt_iff₀ (Nat.cast_pos.mpr size)]
    exact_mod_cast upper
  · intro up
    rw [le_div_iff₀ (Nat.cast_pos.mpr size)]
    exact_mod_cast lower up

/-! ## Decimals -/

/-- The value of a decimal. -/
def Decimal.value (d : Decimal) : ℚ := d.coefficient * 10 ^ d.exponent

@[simp] theorem Decimal.value_mk (coefficient : Nat) (exponent : Int) :
    (Decimal.mk coefficient exponent).value = coefficient * 10 ^ exponent := rfl

theorem cast_tenTo (n : Nat) : (tenTo n : ℚ) = 10 ^ n := by
  rw [tenTo]
  exact Nat.cast_pow 10 n

theorem ten_zpow (exponent : Int) :
    (10 : ℚ) ^ exponent = tenTo exponent.toNat / tenTo (-exponent).toNat := by
  rw [cast_tenTo, cast_tenTo, ← zpow_natCast, ← zpow_natCast, ← zpow_sub₀ (by norm_num)]
  congr 1
  omega

theorem Decimal.denominator_pos (d : Decimal) : 0 < d.denominator := Nat.pow_pos (by decide)

theorem Decimal.value_eq (d : Decimal) : d.value = d.numerator / d.denominator := by
  rw [value, numerator, denominator, Nat.cast_mul, mul_div_assoc, ten_zpow]

/-- A decimal is rounded correctly. -/
theorem Decimal.nearest_word (d : Decimal) : Nearest d.value d.word := by
  rw [d.value_eq]
  exact nearest_nearestWord _ d.denominator_pos

theorem Decimal.word_eq {d : Decimal} {word : Nat} (nearest : Nearest d.value word) :
    d.word = word :=
  d.nearest_word.unique nearest

theorem Decimal.coefficient_pos {d : Decimal} (positive : 0 < d.word) : 0 < d.coefficient := by
  refine Nat.pos_of_ne_zero fun zero => positive.ne' (d.word_eq ?_)
  rw [Decimal.value, zero, Nat.cast_zero, zero_mul, ← wordValue_zero]
  exact nearest_wordValue (Nat.zero_le _)

/-- The digits of a fraction whose denominator is a power of two. -/
theorem Decimal.value_fives (num : Nat) {n : Nat} {exponent : Int} (places : exponent = -n) :
    (Decimal.mk (num * Nat.pow 5 n) exponent).value = num / twoTo n := by
  have five : ((Nat.pow 5 n : ℕ) : ℚ) = 5 ^ n := Nat.cast_pow 5 n
  have ten : (10 : ℚ) ^ n = 2 ^ n * 5 ^ n := by
    rw [← mul_pow]
    norm_num
  rw [value_mk, places, Nat.cast_mul, five, cast_twoTo, zpow_neg, zpow_natCast, ten]
  field_simp

theorem exactDecimal_value (word : Nat) : (exactDecimal word).value = wordValue word := by
  obtain ⟨n, places⟩ : ∃ n : Nat, n = 1074 := ⟨_, rfl⟩
  rw [wordValue_eq, exactDecimal, unitsPerOne, ← places]
  exact Decimal.value_fives (units word) (by omega)

/-- The shortest decimal of a magnitude rounds to it. -/
theorem shortest_word {word : Nat} (finite : word < infiniteWord) :
    (shortest word).word = word := by
  rw [shortest]
  generalize found : List.findSome? _ (List.range 17) = result
  cases result with
  | none =>
    refine Decimal.word_eq ?_
    rw [Option.getD_none, exactDecimal_value]
    exact nearest_wordValue finite.le
  | some d =>
    obtain ⟨n, -, chosen⟩ := List.exists_of_findSome?_eq_some found
    have rounds := List.find?_some chosen
    rwa [decide_eq_true_iff] at rounds

theorem shortest_nearest {word : Nat} (finite : word < infiniteWord) :
    Nearest (shortest word).value word := by
  have nearest := (shortest word).nearest_word
  rwa [shortest_word finite] at nearest

theorem shortest_positive {word : Nat} (positive : 0 < word) (finite : word < infiniteWord) :
    0 < (shortest word).coefficient :=
  Decimal.coefficient_pos (by rwa [shortest_word finite])

end BraceScript.Number
