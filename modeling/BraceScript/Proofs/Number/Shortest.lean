import BraceScript.Proofs.Number.Writing
import Mathlib.Algebra.Order.Field.Power

/-!
# The shortest decimal of a magnitude

`shortest` tries the two decimals around a magnitude, place by place from the leading digit on. No
decimal that is rounded to the magnitude has fewer digits than the one it finds: if a multiple of a
power of ten is rounded to the magnitude, so is the candidate of this exponent on the same side,
because it is not further away. Neighbouring magnitudes are at least one part in two to the 53
apart, so that the search succeeds within seventeen digits.
-/

namespace BraceScript.Number

/-! ## Between two numbers -/

/-- What lies between two numbers that are rounded to a word is rounded to it too. -/
theorem Nearest.between {a b q : ℚ} {word : Nat} (low : Nearest a word) (high : Nearest b word)
    (above : a ≤ q) (below : q ≤ b) : Nearest q word where
  bounded := low.bounded
  preferred other bounded different := by
    rcases Nat.lt_or_gt_of_ne different with less | greater
    · rw [preferred_above_iff less]
      rcases (preferred_above_iff less).mp (low.preferred other bounded different) with
        nearer | ⟨tie, even⟩
      · exact .inl (by linarith)
      · exact (lt_or_eq_of_le (by linarith)).imp_right fun same => ⟨same, even⟩
    · rw [preferred_below_iff greater]
      rcases (preferred_below_iff greater).mp (high.preferred other bounded different) with
        nearer | ⟨tie, even⟩
      · exact .inl (by linarith)
      · exact (lt_or_eq_of_le (by linarith)).imp_right fun same => ⟨same, even⟩

/-- A number on either side of a magnitude that is rounded to it carries all numbers in between. -/
theorem Nearest.toward {q r : ℚ} {word : Nat} (nearest : Nearest r word)
    (between : r ≤ q ∧ q ≤ wordValue word ∨ wordValue word ≤ q ∧ q ≤ r) : Nearest q word := by
  have self := nearest_wordValue nearest.bounded
  rcases between with ⟨above, below⟩ | ⟨above, below⟩
  · exact nearest.between self above below
  · exact self.between nearest above below

/-! ## The leading digit -/

theorem floor_bounds (num : Nat) {den : Nat} (positive : 0 < den) :
    ((num / den : ℕ) : ℚ) ≤ num / den ∧ (num / den : ℚ) < (num / den : ℕ) + 1 := by
  obtain ⟨part, -, quotient, nonneg, below_one⟩ := quotient_parts num positive
  constructor <;> linarith

theorem digitCount_bounds {n : Nat} (positive : 0 < n) :
    0 < digitCount n ∧ 10 ^ (digitCount n - 1) ≤ n ∧ n < 10 ^ digitCount n := by
  have some : 0 < digitCount n := List.length_pos_iff.mpr Nat.toDigits_ne_nil
  refine ⟨some, ?_, (Nat.length_toDigits_le_iff (by decide) some).mp (Nat.le_refl _)⟩
  rcases Nat.eq_zero_or_pos (digitCount n - 1) with one | more
  · rw [one]
    exact positive
  · by_contra small
    have short := (Nat.length_toDigits_le_iff (by decide) more).mpr (Nat.lt_of_not_le small)
    rw [digitCount] at *
    omega

/-- A magnitude starts with the power of ten that its leading exponent gives. -/
theorem leadingExponent_bounds {word : Nat} (positive : 0 < word) :
    10 ^ leadingExponent word ≤ wordValue word ∧
      wordValue word < 10 ^ (leadingExponent word + 1) := by
  have shifted : ((units word * tenTo 324 : ℕ) : ℚ) / unitsPerOne =
      wordValue word * 10 ^ (324 : ℤ) := by
    rw [Nat.cast_mul, cast_tenTo, wordValue_eq, div_mul_eq_mul_div]
    rfl
  obtain ⟨lower, upper⟩ := floor_bounds (units word * tenTo 324) (twoTo_pos 1074)
  rw [← unitsPerOne, shifted] at lower upper
  have some : 0 < units word * tenTo 324 / unitsPerOne := by
    have unit : 0 < units word := Nat.zero_lt_of_lt (units_strictMono positive)
    have reach : unitsPerOne ≤ tenTo 324 := by decide +kernel
    exact Nat.div_pos (reach.trans (Nat.le_mul_of_pos_left _ unit)) (twoTo_pos 1074)
  rw [leadingExponent]
  generalize units word * tenTo 324 / unitsPerOne = digits at *
  obtain ⟨count, least, most⟩ := digitCount_bounds some
  have scale : (0 : ℚ) < 10 ^ (324 : ℤ) := by positivity
  constructor
  · rw [← mul_le_mul_iff_left₀ scale, ← zpow_add₀ (by norm_num)]
    have places : (digitCount digits : ℤ) - 325 + 324 = (digitCount digits - 1 : ℕ) := by omega
    rw [places, zpow_natCast]
    exact le_trans (by exact_mod_cast least) lower
  · rw [← mul_lt_mul_iff_left₀ scale, ← zpow_add₀ (by norm_num)]
    have places : (digitCount digits : ℤ) - 325 + 1 + 324 = (digitCount digits : ℕ) := by omega
    rw [places, zpow_natCast]
    exact lt_of_lt_of_le upper (by exact_mod_cast most)

/-! ## The decimals around a magnitude -/

/-- The candidates of an exponent are the two decimals that have the magnitude between them. -/
theorem neighbours_around (word : Nat) (exponent : Int) :
    ∃ below : Nat, below * 10 ^ exponent ≤ wordValue word ∧
      wordValue word < (below + 1 : ℕ) * 10 ^ exponent ∧
      ∀ d, d ∈ neighbours word exponent ↔ d = ⟨below, exponent⟩ ∨ d = ⟨below + 1, exponent⟩ := by
  have scale : (0 : ℚ) < 10 ^ exponent := by positivity
  have size : 0 < unitsPerOne * tenTo exponent.toNat :=
    Nat.mul_pos (twoTo_pos 1074) (Nat.pow_pos (by decide))
  have quotient : ((units word * tenTo (-exponent).toNat : ℕ) : ℚ) /
      (unitsPerOne * tenTo exponent.toNat : ℕ) = wordValue word / 10 ^ exponent := by
    have one := unitsPerOne_pos
    have ten : ∀ n, (0 : ℚ) < tenTo n := fun n => Nat.cast_pos.mpr (Nat.pow_pos (by decide))
    have front := ten exponent.toNat
    have back := ten (-exponent).toNat
    rw [ten_zpow, wordValue_eq, Nat.cast_mul, Nat.cast_mul]
    field_simp
  obtain ⟨lower, upper⟩ := floor_bounds (units word * tenTo (-exponent).toNat) size
  rw [quotient, le_div_iff₀ scale] at lower
  rw [quotient, div_lt_iff₀ scale] at upper
  refine ⟨_, lower, by exact_mod_cast upper, fun d => ?_⟩
  simp only [neighbours]
  split
  · simp
  · simp [or_comm]

/-- A multiple of a power of ten that is rounded to a magnitude has a candidate of this exponent
    between it and the magnitude. -/
theorem exists_neighbour {word m : Nat} {exponent : Int}
    (nearest : Nearest (m * 10 ^ exponent) word) :
    ∃ d ∈ neighbours word exponent, d.word = word := by
  obtain ⟨below, lower, upper, mem⟩ := neighbours_around word exponent
  have scale : (0 : ℚ) < 10 ^ exponent := by positivity
  rcases Nat.lt_or_ge below m with above | within
  · have order : ((below + 1 : ℕ) : ℚ) * 10 ^ exponent ≤ m * 10 ^ exponent :=
      mul_le_mul_of_nonneg_right (Nat.cast_le.mpr above) scale.le
    exact ⟨_, (mem _).mpr (.inr rfl), Decimal.word_eq (nearest.toward (.inr ⟨upper.le, order⟩))⟩
  · have order : (m : ℚ) * 10 ^ exponent ≤ below * 10 ^ exponent :=
      mul_le_mul_of_nonneg_right (Nat.cast_le.mpr within) scale.le
    exact ⟨_, (mem _).mpr (.inl rfl), Decimal.word_eq (nearest.toward (.inl ⟨order, lower⟩))⟩

/-- The search stops at the first exponent that has a candidate. -/
theorem shortest_mem {word n : Nat} (few : n < 17)
    (candidate : ∃ d ∈ neighbours word (leadingExponent word - n), d.word = word) :
    ∃ k ≤ n, shortest word ∈ neighbours word (leadingExponent word - k) := by
  obtain ⟨d, member, rounds⟩ := candidate
  have stops : (neighbours word (leadingExponent word - n)).find? (fun d => d.word = word) ≠ none :=
    fun none => List.find?_eq_none.mp none d member (decide_eq_true rounds)
  have tried : n ∈ List.range 17 := List.mem_range.mpr few
  rw [shortest]
  generalize found : List.findSome? _ (List.range 17) = result
  cases result with
  | none => exact absurd (List.findSome?_eq_none_iff.mp found n tried) stops
  | some d =>
    obtain ⟨front, k, back, order, chosen, earlier⟩ := List.findSome?_eq_some_iff.mp found
    have sorted := List.pairwise_lt_range (n := 17)
    rw [order] at tried sorted
    refine ⟨k, ?_, List.mem_of_find?_eq_some chosen⟩
    rcases List.mem_append.mp tried with before | rest
    · exact absurd (earlier n before) stops
    rcases List.mem_cons.mp rest with rfl | after
    · exact Nat.le_refl _
    · exact ((List.pairwise_cons.mp (List.pairwise_append.mp sorted).2.1).1 n after).le

/-! ## Counting digits -/

theorem toDigits_mul_ten {m : Nat} (positive : 0 < m) (zeros : Nat) :
    Nat.toDigits 10 (m * 10 ^ zeros) = Nat.toDigits 10 m ++ List.replicate zeros '0' := by
  induction zeros with
  | zero => simp
  | succ zeros ih =>
    have large : 10 ≤ m * 10 ^ (zeros + 1) := by
      rw [Nat.pow_succ, ← Nat.mul_assoc]
      exact Nat.le_mul_of_pos_left 10 (Nat.mul_pos positive (Nat.pow_pos (by decide)))
    rw [Nat.toDigits_of_base_le (by decide) large, Nat.pow_succ, ← Nat.mul_assoc,
      Nat.mul_div_cancel _ (by decide), Nat.mul_mod_left, ih, List.replicate_succ',
      List.append_assoc]
    rfl

/-- Zeros at the end of a coefficient are not among the digits of a decimal. -/
theorem Decimal.digits_length_le {d : Decimal} {m zeros width : Nat} (positive : 0 < m)
    (same : d.coefficient = m * 10 ^ zeros) (some : 0 < width) (few : m < 10 ^ width) :
    d.digits.1.length ≤ width := by
  have short := (Nat.length_toDigits_le_iff (by decide) some).mpr few
  refine le_trans ?_ short
  simp only [digits, same, toDigits_mul_ten positive]
  rw [List.reverse_append, List.reverse_replicate, List.dropWhile_append_of_pos,
    List.length_reverse]
  · exact (List.dropWhile_sublist _).length_le.trans List.length_reverse.le
  · exact fun c member => decide_eq_true (List.eq_of_mem_replicate member)

/-- A candidate that is `n` places below the leading digit has up to `n + 1` digits. -/
theorem neighbours_short {word n : Nat} (positive : 0 < word) {d : Decimal}
    (member : d ∈ neighbours word (leadingExponent word - n)) (some : 0 < d.coefficient) :
    d.digits.1.length ≤ n + 1 := by
  obtain ⟨below, lower, -, mem⟩ := neighbours_around word (leadingExponent word - n)
  have scale : (0 : ℚ) < 10 ^ (leadingExponent word - n) := by positivity
  have few : below < 10 ^ (n + 1) := by
    have bound : (below : ℚ) * 10 ^ (leadingExponent word - n) <
        10 ^ ((n + 1 : ℕ) : ℤ) * 10 ^ (leadingExponent word - n) := by
      refine lower.trans_lt ((leadingExponent_bounds positive).2.trans_eq ?_)
      rw [← zpow_add₀ (by norm_num)]
      congr 1
      push_cast
      ring
    rw [mul_lt_mul_iff_left₀ scale, zpow_natCast] at bound
    exact_mod_cast bound
  have plain : d.coefficient = d.coefficient * 10 ^ 0 := by simp
  rcases (mem d).mp member with rfl | rfl
  · exact Decimal.digits_length_le some plain (Nat.succ_pos n) few
  · rcases Nat.lt_or_eq_of_le few with fewer | power
    · exact Decimal.digits_length_le some plain (Nat.succ_pos n) fewer
    · exact Decimal.digits_length_le Nat.one_pos (power.trans (Nat.one_mul _).symm)
        (Nat.succ_pos n) (Nat.one_lt_pow (Nat.succ_ne_zero n) (by decide))

/-! ## Seventeen digits are enough -/

/-- Neighbouring magnitudes are not nearer to each other than by one part in two to the 53. -/
theorem wordValue_gap (word : Nat) :
    wordValue (word + 1) ≤ 2 ^ 53 * (wordValue (word + 1) - wordValue word) := by
  obtain ⟨shift, mantissa, rfl, normal, below⟩ := word_parts word
  have bound : ((mantissa + 1 : ℕ) : ℚ) ≤ 2 ^ 53 := by
    have whole : mantissa + 1 ≤ 2 ^ 53 := below
    exact_mod_cast whole
  rw [Nat.add_assoc, wordValue_word normal, wordValue_word (normal.succ below), ← sub_mul,
    Nat.cast_succ, add_sub_cancel_left, one_mul, ← Nat.cast_succ]
  exact mul_le_mul_of_nonneg_right bound (step_pos shift).le

theorem nearest_of_near {x : ℚ} {word : Nat} (finite : word < infiniteWord)
    (near : 2 ^ 54 * |x - wordValue word| < wordValue word) : Nearest x word where
  bounded := finite.le
  preferred other _ different := by
    obtain ⟨above, below⟩ := abs_le.mp (le_refl |x - wordValue word|)
    refine preferred_of_neighbours ?_ (fun positive => ?_) different
    · have gap := wordValue_gap word
      have increase := wordValue_strictMono (Nat.lt_succ_self word)
      exact (preferred_below_iff (Nat.lt_succ_self word)).mpr (.inl (by linarith))
    · obtain ⟨previous, rfl⟩ := Nat.exists_eq_succ_of_ne_zero positive.ne'
      have gap := wordValue_gap previous
      exact (preferred_above_iff (Nat.lt_succ_self previous)).mpr (.inl (by linarith))

/-- Half a step is near enough if the magnitude has 17 digits in steps. -/
theorem nearest_of_half_step {x step : ℚ} {word : Nat} (finite : word < infiniteWord)
    (positive : 0 < step) (digits : 10 ^ 16 * step ≤ wordValue word)
    (half : |x - wordValue word| ≤ step / 2) : Nearest x word :=
  nearest_of_near finite (by linarith)

theorem seventeen_digits {word : Nat} (positive : 0 < word) (finite : word < infiniteWord) :
    ∃ d ∈ neighbours word (leadingExponent word - (16 : ℕ)), d.word = word := by
  obtain ⟨below, lower, upper, -⟩ := neighbours_around word (leadingExponent word - (16 : ℕ))
  obtain ⟨step, size⟩ : ∃ step : ℚ, step = 10 ^ (leadingExponent word - (16 : ℕ)) := ⟨_, rfl⟩
  have small : 0 < step := by
    rw [size]
    positivity
  have digits : 10 ^ 16 * step ≤ wordValue word := by
    rw [size, ← zpow_natCast, ← zpow_add₀ (by norm_num), add_sub_cancel]
    exact (leadingExponent_bounds positive).1
  rw [← size] at lower upper
  rw [Nat.cast_succ, add_mul, one_mul] at upper
  -- The nearer of the two candidates is at most half a step away.
  rcases le_total (wordValue word - below * step) (step / 2) with near | far
  · have half : |below * step - wordValue word| ≤ step / 2 := by
      rw [abs_le]
      constructor <;> linarith
    refine exists_neighbour (m := below) ?_
    rw [← size]
    exact nearest_of_half_step finite small digits half
  · have half : |(below + 1 : ℕ) * step - wordValue word| ≤ step / 2 := by
      rw [abs_le, Nat.cast_succ, add_mul, one_mul]
      constructor <;> linarith
    refine exists_neighbour (m := below + 1) ?_
    rw [← size]
    exact nearest_of_half_step finite small digits half

/-! ## No decimal is shorter -/

/-- A decimal that is rounded to a magnitude, with as few digits as there can be. -/
structure Shortest (word : Nat) (d : Decimal) : Prop where
  rounds : d.word = word
  least {other : Decimal} : other.word = word → d.digits.1.length ≤ other.digits.1.length

/-- A decimal that is rounded to a magnitude has a candidate with as many digits. -/
theorem exists_candidate {word : Nat} (positive : 0 < word) {d : Decimal}
    (rounds : d.word = word) (some : 0 < d.coefficient) :
    ∃ n < d.digits.1.length,
      ∃ c ∈ neighbours word (leadingExponent word - n), c.word = word := by
  obtain ⟨digits, value⟩ := Decimal.digits_spec some
  have nearest := d.nearest_word
  rw [rounds, ← value, leadingValue] at nearest
  have length := List.length_pos_iff.mpr digits.1
  have few := digitsValue_lt digits.2
  generalize d.digits.1 = ds at *
  generalize d.digits.2 + 1 - ds.length = last at *
  obtain ⟨n, long⟩ := Nat.exists_eq_succ_of_ne_zero length.ne'
  rcases le_or_gt (leadingExponent word - n) last with aligned | small
  · -- The decimal is a multiple of the step of the candidates with as many digits.
    obtain ⟨zeros, apart⟩ := Int.eq_ofNat_of_zero_le (sub_nonneg.mpr aligned)
    refine ⟨n, by omega, exists_neighbour (m := digitsValue ds * 10 ^ zeros) ?_⟩
    rw [Nat.cast_mul, Nat.cast_pow, mul_assoc, Nat.cast_ofNat, ← zpow_natCast,
      ← zpow_add₀ (by norm_num)]
    convert nearest using 3
    omega
  · -- The decimal is below the power of ten that the magnitude starts with.
    refine ⟨0, length, exists_neighbour (m := 1) (nearest.toward (.inl ?_))⟩
    rw [Nat.cast_one, one_mul, Nat.cast_zero, sub_zero]
    refine ⟨?_, (leadingExponent_bounds positive).1⟩
    calc (digitsValue ds : ℚ) * 10 ^ last ≤ 10 ^ (ds.length : ℤ) * 10 ^ last := by
          gcongr
          rw [zpow_natCast]
          exact_mod_cast few.le
      _ = 10 ^ (ds.length + last) := (zpow_add₀ (by norm_num) _ _).symm
      _ ≤ 10 ^ leadingExponent word := zpow_le_zpow_right₀ (by norm_num) (by omega)

/-- **The shortest decimal is the shortest.** No decimal that is rounded to a magnitude has fewer
    digits than its shortest decimal. -/
theorem shortest_least {word : Nat} (positive : 0 < word) (finite : word < infiniteWord) :
    Shortest word (shortest word) where
  rounds := shortest_word finite
  least {d} rounds := by
    have some : 0 < d.coefficient := d.coefficient_pos (by rwa [rounds])
    have written := shortest_positive positive finite
    obtain ⟨n, within, candidate⟩ := exists_candidate positive rounds some
    rcases Nat.lt_or_ge n 17 with few | many
    · obtain ⟨k, sooner, member⟩ := shortest_mem few candidate
      have short := neighbours_short positive member written
      omega
    · obtain ⟨k, sooner, member⟩ := shortest_mem (by decide) (seventeen_digits positive finite)
      have short := neighbours_short positive member written
      omega

end BraceScript.Number
