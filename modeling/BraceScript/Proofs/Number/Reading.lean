import BraceScript.Proofs.Number.Numeral
import BraceScript.Proofs.Number.Rounding

/-!
# Reading a numeral is correctly rounded conversion

`Denotes` gives the exact rational value of a numeral of digits, with or without a point and an
exponent, and `Reads` the number that it is rounded to. The reader of numbers finds this number.
Its exponents are brought within a bound before the value is computed, which is shown to change
nothing: beyond the bound the value is rounded to zero or to infinity.
-/

namespace BraceScript.Number

open Lexical

/-! ## Digits -/

theorem digitsValue_append (front back : List Char) :
    digitsValue (front ++ back) = digitsValue front * 10 ^ back.length + digitsValue back := by
  calc digitsValue (front ++ back) = Nat.ofDigitChars 10 back (digitsValue front) :=
        Nat.ofDigitChars_append 0
    _ = 10 ^ back.length * digitsValue front + digitsValue back :=
        Nat.ofDigitChars_eq_ofDigitChars_zero
    _ = digitsValue front * 10 ^ back.length + digitsValue back := by rw [Nat.mul_comm]

@[simp] theorem digitsValue_zeros (n : Nat) : digitsValue (List.replicate n '0') = 0 :=
  Nat.ofDigitChars_replicate_zero

@[simp] theorem digitsValue_toDigits (n : Nat) : digitsValue (Nat.toDigits 10 n) = n :=
  Nat.ofDigitChars_ten_toDigits

theorem isDigit_of_mem_zeros {n : Nat} : ∀ c ∈ List.replicate n '0', c.isDigit = true :=
  fun c member => by
    rw [List.eq_of_mem_replicate member]
    rfl

@[simp] theorem digitsValue_zero_cons (ds : List Char) :
    digitsValue ('0' :: ds) = digitsValue ds := rfl

@[simp] theorem digitsValue_zeros_append (n : Nat) (ds : List Char) :
    digitsValue (List.replicate n '0' ++ ds) = digitsValue ds := by
  rw [digitsValue_append, digitsValue_zeros, Nat.zero_mul, Nat.zero_add]

theorem digitsValue_lt {ds : List Char} (digits : ∀ c ∈ ds, c.isDigit = true) :
    digitsValue ds < 10 ^ ds.length := by
  induction ds using List.reverseRecOn with
  | nil => exact Nat.one_pos
  | append_singleton ds c ih =>
    have front := ih fun d member => digits d (List.mem_append_left _ member)
    have last : digitsValue [c] < 10 := by
      obtain ⟨-, upper⟩ := Char.isDigit_iff_toNat.mp (digits c (by simp))
      have value : digitsValue [c] = c.toNat - 48 := by simp [digitsValue]
      have nine : '9'.toNat = 57 := rfl
      omega
    rw [digitsValue_append, List.length_append, List.length_singleton, Nat.pow_add, Nat.pow_one]
    omega

theorem digits_toDigits (n : Nat) : Digits (Nat.toDigits 10 n) :=
  ⟨Nat.toDigits_ne_nil, fun _ member =>
    Nat.isDigit_of_mem_toDigits (by decide) (Nat.le_refl 10) member⟩

/-! ## What a numeral denotes -/

/-- The part of a numeral that starts with its point, with the digits after it. -/
inductive PointPart : List Char → List Char → Prop
  | absent : PointPart [] []
  | present {ds : List Char} : Digits ds → PointPart ('.' :: ds) ds

/-- The part of a numeral that gives an exponent of ten, with that exponent. -/
inductive PowerPart : List Char → Int → Prop
  | absent : PowerPart [] 0
  | up {ds : List Char} : Digits ds → PowerPart ('e' :: '+' :: ds) (digitsValue ds)
  | down {ds : List Char} : Digits ds → PowerPart ('e' :: '-' :: ds) (-(digitsValue ds : Int))

/-- The exact value of an unsigned numeral: its digits as a whole number, scaled by a power of ten
    that its exponent raises and each digit after the point lowers. -/
inductive Denotes : List Char → ℚ → Prop
  | numeral {whole point places power : List Char} {exponent : Int} :
    Digits whole → PointPart point places → PowerPart power exponent →
    Denotes (whole ++ (point ++ power))
      (digitsValue (whole ++ places) * 10 ^ (exponent - places.length))

theorem PointPart.digits {point places : List Char} (part : PointPart point places) :
    ∀ c ∈ places, c.isDigit = true := by
  cases part with
  | absent => exact fun c member => nomatch member
  | present digits => exact digits.2

theorem PowerPart.exponent?_eq {power : List Char} {exponent : Int}
    (part : PowerPart power exponent) : exponent? power = some exponent := by
  cases part with
  | absent => rfl
  | up digits | down digits =>
    have all := List.all_eq_true.mpr digits.2
    simp [exponent?, takeSign, digits.1, all]

theorem PowerPart.stops {power : List Char} {exponent : Int} (part : PowerPart power exponent) :
    ∀ c, power.head? = some c → c.isDigit = false := by
  cases part <;> simp

/-- Reading a numeral part by part. -/
theorem decimal?_eq {whole point places power : List Char} {exponent : Int}
    (digits : Digits whole) (fraction : PointPart point places)
    (raised : PowerPart power exponent) :
    decimal? (whole ++ (point ++ power)) = some ⟨digitsValue (whole ++ places),
      clampExponent (1000 + (whole ++ places).length) exponent - places.length⟩ := by
  cases fraction with
  | absent =>
    obtain ⟨taken, dropped⟩ := digits_cut digits power raised.stops
    have read := raised.exponent?_eq
    rw [List.nil_append, decimal?, taken, dropped]
    cases raised <;> simp [digits.1, read]
  | present more =>
    obtain ⟨taken, dropped⟩ := digits_cut digits ('.' :: (places ++ power)) (by simp)
    obtain ⟨moreTaken, moreDropped⟩ := digits_cut more power raised.stops
    simp [decimal?, taken, dropped, moreTaken, moreDropped, digits.1, raised.exponent?_eq]

/-! ## Exponents far out -/

theorem two_pow_le_ten_pow {m n : Nat} (few : m ≤ 3 * n) : (2 : ℚ) ^ m ≤ 10 ^ n :=
  calc (2 : ℚ) ^ m ≤ 2 ^ (3 * n) := pow_le_pow_right₀ (by norm_num) few
    _ = 8 ^ n := by rw [pow_mul]; norm_num
    _ ≤ 10 ^ n := pow_le_pow_left₀ (by norm_num) (by norm_num) n

theorem twice_ten_zpow_le {m n : Nat} (few : m + 1 ≤ 3 * n) :
    2 * (10 : ℚ) ^ (-(n : ℤ)) ≤ 2 ^ (-(m : ℤ)) := by
  rw [zpow_neg, zpow_neg, zpow_natCast, zpow_natCast, ← div_eq_mul_inv,
    div_le_iff₀ (by positivity), inv_mul_eq_div, le_div_iff₀ (by positivity), ← pow_succ']
  exact two_pow_le_ten_pow few

theorem wordValue_infiniteWord : wordValue infiniteWord = 2 ^ (1024 : ℤ) := by
  have field : infiniteWord / leadingBit = 2047 := rfl
  have fraction : infiniteWord % leadingBit = 0 := rfl
  have leading : (leadingBit : ℚ) = 2 ^ (52 : ℤ) := cast_twoTo 52
  rw [wordValue, field, fraction, if_neg (by decide), Nat.add_zero, leading,
    ← zpow_add₀ two_ne_zero]
  rfl

theorem wordValue_one : wordValue 1 = 2 ^ (-1074 : ℤ) := by
  rw [wordValue, if_pos (by decide), Nat.cast_one, one_mul]

/-- A coefficient that is not zero and a large exponent give infinity. -/
theorem nearest_of_large {coefficient : Nat} {exponent : Int} (positive : 0 < coefficient)
    (large : 1000 ≤ exponent) : Nearest (coefficient * 10 ^ exponent) infiniteWord := by
  have one_le : (1 : ℚ) ≤ coefficient := Nat.one_le_cast.mpr positive
  refine nearest_infiniteWord ?_
  calc wordValue infiniteWord = 2 ^ (1024 : ℤ) := wordValue_infiniteWord
    _ ≤ 10 ^ (1000 : ℤ) := two_pow_le_ten_pow (m := 1024) (n := 1000) (by decide)
    _ ≤ 10 ^ exponent := zpow_le_zpow_right₀ (by norm_num) large
    _ ≤ coefficient * 10 ^ exponent := le_mul_of_one_le_left (zpow_nonneg (by norm_num) _) one_le

/-- A coefficient of few digits and a small exponent give zero. -/
theorem nearest_of_small {coefficient length : Nat} {exponent : Int}
    (few : coefficient < 10 ^ length) (small : exponent + length ≤ -1000) :
    Nearest (coefficient * 10 ^ exponent) 0 := by
  have bound : (coefficient : ℚ) < 10 ^ (length : ℤ) := by
    rw [zpow_natCast]
    exact_mod_cast few
  have scale : (0 : ℚ) < 10 ^ exponent := zpow_pos (by norm_num) _
  have product : (10 : ℚ) ^ (length : ℤ) * 10 ^ exponent = 10 ^ (exponent + length) := by
    rw [← zpow_add₀ (by norm_num), add_comm]
  have least : (10 : ℚ) ^ (exponent + length) ≤ 10 ^ (-1000 : ℤ) :=
    zpow_le_zpow_right₀ (by norm_num) small
  refine nearest_zero ?_
  calc 2 * (coefficient * 10 ^ exponent : ℚ) < 2 * (10 ^ (length : ℤ) * 10 ^ exponent) :=
        mul_lt_mul_of_pos_left (mul_lt_mul_of_pos_right bound scale) two_pos
    _ ≤ 2 * 10 ^ (-1000 : ℤ) := mul_le_mul_of_nonneg_left (product.trans_le least) two_pos.le
    _ ≤ 2 ^ (-1074 : ℤ) := twice_ten_zpow_le (m := 1074) (n := 1000) (by decide)
    _ = wordValue 1 := wordValue_one.symm

/-- Bringing an exponent nearer to zero does not change what a numeral is rounded to. -/
theorem nearest_of_clamped {coefficient length places word : Nat} {exponent : Int}
    (few : coefficient < 10 ^ length) (within : places ≤ length)
    (nearest :
      Nearest (coefficient * 10 ^ (clampExponent (1000 + length) exponent - places)) word) :
    Nearest (coefficient * 10 ^ (exponent - places)) word := by
  rcases Nat.eq_zero_or_pos coefficient with rfl | positive
  · simpa using nearest
  rcases lt_or_ge exponent (-(1000 + length : ℕ)) with below | above
  · have clamped : clampExponent (1000 + length) exponent = -(1000 + length : ℕ) := by
      simp only [clampExponent]
      omega
    rw [clamped] at nearest
    rw [nearest.unique (nearest_of_small few (by omega))]
    exact nearest_of_small few (by omega)
  rcases lt_or_ge ((1000 + length : ℕ) : ℤ) exponent with beyond | inside
  · have clamped : clampExponent (1000 + length) exponent = (1000 + length : ℕ) := by
      simp only [clampExponent]
      omega
    rw [clamped] at nearest
    rw [nearest.unique (nearest_of_large positive (by omega))]
    exact nearest_of_large positive (by omega)
  · have clamped : clampExponent (1000 + length) exponent = exponent := by
      simp only [clampExponent]
      omega
    rwa [clamped] at nearest

/-! ## Reading -/

theorem magnitude?_digit {c : Char} {rest : List Char} (digit : c.isDigit = true) :
    magnitude? (c :: rest) = (decimal? (c :: rest)).map Decimal.word := by
  have letterless :
      ("0123456789".toList.all fun c => c.toLower ≠ 'i' ∧ c.toLower ≠ 'n') = true := by
    decide
  have other : c.toLower ≠ 'i' ∧ c.toLower ≠ 'n' := by
    simpa using List.all_eq_true.mp letterless c (digit_mem digit)
  simp [magnitude?, other]

namespace Denotes

variable {cs : List Char} {q : ℚ}

theorem first (denotes : Denotes cs q) : ∃ c rest, cs = c :: rest ∧ c.isDigit = true := by
  cases denotes with
  | numeral digits _ _ =>
    obtain ⟨c, rest, rfl⟩ := List.exists_cons_of_ne_nil digits.1
    exact ⟨c, _, rfl, digits.2 c List.mem_cons_self⟩

theorem mem_numeralCharacters (denotes : Denotes cs q) : ∀ c ∈ cs, c ∈ numeralCharacters := by
  have plain {ds : List Char} (digits : Digits ds) : ∀ c ∈ ds, c ∈ numeralCharacters :=
    fun c member => digit_mem_numeralCharacters (digits.2 c member)
  cases denotes with
  | numeral digits fraction raised =>
    rw [List.forall_mem_append, List.forall_mem_append]
    refine ⟨plain digits, ?_, ?_⟩
    · cases fraction with
      | absent => simp
      | present more => exact List.forall_mem_cons.mpr ⟨by decide, plain more⟩
    · cases raised with
      | absent => simp
      | up more | down more =>
        exact List.forall_mem_cons.mpr ⟨by decide, List.forall_mem_cons.mpr ⟨by decide, plain more⟩⟩

/-- The decimal that is read has the same nearest word as the exact value. -/
theorem decimal?_nearest (denotes : Denotes cs q) :
    ∃ d, decimal? cs = some d ∧ Nearest q d.word := by
  cases denotes with
  | numeral digits fraction raised =>
    have all := List.forall_mem_append.mpr ⟨digits.2, fraction.digits⟩
    exact ⟨_, decimal?_eq digits fraction raised,
      nearest_of_clamped (digitsValue_lt all) (by simp) (Decimal.nearest_word ⟨_, _⟩)⟩

theorem magnitude?_eq (denotes : Denotes cs q) {word : Nat} (nearest : Nearest q word) :
    magnitude? cs = some word := by
  obtain ⟨d, decimal, rounded⟩ := denotes.decimal?_nearest
  obtain ⟨c, rest, rfl, digit⟩ := denotes.first
  rw [magnitude?_digit digit, decimal, Option.map_some, nearest.unique rounded]

end Denotes

/-- Correctly rounded conversion of a numeral, with or without a minus before it. -/
inductive Reads : List Char → Float → Prop
  | positive {cs : List Char} {q : ℚ} {word : Nat} :
    Denotes cs q → Nearest q word → Reads cs (ofWord false word)
  | negative {cs : List Char} {q : ℚ} {word : Nat} :
    Denotes cs q → Nearest q word → Reads ('-' :: cs) (ofWord true word)

/-- The reader of numbers converts correctly. -/
theorem Reads.read?_eq {text : String} {x : Float} (reads : Reads text.toList x) :
    read? text = some x := by
  generalize chars : text.toList = cs at reads
  cases reads with
  | positive denotes nearest =>
    obtain ⟨c, rest, same, digit⟩ := denotes.first
    have all := denotes.mem_numeralCharacters
    rw [← chars] at all
    rw [read?_plain all, chars, same, takeSign_digit digit, ← same, denotes.magnitude?_eq nearest]
    rfl
  | negative denotes nearest =>
    have all := List.forall_mem_cons.mpr
      ⟨(by decide : '-' ∈ numeralCharacters), denotes.mem_numeralCharacters⟩
    rw [← chars] at all
    rw [read?_plain all, chars, takeSign, denotes.magnitude?_eq nearest]
    rfl

end BraceScript.Number
