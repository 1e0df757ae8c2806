import BraceScript.Proofs.Number.Shortest
import Mathlib

/-!
# The text of a number is exact and reads back

The text of a whole number is its decimal expansion, and that of any other finite number has as few
digits as there can be. Correctly rounded conversion of the text of any finite number gives its
bits, but for the sign of zero, which is not written.
-/

namespace BraceScript.Number

open Lexical

/-! ## Whole magnitudes -/

/-- The decimal expansion of a natural number: digits of which the first one is zero only if it is
    the only one. -/
structure Expansion (n : Nat) (ds : List Char) : Prop where
  digits : Digits ds
  value : digitsValue ds = n
  leading : ds.head? = some '0' → ds = ['0']

theorem expansion_toDigits (n : Nat) : Expansion n (Nat.toDigits 10 n) where
  digits := digits_toDigits n
  value := digitsValue_toDigits n
  leading leading := by
    obtain ⟨rest, same⟩ := List.head?_eq_some_iff.mp leading
    have value := digitsValue_toDigits n
    have all := (digits_toDigits n).2
    rw [same] at value all ⊢
    have bound := digitsValue_lt fun c member => all c (List.mem_cons_of_mem _ member)
    rw [← digitsValue_zero_cons, value] at bound
    rcases Nat.eq_zero_or_pos rest.length with empty | positive
    · rw [List.length_eq_zero_iff.mp empty]
    · have short := (Nat.length_toDigits_le_iff (by decide) positive).mpr bound
      rw [same, List.length_cons] at short
      omega

/-- A finite magnitude that is whole has up to 309 digits. -/
theorem toDigits_length_le {word n : Nat} (finite : word < infiniteWord)
    (whole : wordValue word = n) : (Nat.toDigits 10 n).length ≤ 309 := by
  have powers : 2 ^ 1024 ≤ 10 ^ 309 := by decide +kernel
  have bound := wordValue_strictMono finite
  rw [whole, wordValue_infiniteWord] at bound
  have fits {width : Nat} (positive : 0 < width) (below : n < 10 ^ width) :
      (Nat.toDigits 10 n).length ≤ width :=
    (Nat.length_toDigits_le_iff (by decide) positive).mpr below
  refine fits (by decide) (Nat.lt_of_lt_of_le ?_ powers)
  exact_mod_cast bound

/-! ## Signs -/

/-- The value of a number with a given sign and finite magnitude word. -/
def signedValue (negative : Bool) (word : Nat) : ℚ :=
  if negative then -wordValue word else wordValue word

theorem wordText_finite {negative : Bool} {word : Nat} (finite : word < infiniteWord) :
    (wordText negative word).toList =
      (if negative && word ≠ 0 then ['-'] else []) ++ magnitudeText word := by
  rw [wordText, if_neg finite.le.not_gt, if_neg finite.ne, String.toList_ofList]

theorem wordText_reads {negative : Bool} {word : Nat} (finite : word < infiniteWord) :
    Reads (wordText negative word).toList (ofWord (negative && word ≠ 0) word) := by
  obtain ⟨q, denotes, nearest⟩ := magnitudeText_denotes finite
  rw [wordText_finite finite]
  cases negative && word ≠ 0 with
  | true => exact .negative denotes nearest
  | false => exact .positive denotes nearest

/-- The size and the sign of a number whose value is an integer. -/
theorem signedValue_whole {negative : Bool} {word : Nat} {n : Int}
    (value : signedValue negative word = n) :
    wordValue word = n.natAbs ∧ (negative && word ≠ 0) = decide (n < 0) := by
  have nonneg := wordValue_nonneg word
  cases negative with
  | false =>
    have same : wordValue word = n := value
    have natural : 0 ≤ n := by
      rw [same] at nonneg
      exact_mod_cast nonneg
    refine ⟨?_, by simpa using natural⟩
    rw [same, Nat.cast_natAbs, abs_of_nonneg natural]
  | true =>
    have same : wordValue word = -n := neg_eq_iff_eq_neg.mp value
    have opposite : n ≤ 0 := by
      rw [same] at nonneg
      exact_mod_cast neg_nonneg.mp nonneg
    constructor
    · rw [same, Nat.cast_natAbs, abs_of_nonpos opposite, Int.cast_neg]
    · have zero : word = 0 ↔ n = 0 := by
        rw [← wordValue_eq_zero_iff, same, neg_eq_zero, Int.cast_eq_zero]
      rw [Bool.true_and, decide_eq_decide, ne_eq, zero]
      omega

theorem wordText_whole {negative : Bool} {word : Nat} (finite : word < infiniteWord) {n : Int}
    (value : signedValue negative word = n) :
    ∃ ds, (wordText negative word).toList = (if n < 0 then ['-'] else []) ++ ds ∧
      Expansion n.natAbs ds ∧ ds.length ≤ 309 := by
  obtain ⟨whole, sign⟩ := signedValue_whole value
  refine ⟨_, ?_, expansion_toDigits n.natAbs, toDigits_length_le finite whole⟩
  rw [wordText_finite finite, magnitudeText_whole whole, sign]
  simp

theorem wordText_fractional {negative : Bool} {word : Nat} (finite : word < infiniteWord)
    (fractional : ¬ ∃ n : ℤ, signedValue negative word = n) :
    ∃ d, Shortest word d ∧ (wordText negative word).toList =
      (if signedValue negative word < 0 then ['-'] else []) ++ layout.write d := by
  have size : ¬ ∃ n : ℕ, wordValue word = n := by
    rintro ⟨n, whole⟩
    refine fractional ⟨if negative then -n else n, ?_⟩
    rw [signedValue, whole]
    cases negative <;> simp
  have nonzero : word ≠ 0 := by
    rintro rfl
    exact size ⟨0, by simp⟩
  have positive := Nat.pos_of_ne_zero nonzero
  have above : 0 < wordValue word := by simpa using wordValue_strictMono positive
  have sign : (negative && word ≠ 0) = decide (signedValue negative word < 0) := by
    cases negative <;> simp [signedValue, nonzero, above, above.le]
  refine ⟨shortest word, shortest_least positive finite, ?_⟩
  rw [wordText_finite finite, magnitudeText_fractional size, sign]
  simp

/-! ## Bits -/

/-- Whether the bits are those of a finite number. -/
def FiniteBits (bits : UInt64) : Prop := bits.toNat % signBit < infiniteWord

instance (bits : UInt64) : Decidable (FiniteBits bits) := Nat.decLt _ _

/-- The value of a finite number, by its bits. -/
def bitsValue (bits : UInt64) : ℚ :=
  signedValue (signBit ≤ bits.toNat) (bits.toNat % signBit)

theorem toBits_ofBits {bits : UInt64} (finite : FiniteBits bits) :
    (Float.ofBits bits).toBits = bits := by
  have valid : Float.Model.Format.binary64.Valid bits.toBitVec := by
    refine ⟨fun exponent => absurd (congrArg BitVec.toNat exponent) ?_⟩
    have sign : signBit = 9223372036854775808 := rfl
    have infinite : infiniteWord = 9218868437227405312 := rfl
    rw [FiniteBits, sign, infinite] at finite
    change bits.toNat >>> 52 % 2048 ≠ 2047
    omega
  -- Only the library as a whole has this lemma on floats, which is why it is imported as a whole.
  exact congrArg Float.toBits (Float.ofBits_toBits ⟨⟨bits, valid⟩⟩)

/-- The text of a finite number, by its bits. -/
theorem text_ofBits {bits : UInt64} (finite : FiniteBits bits) :
    text (Float.ofBits bits) = wordText (signBit ≤ bits.toNat) (bits.toNat % signBit) := by
  rw [text, isNegative, magnitude, toBits_ofBits finite]

theorem bitsValue_eq_zero_iff {bits : UInt64} :
    bitsValue bits = 0 ↔ bits.toNat % signBit = 0 := by
  rw [bitsValue, signedValue, ← wordValue_eq_zero_iff]
  split
  · exact neg_eq_zero
  · exact Iff.rfl

theorem ofWord_bits (bits : UInt64) :
    ofWord (signBit ≤ bits.toNat) (bits.toNat % signBit) = Float.ofBits bits := by
  have sign : signBit = 9223372036854775808 := rfl
  have size := bits.toNat_lt
  have joined : (if decide (signBit ≤ bits.toNat) = true then signBit + bits.toNat % signBit
      else bits.toNat % signBit) = bits.toNat := by
    rw [sign]
    grind
  rw [ofWord, joined, UInt64.ofNat_toNat]

/-- A number is put together from its sign and its magnitude, but for the sign of zero. -/
theorem toBits_ofWord {bits : UInt64} (finite : FiniteBits bits) :
    (ofWord (signBit ≤ bits.toNat && bits.toNat % signBit ≠ 0) (bits.toNat % signBit)).toBits =
      if bitsValue bits = 0 then 0 else bits := by
  split
  · next zero =>
    rw [bitsValue_eq_zero_iff.mp zero]
    have least : FiniteBits 0 := by decide
    simpa [ofWord] using toBits_ofBits least
  · next nonzero =>
    have positive : bits.toNat % signBit ≠ 0 := mt bitsValue_eq_zero_iff.mpr nonzero
    rw [decide_eq_true positive, Bool.and_true, ofWord_bits, toBits_ofBits finite]

/-- The text of a finite number reads as that number, and the text of either zero as zero. -/
theorem text_reads {bits : UInt64} (finite : FiniteBits bits) :
    ∃ x, Reads (text (Float.ofBits bits)).toList x ∧
      x.toBits = if bitsValue bits = 0 then 0 else bits := by
  rw [text_ofBits finite]
  exact ⟨_, wordText_reads finite, toBits_ofWord finite⟩

theorem Reads.unique {text : String} {x y : Float} (one : Reads text.toList x)
    (two : Reads text.toList y) : x = y :=
  Option.some.inj (one.read?_eq.symm.trans two.read?_eq)

/-- **Number text is exact and reads back.** A finite number whose value is an integer is written
    as the expansion of that integer, and any other with as few digits as there can be. Correctly
    rounded conversion of the text of any finite number gives the bits of the number, and those of
    zero for either zero; the reader of numbers computes it. So numbers other than zero with the
    same text are equal. -/
theorem text_exact (bits : UInt64) (finite : FiniteBits bits) :
    (∀ n : ℤ, bitsValue bits = n →
      ∃ ds, (text (Float.ofBits bits)).toList = (if n < 0 then ['-'] else []) ++ ds ∧
        Expansion n.natAbs ds ∧ ds.length ≤ 309) ∧
    ((¬ ∃ n : ℤ, bitsValue bits = n) →
      ∃ d, Shortest (bits.toNat % signBit) d ∧ (text (Float.ofBits bits)).toList =
        (if bitsValue bits < 0 then ['-'] else []) ++ layout.write d) ∧
    (∀ y : Float, Reads (text (Float.ofBits bits)).toList y ↔
      y.toBits = if bitsValue bits = 0 then 0 else bits) ∧
    (read? (text (Float.ofBits bits))).map Float.toBits =
      some (if bitsValue bits = 0 then 0 else bits) ∧
    (∀ other, FiniteBits other → bitsValue bits ≠ 0 → bitsValue other ≠ 0 →
      text (Float.ofBits bits) = text (Float.ofBits other) → bits = other) := by
  obtain ⟨x, reads, same⟩ := text_reads finite
  refine ⟨fun n value => ?_, fun fractional => ?_, fun y => ⟨fun also => ?_, fun equal => ?_⟩, ?_,
    ?_⟩
  · rw [text_ofBits finite]
    exact wordText_whole finite value
  · rw [text_ofBits finite]
    exact wordText_fractional finite fractional
  · rw [also.unique reads, same]
  · rwa [Float.toBits_inj.mp (equal.trans same.symm)]
  · rw [reads.read?_eq, Option.map_some, same]
  · intro other also nonzero otherNonzero texts
    obtain ⟨y, otherReads, otherSame⟩ := text_reads also
    rw [← texts] at otherReads
    rw [if_neg nonzero] at same
    rw [if_neg otherNonzero] at otherSame
    rw [← same, ← otherSame, reads.unique otherReads]

example : wordText true 1 = "-5e-324" := by decide +kernel

example : wordText false 0x44b52d02c7e14af6 = "99999999999999991611392" := by decide +kernel

/-- The first whole number past two to the 53, with a minus sign, and a tenth, which has no finite
    expansion in binary. -/
theorem text_exact_large :
    let whole : UInt64 := 0xc340000000000001
    let tenth : UInt64 := 0x3fb999999999999a
    (FiniteBits whole ∧ bitsValue whole = (-9007199254740994 : ℤ) ∧
      (∃ ds, (text (Float.ofBits whole)).toList = '-' :: ds ∧ Expansion 9007199254740994 ds) ∧
      (read? (text (Float.ofBits whole))).map Float.toBits = some whole) ∧
    (FiniteBits tenth ∧ text (Float.ofBits tenth) = "0.1" ∧
      (read? (text (Float.ofBits tenth))).map Float.toBits = some tenth) := by
  intro whole tenth
  constructor
  · have finite : FiniteBits whole := by decide
    have value : bitsValue whole = (-9007199254740994 : ℤ) := by
      have word : whole.toNat % signBit = 4845873199050653697 := by decide
      have negative : decide (signBit ≤ whole.toNat) = true := rfl
      rw [bitsValue, negative, word, signedValue, wordValue]
      norm_num [leadingBit_eq]
    obtain ⟨exact, -, -, reads, -⟩ := text_exact whole finite
    obtain ⟨ds, written, expansion, -⟩ := exact _ value
    refine ⟨finite, value, ⟨ds, written, expansion⟩, ?_⟩
    rw [reads, if_neg]
    rw [value]
    norm_num
  · have finite : FiniteBits tenth := by decide
    have nonzero : bitsValue tenth ≠ 0 := mt bitsValue_eq_zero_iff.mp (by decide)
    obtain ⟨-, -, -, reads, -⟩ := text_exact tenth finite
    refine ⟨finite, ?_, by rw [reads, if_neg nonzero]⟩
    rw [text_ofBits finite]
    decide +kernel

end BraceScript.Number
