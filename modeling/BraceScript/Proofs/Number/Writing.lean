import BraceScript.Number.Text
import BraceScript.Proofs.Number.Reading

/-!
# Writing a decimal keeps its value

Each layout of a decimal denotes the value of the decimal: its digits stand around the point or have
an exponent after them, and the zeros that are cut off or filled in are made up for by the place of
the point. So the text of a finite magnitude denotes a number that is rounded to this magnitude: the
magnitude itself if it is whole, and otherwise its shortest decimal.
-/

namespace BraceScript.Number

open Lexical

/-! ## Layouts -/

/-- The value of digits of which the first one has the given exponent. -/
def leadingValue (digits : List Char) (exponent : Int) : ℚ :=
  digitsValue digits * 10 ^ (exponent + 1 - digits.length)

theorem withPoint_denotes {whole fraction power : List Char} {exponent : Int} {q : ℚ}
    (digits : Digits whole) (more : ∀ c ∈ fraction, c.isDigit = true)
    (raised : PowerPart power exponent)
    (value : digitsValue (whole ++ fraction) * 10 ^ (exponent - fraction.length) = q) :
    Denotes (withPoint whole fraction ++ power) q := by
  subst value
  rw [withPoint]
  split
  · next empty =>
    obtain rfl := List.isEmpty_iff.mp empty
    exact .numeral digits .absent raised
  · next present =>
    rw [List.append_assoc]
    exact .numeral digits (.present ⟨mt List.isEmpty_iff.mpr present, more⟩) raised

theorem pointed_denotes {whole fraction : List Char} {q : ℚ} (digits : Digits whole)
    (more : ∀ c ∈ fraction, c.isDigit = true)
    (value : digitsValue (whole ++ fraction) * 10 ^ (-(fraction.length : ℤ)) = q) :
    Denotes (withPoint whole fraction) q := by
  rw [← zero_sub] at value
  rw [← List.append_nil (withPoint _ _)]
  exact withPoint_denotes digits more .absent value

/-- Digits of which so many stand before the point, with zeros in the place of those that are
    missing there. -/
theorem aroundPoint_denotes {ds : List Char} (digits : Digits ds) {width : Nat}
    (positive : 0 < width) :
    Denotes (withPoint (ds.take width ++ List.replicate (width - ds.length) '0') (ds.drop width))
      (digitsValue ds * 10 ^ ((width : ℤ) - ds.length)) := by
  rcases Nat.le_total ds.length width with short | long
  · have whole : Digits (ds ++ List.replicate (width - ds.length) '0') :=
      ⟨by simp [digits.1], List.forall_mem_append.mpr ⟨digits.2, isDigit_of_mem_zeros⟩⟩
    rw [List.take_of_length_le short, List.drop_of_length_le short]
    refine pointed_denotes whole (by simp) ?_
    rw [List.append_nil, digitsValue_append, digitsValue_zeros, List.length_replicate, Nat.add_zero,
      Nat.cast_mul, Nat.cast_pow, ← Nat.cast_sub short, zpow_natCast]
    simp
  · have whole : Digits (ds.take width) :=
      ⟨by simp [digits.1, positive.ne'], fun c member => digits.2 c (List.mem_of_mem_take member)⟩
    rw [Nat.sub_eq_zero_of_le long, List.replicate_zero, List.append_nil]
    refine pointed_denotes whole (fun c member => digits.2 c (List.mem_of_mem_drop member)) ?_
    rw [List.take_append_drop, List.length_drop, Nat.cast_sub long, neg_sub]

theorem positional_denotes {ds : List Char} (digits : Digits ds) (exponent : Int) :
    Denotes (positional ds exponent) (leadingValue ds exponent) := by
  rw [positional, leadingValue]
  split
  · next negative =>
    refine pointed_denotes ⟨by simp, by simp⟩
      (List.forall_mem_append.mpr ⟨isDigit_of_mem_zeros, digits.2⟩) ?_
    rw [List.singleton_append, digitsValue_zero_cons, digitsValue_zeros_append,
      List.length_append, List.length_replicate]
    congr 2
    omega
  · next nonneg =>
    obtain ⟨n, rfl⟩ := Int.eq_ofNat_of_zero_le (Int.not_lt.mp nonneg)
    exact aroundPoint_denotes digits (Nat.succ_pos n)

/-- An exponent is written with its sign and with zeros in front up to a width. -/
theorem powerPart_written (width : Nat) (exponent : Int) :
    PowerPart ('e' :: (if exponent < 0 then '-' else '+') ::
      (List.replicate (width - (Nat.toDigits 10 exponent.natAbs).length) '0' ++
        Nat.toDigits 10 exponent.natAbs)) exponent := by
  generalize width - (Nat.toDigits 10 exponent.natAbs).length = missing
  have size := digits_toDigits exponent.natAbs
  have written : Digits (List.replicate missing '0' ++ Nat.toDigits 10 exponent.natAbs) :=
    ⟨by simp, List.forall_mem_append.mpr ⟨isDigit_of_mem_zeros, size.2⟩⟩
  have value : digitsValue (List.replicate missing '0' ++ Nat.toDigits 10 exponent.natAbs) =
      exponent.natAbs := by
    rw [digitsValue_zeros_append, digitsValue_toDigits]
  split
  · next negative =>
    convert PowerPart.down written
    omega
  · next nonneg =>
    convert PowerPart.up written
    omega

theorem scientific_denotes (width : Nat) {ds : List Char} (digits : Digits ds) (exponent : Int) :
    Denotes (scientific width ds exponent) (leadingValue ds exponent) := by
  obtain ⟨c, rest, rfl⟩ := List.exists_cons_of_ne_nil digits.1
  obtain ⟨digit, more⟩ := List.forall_mem_cons.mp digits.2
  rw [scientific, leadingValue, List.append_assoc]
  refine withPoint_denotes ⟨by simp, by simp [digit]⟩ more (powerPart_written width exponent) ?_
  rw [List.take_append_drop, List.length_cons, Nat.cast_succ, add_sub_add_right_eq_sub]
  rfl

/-- Cutting the zeros at the end of a text leaves its digits but for these zeros. -/
theorem stripped_append_zeros (cs : List Char) :
    ∃ n, (cs.reverse.dropWhile (· = '0')).reverse ++ List.replicate n '0' = cs := by
  obtain ⟨n, zeros⟩ : ∃ n, cs.reverse.takeWhile (· = '0') = List.replicate n '0' :=
    ⟨_, List.eq_replicate_of_mem fun c member =>
      of_decide_eq_true (List.all_eq_true.mp List.all_takeWhile c member)⟩
  refine ⟨n, ?_⟩
  rw [← List.reverse_replicate, ← zeros, ← List.reverse_append, List.takeWhile_append_dropWhile,
    List.reverse_reverse]

/-- The digits of a decimal and the exponent of the first one have the value of the decimal. -/
theorem Decimal.digits_spec {d : Decimal} (positive : 0 < d.coefficient) :
    Digits d.digits.1 ∧ leadingValue d.digits.1 d.digits.2 = d.value := by
  obtain ⟨n, joined⟩ := stripped_append_zeros (Nat.toDigits 10 d.coefficient)
  have all := digits_toDigits d.coefficient
  have value := digitsValue_toDigits d.coefficient
  simp only [digits]
  generalize ((Nat.toDigits 10 d.coefficient).reverse.dropWhile (· = '0')).reverse = ds at *
  rw [← joined] at all value
  rw [digitsValue_append, digitsValue_zeros, Nat.add_zero, List.length_replicate] at value
  refine ⟨⟨?_, fun c member => all.2 c (List.mem_append_left _ member)⟩, ?_⟩
  · rintro rfl
    rw [show digitsValue [] = 0 from rfl, Nat.zero_mul] at value
    exact positive.ne value
  · rw [leadingValue, Decimal.value, ← joined, ← value, List.length_append, List.length_replicate]
    push_cast
    rw [mul_assoc, ← zpow_natCast, ← zpow_add₀ (by norm_num)]
    congr 2
    ring

theorem write_denotes (style : Layout) {d : Decimal} (positive : 0 < d.coefficient) :
    Denotes (style.write d) d.value := by
  obtain ⟨digits, value⟩ := Decimal.digits_spec positive
  rw [Layout.write, ← value]
  generalize d.digits = parts at *
  obtain ⟨ds, exponent⟩ := parts
  dsimp only at *
  split
  · exact positional_denotes digits _
  · exact scientific_denotes _ digits _

/-! ## Magnitudes -/

theorem toDigits_denotes (n : Nat) : Denotes (Nat.toDigits 10 n) n := by
  have denotes := Denotes.numeral (digits_toDigits n) .absent .absent
  simpa using denotes

/-- A whole magnitude is written with all its digits. -/
theorem magnitudeText_whole {word n : Nat} (whole : wordValue word = n) :
    magnitudeText word = Nat.toDigits 10 n := by
  have positive : 0 < unitsPerOne := twoTo_pos 1074
  rw [wordValue_eq_natCast_iff] at whole
  rw [magnitudeText, whole, if_pos (Nat.mul_mod_left n unitsPerOne),
    Nat.mul_div_cancel n positive]

/-- Any other magnitude is written with the digits of its shortest decimal. -/
theorem magnitudeText_fractional {word : Nat} (fractional : ¬ ∃ n : ℕ, wordValue word = n) :
    magnitudeText word = layout.write (shortest word) := by
  rw [magnitudeText, if_neg]
  intro whole
  obtain ⟨n, same⟩ := Nat.dvd_of_mod_eq_zero whole
  exact fractional ⟨n, wordValue_eq_natCast_iff.mpr (by rw [same, Nat.mul_comm])⟩

/-- The text of a magnitude denotes a number that is rounded to the magnitude. -/
theorem magnitudeText_denotes {word : Nat} (finite : word < infiniteWord) :
    ∃ q, Denotes (magnitudeText word) q ∧ Nearest q word := by
  by_cases whole : ∃ n : ℕ, wordValue word = n
  · obtain ⟨n, value⟩ := whole
    have exactly := nearest_wordValue finite.le
    rw [value] at exactly
    rw [magnitudeText_whole value]
    exact ⟨n, toDigits_denotes n, exactly⟩
  · have positive : 0 < word := by
      refine Nat.pos_of_ne_zero ?_
      rintro rfl
      exact whole ⟨0, by simp⟩
    rw [magnitudeText_fractional whole]
    exact ⟨_, write_denotes layout (shortest_positive positive finite), shortest_nearest finite⟩

end BraceScript.Number
