import Mathlib.Algebra.Group.Nat.Defs
import Arbor.Emit.Expression
import Arbor.Proofs.Rounding

/-!
# Numbers read back

An emitted number can be read back from its characters. The digits of a double around its point,
taken as a quotient of whole numbers, have the value of its shortest digits, and these round to the
double they were written for.
-/

namespace Arbor

namespace Reading

/-- The character occurs in written numbers. -/
def isNumeral (c : Char) : Bool :=
  c.isDigit || c == '.' || c == '-'

/-- The digits around a point as a quotient of whole numbers. -/
def fraction (text : List Char) : Nat × Nat :=
  let places := (text.dropWhile (· != '.')).drop 1
  (Nat.ofDigitChars 10 (text.takeWhile (· != '.') ++ places) 0, 10 ^ places.length)

/-- The text without a sign. -/
def unsigned (text : List Char) : List Char :=
  text.dropWhile (· == '-')

/-- The double that is written so. -/
def double? (text : List Char) : Option Binary64 :=
  Binary64.ofRatio (text.head? == some '-') (fraction (unsigned text)).1 (fraction (unsigned text)).2

/-- The whole number that is written so. -/
def int (text : List Char) : Int64 :=
  let magnitude : Nat := Nat.ofDigitChars 10 (unsigned text) 0
  Int64.ofInt (if text.head? == some '-' then -magnitude else magnitude)

variable {digits : List Char}

theorem not_point_of_isDigit {c : Char} (digit : c.isDigit) : (c != '.') = true := by
  rw [bne_iff_ne]
  rintro rfl
  simp at digit

theorem fraction_point (all : ∀ c ∈ digits, c.isDigit) (places : List Char) :
    fraction (digits ++ '.' :: places) =
      (Nat.ofDigitChars 10 (digits ++ places) 0, 10 ^ places.length) := by
  have before : ∀ c ∈ digits, (c != '.') = true := fun c member => not_point_of_isDigit (all c member)
  simp [fraction, List.takeWhile_append_of_pos before, List.dropWhile_append_of_pos before]

theorem fraction_whole (all : ∀ c ∈ digits, c.isDigit) :
    fraction digits = (Nat.ofDigitChars 10 digits 0, 1) := by
  have before : ∀ c ∈ digits, (c != '.') = true := fun c member => not_point_of_isDigit (all c member)
  have whole := @List.takeWhile_append_of_pos _ _ digits [] before
  have rest := @List.dropWhile_append_of_pos _ _ digits [] before
  simp only [List.append_nil] at whole rest
  simp [fraction, whole, rest]

/-- Digits that stand in place have the value of the digits at the power of ten of the last. -/
theorem fraction_placed (all : ∀ c ∈ digits, c.isDigit) (power : Int) :
    (fraction (Emit.numberStyle.placed digits power)).1 * 10 ^ (digits.length - (power + 1)).toNat =
      Nat.ofDigitChars 10 digits 0 * 10 ^ (power + 1 - digits.length).toNat *
        (fraction (Emit.numberStyle.placed digits power)).2 := by
  unfold NumberStyle.placed
  by_cases small : power < 0
  · have zero : ∀ c ∈ ['0'], c.isDigit := by simp
    have value : Nat.ofDigitChars 10 ('0' :: (NumberStyle.zeros (-power - 1).toNat ++ digits)) 0 =
        Nat.ofDigitChars 10 digits 0 := by
      simp [NumberStyle.zeros, Nat.ofDigitChars_cons, Nat.ofDigitChars_append]
    have places : (digits.length - (power + 1)).toNat =
        (NumberStyle.zeros (-power - 1).toNat ++ digits).length := by
      simp only [NumberStyle.zeros, List.length_append, List.length_replicate]
      omega
    have up : (power + 1 - digits.length).toNat = 0 := by omega
    have read := fraction_point zero (NumberStyle.zeros (-power - 1).toNat ++ digits)
    rw [List.singleton_append, List.singleton_append, value] at read
    rw [if_pos small, read, up, places]
    simp
  · obtain ⟨whole, rfl⟩ : ∃ whole : Nat, power = whole := ⟨power.toNat, by omega⟩
    rw [if_neg small]
    dsimp only [Int.toNat_natCast]
    by_cases fits : digits.length ≤ whole + 1
    · have front : digits.take (whole + 1) = digits := List.take_of_length_le fits
      have rest : digits.drop (whole + 1) = [] := List.drop_of_length_le fits
      have allFront : ∀ c ∈ digits ++ NumberStyle.zeros (whole + 1 - digits.length), c.isDigit := by
        intro c member
        rcases List.mem_append.mp member with member | member
        · exact all c member
        · rw [List.eq_of_mem_replicate member]
          rfl
      have down : (digits.length - ((whole : Int) + 1)).toNat = 0 := by omega
      have up : ((whole : Int) + 1 - digits.length).toNat = whole + 1 - digits.length := by omega
      rw [front, rest, down, up]
      simp only [Emit.numberStyle, Bool.false_eq_true, if_false]
      rw [fraction_whole allFront, Nat.ofDigitChars_append, NumberStyle.zeros,
        Nat.ofDigitChars_replicate_zero]
      simp [Nat.mul_comm]
    · have none : whole + 1 - digits.length = 0 := by omega
      have down : (digits.length - ((whole : Int) + 1)).toNat = (digits.drop (whole + 1)).length := by
        rw [List.length_drop]
        omega
      have up : ((whole : Int) + 1 - digits.length).toNat = 0 := by omega
      have front : ∀ c ∈ digits.take (whole + 1), c.isDigit :=
        fun c member => all c (List.mem_of_mem_take member)
      rw [none, NumberStyle.zeros, List.replicate_zero, List.append_nil]
      split
      · next rest => simp [List.drop_eq_nil_iff] at rest; omega
      · rw [fraction_point front, List.take_append_drop, up, down]
        simp

theorem fraction_pos (text : List Char) : 0 < (fraction text).2 :=
  Nat.pow_pos (by decide)

/-- Zeros at the end are trimmed and nothing else. -/
theorem exists_trimZeros (text : List Char) :
    ∃ count, text = NumberStyle.trimZeros text ++ NumberStyle.zeros count := by
  refine ⟨(text.reverse.takeWhile (· == '0')).length, ?_⟩
  have same : text.reverse.takeWhile (· == '0') =
      NumberStyle.zeros (text.reverse.takeWhile (· == '0')).length := by
    rw [NumberStyle.zeros, List.eq_replicate_iff]
    refine ⟨rfl, fun c member => ?_⟩
    simpa using List.all_eq_true.mp List.all_takeWhile c member
  have split := congrArg List.reverse (@List.takeWhile_append_dropWhile _ (· == '0') text.reverse)
  rw [List.reverse_append, List.reverse_reverse, same, NumberStyle.zeros, List.reverse_replicate]
    at split
  exact split.symm

theorem scale_powers {n v f a b c up down : Nat} (same : n * 10 ^ a = v * 10 ^ b * f)
    (powers : b + down = c + up + a) : n * 10 ^ down = v * 10 ^ c * 10 ^ up * f := by
  apply Nat.eq_of_mul_eq_mul_right (Nat.pow_pos (by decide : 0 < 10) : 0 < 10 ^ a)
  calc n * 10 ^ down * 10 ^ a
    _ = v * 10 ^ b * f * 10 ^ down := by rw [Nat.mul_right_comm, same]
    _ = v * f * 10 ^ (b + down) := by rw [Nat.pow_add]; ac_rfl
    _ = v * f * 10 ^ (c + up + a) := by rw [powers]
    _ = v * 10 ^ c * 10 ^ up * f * 10 ^ a := by rw [Nat.pow_add, Nat.pow_add]; ac_rfl

/-- The magnitude of a double rounds to it, read as a quotient. -/
theorem ofRatio_fraction (x : Binary64) :
    Binary64.ofRatio x.negative (fraction (Emit.numberStyle.magnitude x)).1
      (fraction (Emit.numberStyle.magnitude x)).2 = some x := by
  unfold NumberStyle.magnitude
  by_cases zero : x.rank = 0
  · have nothing : x.units = 0 := by simp [Binary64.units, zero]
    have rank : Binary64.rankOf 0 1 = x.rank :=
      Binary64.rankOf_units x (by decide) (by rw [nothing, Nat.zero_mul, Nat.zero_mul])
    have read : fraction ['0'] = (0, 1) := fraction_whole (by simp)
    rw [if_pos zero]
    simp only [Emit.numberStyle, Bool.false_eq_true, if_false, read, Binary64.ofRatio, rank,
      x.rank_lt, dif_pos]
  · rw [if_neg zero, ← Decimal.nearest?_shortest Emit.numberStyle.tie x]
    generalize Decimal.shortest Emit.numberStyle.tie x = decimal
    obtain ⟨value, exponent⟩ := decimal
    obtain ⟨count, trimmed⟩ := exists_trimZeros (Nat.toDigits 10 value)
    have all : ∀ c ∈ NumberStyle.trimZeros (Nat.toDigits 10 value), c.isDigit := by
      intro c member
      refine @Nat.isDigit_of_mem_toDigits 10 value c (by decide) (by decide) ?_
      rw [trimmed]
      exact List.mem_append_left _ member
    have length := congrArg List.length trimmed
    have digits : value = Nat.ofDigitChars 10 (NumberStyle.trimZeros (Nat.toDigits 10 value)) 0 *
        10 ^ count := by
      have whole := @Nat.ofDigitChars_ten_toDigits value
      rw [trimmed, Nat.ofDigitChars_append, NumberStyle.zeros, Nat.ofDigitChars_replicate_zero]
        at whole
      rw [Nat.mul_comm, whole]
    dsimp only
    rw [if_pos (by rfl)]
    generalize NumberStyle.trimZeros (Nat.toDigits 10 value) = kept at *
    rw [List.length_append, NumberStyle.zeros, List.length_replicate] at length
    refine Binary64.ofRatio_congr _ (fraction_pos _) (Nat.pow_pos (by decide)) ?_
    have scaled := @scale_powers _ _ _ _ _ count exponent.toNat (-exponent).toNat
      (fraction_placed all (exponent + (Nat.toDigits 10 value).length - 1)) (by omega)
    rw [← digits] at scaled
    exact scaled

/-! ## The characters of a number -/

/-- The text is digits, perhaps around a point. -/
structure Magnitude (text : List Char) : Prop where
  head : ∃ c rest, text = c :: rest ∧ c.isDigit
  all : ∀ c ∈ text, c.isDigit ∨ c = '.'

/-- The text is digits, perhaps around a point and behind a sign. -/
inductive Numeral : List Char → Prop where
  | plain {text : List Char} : Magnitude text → Numeral text
  | signed {text : List Char} : Magnitude text → Numeral ('-' :: text)

theorem Numeral.all {numeral : List Char} (isNumber : Numeral numeral) :
    ∀ c ∈ numeral, isNumeral c := by
  have inner {text : List Char} (magnitude : Magnitude text) : ∀ c ∈ text, isNumeral c := by
    intro c member
    rcases magnitude.all c member with digit | rfl
    · simp [isNumeral, digit]
    · rfl
  cases isNumber with
  | plain magnitude => exact inner magnitude
  | signed magnitude =>
    intro c member
    rcases List.mem_cons.mp member with rfl | member
    · rfl
    · exact inner magnitude c member

theorem Numeral.ne_nil {numeral : List Char} (isNumber : Numeral numeral) : numeral ≠ [] := by
  rintro rfl
  cases isNumber with
  | plain magnitude =>
    obtain ⟨_, _, ⟨⟩, _⟩ := magnitude.head

/-- A digit stands behind the sign of a number, so it is no operator before an operand. -/
theorem Numeral.not_negation {numeral : List Char} (isNumber : Numeral numeral)
    (rest more : List Char) : numeral ++ rest ≠ '-' :: '(' :: more := by
  cases isNumber with
  | plain magnitude =>
    obtain ⟨c, tail, rfl, digit⟩ := magnitude.head
    intro same
    obtain ⟨rfl, _⟩ := List.cons.inj same
    cases digit
  | signed magnitude =>
    obtain ⟨c, tail, rfl, digit⟩ := magnitude.head
    rintro ⟨⟩
    cases digit

theorem Magnitude.of_digits (all : ∀ c ∈ digits, c.isDigit) (some : digits ≠ []) :
    Magnitude digits where
  head := by
    obtain ⟨c, rest, rfl⟩ := List.exists_cons_of_ne_nil some
    exact ⟨c, rest, rfl, all c (by simp)⟩
  all c member := .inl (all c member)

/-- Digits may follow, with a point before them or without. -/
theorem Magnitude.append {front back : List Char} (magnitude : Magnitude front)
    (all : ∀ c ∈ back, c.isDigit ∨ c = '.') : Magnitude (front ++ back) where
  head := by
    obtain ⟨c, rest, rfl, digit⟩ := magnitude.head
    exact ⟨c, rest ++ back, rfl, digit⟩
  all c member := (List.mem_append.mp member).elim (magnitude.all c) (all c)

theorem magnitude_placed (all : ∀ c ∈ digits, c.isDigit) (power : Int) :
    Magnitude (Emit.numberStyle.placed digits power) := by
  have zeros (n : Nat) : ∀ c ∈ NumberStyle.zeros n, c.isDigit := by
    intro c member
    rw [List.eq_of_mem_replicate member]
    rfl
  unfold NumberStyle.placed
  split
  · refine Magnitude.append (@Magnitude.of_digits ['0'] (by simp) (by simp)) ?_
    intro c member
    rcases List.mem_cons.mp member with rfl | member
    · exact .inr rfl
    · rcases List.mem_append.mp member with member | member
      · exact .inl (zeros _ c member)
      · exact .inl (all c member)
  · have front : Magnitude (digits.take (power.toNat + 1) ++
        NumberStyle.zeros (power.toNat + 1 - digits.length)) := by
      refine .of_digits ?_ ?_
      · intro c member
        rcases List.mem_append.mp member with member | member
        · exact all c (List.mem_of_mem_take member)
        · exact zeros _ c member
      · intro none
        have length := congrArg List.length none
        simp only [NumberStyle.zeros, List.length_append, List.length_take, List.length_replicate,
          List.length_nil] at length
        omega
    dsimp only
    split
    · exact front
    · refine front.append ?_
      intro c member
      rcases List.mem_cons.mp member with rfl | member
      · exact .inr rfl
      · exact .inl (all c (List.mem_of_mem_drop member))

theorem magnitude_double (x : Binary64) : Magnitude (Emit.numberStyle.magnitude x) := by
  unfold NumberStyle.magnitude
  split
  · exact .of_digits (by simp [Emit.numberStyle]) (by simp [Emit.numberStyle])
  · dsimp only
    rw [if_pos (by rfl)]
    refine magnitude_placed ?_ _
    intro c member
    obtain ⟨count, trimmed⟩ := exists_trimZeros
      (Nat.toDigits 10 (Decimal.shortest Emit.numberStyle.tie x).digits)
    have inside := List.mem_append_left (NumberStyle.zeros count) member
    rw [← trimmed] at inside
    exact Nat.isDigit_of_mem_toDigits (by decide) (by decide) inside

theorem Magnitude.unsigned_eq {text : List Char} (magnitude : Magnitude text) (negative : Bool) :
    unsigned (if negative then '-' :: text else text) = text ∧
      ((if negative then '-' :: text else text).head? == some '-') = negative := by
  obtain ⟨c, rest, rfl, digit⟩ := magnitude.head
  have other : c ≠ '-' := by
    rintro rfl
    simp at digit
  cases negative <;> simp [unsigned, other]

theorem numeral_double (x : Binary64) : Numeral (Emit.numberStyle.write x).toList := by
  rw [NumberStyle.write, String.toList_ofList]
  split
  · exact .signed (magnitude_double x)
  · exact .plain (magnitude_double x)

/-- An emitted double is read back. -/
theorem double?_write (x : Binary64) : double? (Emit.numberStyle.write x).toList = some x := by
  obtain ⟨text, sign⟩ := (magnitude_double x).unsigned_eq x.negative
  rw [NumberStyle.write, String.toList_ofList, double?, text, sign]
  exact ofRatio_fraction x

theorem magnitude_decimal (n : Nat) : Magnitude (Text.decimal n).toList := by
  rw [Text.decimal, String.toList_ofList]
  exact .of_digits (fun c member => Nat.isDigit_of_mem_toDigits (by decide) (by decide) member)
    Nat.toDigits_ne_nil

theorem numeral_int (n : Int) : Numeral (Text.signedDecimal n).toList := by
  unfold Text.signedDecimal
  split
  · rw [String.toList_append]
    exact .signed (magnitude_decimal n.natAbs)
  · exact .plain (magnitude_decimal n.natAbs)

/-- An emitted whole number is read back. -/
theorem int_signedDecimal (n : Int64) : int (Text.signedDecimal n.toInt).toList = n := by
  have written : (Text.signedDecimal n.toInt).toList =
      if decide (n.toInt < 0) then '-' :: (Text.decimal n.toInt.natAbs).toList
      else (Text.decimal n.toInt.natAbs).toList := by
    unfold Text.signedDecimal
    by_cases negative : n.toInt < 0 <;> simp [negative]
  obtain ⟨text, sign⟩ := (magnitude_decimal n.toInt.natAbs).unsigned_eq (decide (n.toInt < 0))
  have value : (if decide (n.toInt < 0) = true then -(n.toInt.natAbs : Int)
      else n.toInt.natAbs) = n.toInt := by
    by_cases negative : n.toInt < 0
    · simp only [negative, decide_true, if_true]
      omega
    · simp only [negative, decide_false, Bool.false_eq_true, if_false]
      omega
  rw [written, int, text, sign, Text.decimal, String.toList_ofList, Nat.ofDigitChars_ten_toDigits]
  rw [value, Int64.ofInt_toInt]

end Reading

end Arbor
