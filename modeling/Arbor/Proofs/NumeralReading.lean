import Arbor.Json.Pretty
import Arbor.Json.Reader
import Arbor.Proofs.EmitRun
import Arbor.Proofs.NumberReading

/-!
# Numerals read back

A numeral has one spelling in which its digits stand for themselves, and the reader of numerals
takes that spelling off the front of a text, whatever follows, as long as it cannot go on the
numeral. The numbers of indented JSON are such spellings: an integer is read back as it was, and a
double as the number that its numeral stands for.
-/

namespace Arbor

namespace Numeral

variable {digits rest : List Char}

/-! ## Spellings -/

/-- The digits behind a point; without digits there is no point. -/
def spelledFraction : List Char → List Char
  | [] => []
  | digit :: more => '.' :: digit :: more

/-- The exponent behind its mark, always with a sign. -/
def spelledExponent : Option (Bool × List Char) → List Char
  | none => []
  | some (negative, digits) => 'e' :: (if negative then '-' else '+') :: digits

/-- The numeral as it is spelled. -/
def spelling (n : Numeral) : List Char :=
  (if n.negative then ['-'] else []) ++
    (n.whole ++ (spelledFraction n.fraction ++ spelledExponent n.exponent))

/-- A numeral that can be spelled: it has a digit before the point and one behind the mark of its
exponent, and no zero leads other digits. -/
structure WellFormed (n : Numeral) : Prop where
  whole : ∀ c ∈ n.whole, isDigit c
  nonempty : n.whole ≠ []
  leading : ∀ more, n.whole = '0' :: more → more = []
  fraction : ∀ c ∈ n.fraction, isDigit c
  exponent : ∀ negative digits, n.exponent = some (negative, digits) →
    digits ≠ [] ∧ ∀ c ∈ digits, isDigit c

/-- The text does not go on the digits before it. -/
def NoDigit (text : List Char) : Prop :=
  ∀ c, text.head? = some c → isDigit c = false

/-- The text does not go on the numeral before it. -/
def Ends (text : List Char) : Prop :=
  ∀ c, text.head? = some c → isDigit c = false ∧ c ≠ '.' ∧ c ≠ 'e' ∧ c ≠ 'E'

theorem Ends.nil : Ends [] := by
  simp [Ends]

theorem Ends.cons {c : Char} (ends : isDigit c = false ∧ c ≠ '.' ∧ c ≠ 'e' ∧ c ≠ 'E') :
    Ends (c :: rest) := by
  rintro _ ⟨⟩
  exact ends

theorem Ends.noDigit (ends : Ends rest) : NoDigit rest :=
  fun c head => (ends c head).1

theorem noDigit_exponent (ends : Ends rest) (exponent : Option (Bool × List Char)) :
    NoDigit (spelledExponent exponent ++ rest) := by
  cases exponent with
  | none => exact ends.noDigit
  | some exponent =>
    rintro _ ⟨⟩
    rfl

theorem noDigit_fraction (ends : Ends rest) (fraction : List Char)
    (exponent : Option (Bool × List Char)) :
    NoDigit (spelledFraction fraction ++ (spelledExponent exponent ++ rest)) := by
  cases fraction with
  | nil => exact noDigit_exponent ends exponent
  | cons digit more =>
    rintro _ ⟨⟩
    rfl

/-! ## Reading a spelling -/

theorem readDigits_append (all : ∀ c ∈ digits, isDigit c) (some : digits ≠ [])
    (stops : NoDigit rest) : readDigits (digits ++ rest) = .ok (digits, rest) := by
  have front : rest.takeWhile isDigit = [] := by
    cases rest with
    | nil => rfl
    | cons c rest => simp [stops c rfl]
  have back : rest.dropWhile isDigit = rest := by
    cases rest with
    | nil => rfl
    | cons c rest => simp [stops c rfl]
  rw [readDigits, List.takeWhile_append_of_pos all, List.dropWhile_append_of_pos all, front, back,
    List.append_nil]
  obtain ⟨digit, more, rfl⟩ := List.exists_cons_of_ne_nil some
  rfl

theorem readWhole_append (all : ∀ c ∈ digits, isDigit c) (some : digits ≠ [])
    (leading : ∀ more, digits = '0' :: more → more = []) (stops : NoDigit rest) :
    readWhole (digits ++ rest) = .ok (digits, rest) := by
  refine Except.bind_eq_ok.mpr ⟨_, readDigits_append all some stops, ?_⟩
  dsimp only
  split
  · next second more => cases leading _ rfl
  · rfl

theorem readFraction_append (all : ∀ c ∈ digits, isDigit c) (exponent : Option (Bool × List Char))
    (ends : Ends rest) :
    readFraction (spelledFraction digits ++ (spelledExponent exponent ++ rest)) =
      .ok (digits, spelledExponent exponent ++ rest) := by
  cases digits with
  | cons digit more =>
    exact readDigits_append all (by simp) (noDigit_exponent ends exponent)
  | nil =>
    change readFraction (spelledExponent exponent ++ rest) = _
    unfold readFraction
    split
    · next behind same =>
      exfalso
      cases exponent with
      | none =>
        change rest = '.' :: behind at same
        exact (ends '.' (by rw [same]; rfl)).2.1 rfl
      | some exponent => simp [spelledExponent] at same
    · rfl

theorem readExponent_append {exponent : Option (Bool × List Char)}
    (formed : ∀ negative digits, exponent = some (negative, digits) →
      digits ≠ [] ∧ ∀ c ∈ digits, isDigit c) (ends : Ends rest) :
    readExponent (spelledExponent exponent ++ rest) = .ok (exponent, rest) := by
  cases exponent with
  | some exponent =>
    obtain ⟨negative, digits⟩ := exponent
    obtain ⟨some, all⟩ := formed negative digits rfl
    have read := readDigits_append all some ends.noDigit
    cases negative with
    | false =>
      change (readDigits (digits ++ rest) >>= _) = _
      rw [read]
      rfl
    | true =>
      change (readDigits (digits ++ rest) >>= _) = _
      rw [read]
      rfl
  | none =>
    change readExponent rest = _
    cases rest with
    | nil => rfl
    | cons c rest =>
      obtain ⟨-, -, lower, upper⟩ := ends c rfl
      rw [readExponent, if_neg (by simp [lower, upper])]

theorem spelling_append (n : Numeral) (rest : List Char) :
    n.spelling ++ rest = (if n.negative then ['-'] else []) ++
      (n.whole ++ (spelledFraction n.fraction ++ (spelledExponent n.exponent ++ rest))) := by
  simp only [spelling, List.append_assoc]

/-- The reader takes the spelling of a numeral off the front of a text. -/
theorem read_spelling {n : Numeral} (formed : n.WellFormed) (ends : Ends rest) :
    read (n.spelling ++ rest) = .ok (n, rest) := by
  rw [spelling_append]
  obtain ⟨negative, whole, fraction, exponent⟩ := n
  dsimp only
  have first := readWhole_append formed.whole formed.nonempty formed.leading
    (noDigit_fraction ends fraction exponent)
  have second := readFraction_append formed.fraction exponent ends
  have third := readExponent_append formed.exponent ends
  cases negative with
  | true =>
    exact Except.bind_eq_ok.mpr ⟨_, first, Except.bind_eq_ok.mpr ⟨_, second,
      Except.bind_eq_ok.mpr ⟨_, third, rfl⟩⟩⟩
  | false =>
    -- A digit is no sign, so the text is read as it stands.
    obtain ⟨digit, more, rfl⟩ := List.exists_cons_of_ne_nil formed.nonempty
    have plain : digit ≠ '-' := by
      rintro rfl
      have digit := formed.whole '-' (by simp)
      cases digit
    unfold read
    split
    next sign text same =>
      split at same
      · next dash => exact absurd (List.cons.inj dash).1 plain
      · cases same
        exact Except.bind_eq_ok.mpr ⟨_, first, Except.bind_eq_ok.mpr ⟨_, second,
          Except.bind_eq_ok.mpr ⟨_, third, rfl⟩⟩⟩

/-! ## Digits -/

theorem isDigit_eq (c : Char) : isDigit c = c.isDigit := by
  simp only [isDigit, Char.isDigit, Char.le_def, ge_iff_le]

theorem isDigit_toDigits (n : Nat) : ∀ c ∈ Nat.toDigits 10 n, isDigit c := by
  intro c member
  rw [isDigit_eq]
  exact Nat.isDigit_of_mem_toDigits (by decide) (by decide) member

theorem digitsValue_toDigits (n : Nat) : digitsValue (Nat.toDigits 10 n) = n := by
  have value := @Nat.ofDigitChars_ten_toDigits n
  rw [Nat.ofDigitChars_eq_foldl] at value
  simp only [digitsValue, digitValue, Nat.mul_comm _ 10]
  exact value

/-- No zero leads the digits of a number. -/
theorem toDigits_leading (n : Nat) :
    ∀ more, Nat.toDigits 10 n = '0' :: more → n = 0 ∧ more = [] := by
  induction n using Nat.strongRecOn with
  | ind n ih =>
    intro more same
    by_cases small : n < 10
    · rw [Nat.toDigits_of_lt_base small] at same
      obtain ⟨digit, rfl⟩ := List.cons.inj same
      have all : ∀ d : Fin 10, Nat.digitChar d = '0' → d.val = 0 := by decide
      exact ⟨all ⟨n, small⟩ digit, rfl⟩
    · rw [Nat.toDigits_of_base_le (by decide) (by omega)] at same
      obtain ⟨digit, front, higher⟩ := List.exists_cons_of_ne_nil (@Nat.toDigits_ne_nil (n / 10) 10)
      rw [higher, List.cons_append] at same
      obtain ⟨rfl, -⟩ := List.cons.inj same
      obtain ⟨zero, -⟩ := ih (n / 10) (by omega) front higher
      omega

/-! ## Integers -/

/-- The numeral of an integer. -/
def ofInt (n : Int) : Numeral :=
  ⟨n < 0, Nat.toDigits 10 n.natAbs, [], none⟩

theorem spelling_ofInt (n : Int) : (ofInt n).spelling = (Text.signedDecimal n).toList := by
  unfold Text.signedDecimal Text.decimal spelling ofInt
  by_cases negative : n < 0 <;> simp [negative, spelledFraction, spelledExponent]

theorem wellFormed_ofInt (n : Int) : (ofInt n).WellFormed where
  whole := isDigit_toDigits _
  nonempty := Nat.toDigits_ne_nil
  leading more same := (toDigits_leading _ more same).2
  fraction := nofun
  exponent := nofun

/-- An integer of 64 bits is read back. -/
theorem value_ofInt (n : WideInt) : (ofInt n.val).value = .ok (.int n) := by
  have fits : WideInt.ofInt? n.val = some n := by
    rw [WideInt.ofInt?, dif_pos ⟨n.ge, n.lt⟩]
  have read : (ofInt n.val).int? = some n := by
    by_cases negative : n.val < 0
    · have sign : -(n.val.natAbs : Int) = n.val := by omega
      have some : ¬n.val.natAbs = 0 := by omega
      simp only [int?, ofInt, digitsValue_toDigits, negative, decide_true, Bool.and_self, if_true,
        some, if_false, sign, fits]
    · have sign : (n.val.natAbs : Int) = n.val := by omega
      simp only [int?, ofInt, digitsValue_toDigits, negative, decide_false, decide_true,
        Bool.and_self, if_true, Bool.false_eq_true, if_false, sign, fits]
  rw [value, read]

end Numeral

/-! ## Doubles -/

namespace Json

variable {digits : List Char}

/-- Digits of which the first is not zero. -/
structure Leads (digits : List Char) : Prop where
  all : ∀ c ∈ digits, Numeral.isDigit c
  nonempty : digits ≠ []
  leading : ∀ more, digits ≠ '0' :: more

theorem isDigit_zeros (n : Nat) : ∀ c ∈ NumberStyle.zeros n, Numeral.isDigit c := by
  intro c member
  rw [List.eq_of_mem_replicate member]
  rfl

/-- A double other than zero has a digit other than zero. -/
theorem digits_shortest_ne_zero {x : Binary64} (tie : Tie) (some : x.rank ≠ 0) :
    (Decimal.shortest tie x).digits ≠ 0 := by
  intro zero
  have positive : 0 < Nat.pow 10 (-(Decimal.shortest tie x).exponent).toNat :=
    Nat.pow_pos (by decide)
  have nearest := Decimal.nearest?_shortest tie x
  rw [Decimal.nearest?, zero, Nat.zero_mul] at nearest
  generalize Nat.pow 10 (-(Decimal.shortest tie x).exponent).toNat = den at nearest positive
  have nothing : (Binary64.zero false).units = 0 := rfl
  have rank : Binary64.rankOf 0 den = 0 :=
    Binary64.rankOf_units (.zero false) positive (by rw [nothing, Nat.zero_mul, Nat.zero_mul])
  have bound : Binary64.rankOf 0 den < 0x7ff0000000000000 := by
    rw [rank]
    decide
  rw [Binary64.ofRatio, dif_pos bound] at nearest
  have same := congrArg Binary64.rank (Option.some.inj nearest)
  exact some (same.symm.trans rank)

theorem leads_trimZeros {n : Nat} (some : n ≠ 0) :
    Leads (NumberStyle.trimZeros (Nat.toDigits 10 n)) := by
  obtain ⟨count, trimmed⟩ := Reading.exists_trimZeros (Nat.toDigits 10 n)
  refine ⟨?_, ?_, ?_⟩
  · intro c member
    apply Numeral.isDigit_toDigits n
    rw [trimmed]
    exact List.mem_append_left _ member
  · intro none
    rw [none, List.nil_append] at trimmed
    cases count with
    | zero => exact Nat.toDigits_ne_nil trimmed
    | succ count => exact some (Numeral.toDigits_leading n _ trimmed).1
  · intro more same
    rw [same, List.cons_append] at trimmed
    exact some (Numeral.toDigits_leading n _ trimmed).1

/-- The text is the spelling of a numeral without a sign. -/
def Unsigned (text : List Char) : Prop :=
  ∃ whole fraction exponent, (Numeral.mk false whole fraction exponent).WellFormed ∧
    text = whole ++ (Numeral.spelledFraction fraction ++ Numeral.spelledExponent exponent)

theorem Unsigned.signed {text : List Char} (unsigned : Unsigned text) (negative : Bool) :
    ∃ n : Numeral, n.WellFormed ∧ n.spelling = if negative then '-' :: text else text := by
  obtain ⟨whole, fraction, exponent, formed, rfl⟩ := unsigned
  refine ⟨⟨negative, whole, fraction, exponent⟩, ?_, ?_⟩
  · exact ⟨formed.whole, formed.nonempty, formed.leading, formed.fraction, formed.exponent⟩
  · cases negative <;> rfl

/-- Digits in place around a point. -/
theorem unsigned_point {whole fraction : List Char} (digits : ∀ c ∈ whole, Numeral.isDigit c)
    (some : whole ≠ []) (leading : ∀ more, whole = '0' :: more → more = [])
    (places : ∀ c ∈ fraction, Numeral.isDigit c) (someBehind : fraction ≠ []) :
    Unsigned (whole ++ '.' :: fraction) := by
  obtain ⟨place, others, rfl⟩ := List.exists_cons_of_ne_nil someBehind
  refine ⟨whole, place :: others, none, ⟨digits, some, leading, places, nofun⟩, ?_⟩
  rw [Numeral.spelledFraction, Numeral.spelledExponent, List.append_nil]

theorem Leads.unsigned_placed (leads : Leads digits) (power : Int) :
    Unsigned (numberStyle.placed digits power) := by
  unfold NumberStyle.placed
  split
  · refine @unsigned_point ['0'] _ (by simp [Numeral.isDigit]) (by simp) ?_ ?_ ?_
    · rintro more ⟨⟩
      rfl
    · intro c member
      rcases List.mem_append.mp member with member | member
      · exact isDigit_zeros _ c member
      · exact leads.all c member
    · simp [leads.nonempty]
  · obtain ⟨digit, others, rfl⟩ := List.exists_cons_of_ne_nil leads.nonempty
    have front : ∀ c ∈ (digit :: others).take (power.toNat + 1) ++
        NumberStyle.zeros (power.toNat + 1 - (digit :: others).length), Numeral.isDigit c := by
      intro c member
      rcases List.mem_append.mp member with member | member
      · exact leads.all c (List.mem_of_mem_take member)
      · exact isDigit_zeros _ c member
    have leading : ∀ more, (digit :: others).take (power.toNat + 1) ++
        NumberStyle.zeros (power.toNat + 1 - (digit :: others).length) = '0' :: more →
          more = [] := by
      intro more same
      rw [List.take_succ_cons, List.cons_append] at same
      obtain ⟨rfl, -⟩ := List.cons.inj same
      exact absurd rfl (leads.leading others)
    dsimp only
    split
    · rw [if_pos (by rfl)]
      exact unsigned_point front (by simp) leading (by simp [Numeral.isDigit]) (by simp)
    · next behind =>
      refine unsigned_point front (by simp) leading ?_ behind
      exact fun c member => leads.all c (List.mem_of_mem_drop member)

theorem Leads.unsigned_scientific (leads : Leads digits) (power : Int) :
    Unsigned (numberStyle.scientific digits power) := by
  obtain ⟨digit, others, rfl⟩ := List.exists_cons_of_ne_nil leads.nonempty
  have leading : ∀ more, [digit] = '0' :: more → more = [] := by
    rintro more ⟨⟩
    rfl
  obtain ⟨first, places⟩ := List.forall_mem_cons.mp leads.all
  refine ⟨[digit], others, some (decide (power < 0), Nat.toDigits 10 power.natAbs),
    ⟨by simpa using first, by simp, leading, places, ?_⟩, ?_⟩
  · rintro negative exponent ⟨⟩
    exact ⟨Nat.toDigits_ne_nil, Numeral.isDigit_toDigits _⟩
  · unfold NumberStyle.scientific
    by_cases negative : power < 0 <;> cases others <;>
      simp [negative, numberStyle, Numeral.spelledFraction, Numeral.spelledExponent]

theorem unsigned_magnitude (x : Binary64) : Unsigned (numberStyle.magnitude x) := by
  unfold NumberStyle.magnitude
  split
  · exact @unsigned_point ['0'] ['0'] (by simp [Numeral.isDigit]) (by simp) (by simp)
      (by simp [Numeral.isDigit]) (by simp)
  · next some =>
    have leads := leads_trimZeros (digits_shortest_ne_zero numberStyle.tie some)
    dsimp only
    split
    · exact leads.unsigned_placed _
    · exact leads.unsigned_scientific _

/-- A written double is the spelling of a numeral. -/
theorem exists_spelling (x : Binary64) :
    ∃ n : Numeral, n.WellFormed ∧ n.spelling = (numberStyle.write x).toList := by
  rw [NumberStyle.write, String.toList_ofList]
  exact (unsigned_magnitude x).signed x.negative

end Json

end Arbor
