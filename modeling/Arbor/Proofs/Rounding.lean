import Arbor.Number.Decimal

/-!
# Rounding and shortest digits

Rounding depends on the value of a quotient and not on how it is written; a double is the one
nearest to its own value; and so the shortest digits of a double, whether the search hits or falls
back on all digits, round to that double.
-/

namespace Arbor

theorem roundHalfEven_mul (n d : Nat) {k : Nat} (pos : 0 < k) :
    roundHalfEven (n * k) (d * k) = roundHalfEven n d := by
  have rest : 2 * (n * k % (d * k)) = 2 * (n % d) * k := by
    rw [Nat.mul_mod_mul_right, Nat.mul_assoc]
  have less : 2 * (n % d) * k < d * k ↔ 2 * (n % d) < d := Nat.mul_lt_mul_right pos
  have half : 2 * (n % d) * k = d * k ↔ 2 * (n % d) = d :=
    ⟨Nat.eq_of_mul_eq_mul_right pos, fun same => by rw [same]⟩
  simp only [roundHalfEven, rest, Nat.mul_div_mul_right n d pos, Bool.or_eq_true,
    Bool.and_eq_true, decide_eq_true_eq, beq_iff_eq, less, half]

namespace Binary64

theorem rankOf_mul (num den : Nat) {k : Nat} (pos : 0 < k) :
    rankOf (num * k) (den * k) = rankOf num den := by
  have scaled : num * k * unitsInOne = num * unitsInOne * k := Nat.mul_right_comm _ _ _
  have shifted (s : Nat) : (den * k) <<< s = (den <<< s) * k := by
    rw [Nat.shiftLeft_eq, Nat.shiftLeft_eq, Nat.mul_right_comm]
  simp only [rankOf, scaled, shifted, Nat.mul_div_mul_right _ _ pos, roundHalfEven_mul _ _ pos]

/-- Rounding depends on the value of a quotient only. -/
theorem rankOf_congr {num den num' den' : Nat} (pos : 0 < den) (pos' : 0 < den')
    (same : num * den' = num' * den) : rankOf num den = rankOf num' den' := by
  rw [← rankOf_mul num den pos', ← rankOf_mul num' den' pos, same, Nat.mul_comm den den']

theorem ofRatio_congr (negative : Bool) {num den num' den' : Nat} (pos : 0 < den) (pos' : 0 < den')
    (same : num * den' = num' * den) : ofRatio negative num den = ofRatio negative num' den' := by
  simp only [ofRatio, rankOf_congr pos pos' same]

/-- A whole number of units that a shift divides is rounded to its quotient. -/
theorem roundHalfEven_exact {den : Nat} (pos : 0 < den) (m s : Nat) :
    roundHalfEven (m <<< s * den) (den <<< s) = m := by
  have exact : m <<< s * den = m * (den <<< s) := by
    rw [Nat.shiftLeft_eq, Nat.shiftLeft_eq, Nat.mul_assoc, Nat.mul_comm (2 ^ s)]
  have pos : 0 < den <<< s := by
    rw [Nat.shiftLeft_eq]
    exact Nat.mul_pos pos (Nat.pow_pos (by decide))
  rw [exact, roundHalfEven, Nat.mul_mod_left, Nat.mul_div_cancel m pos]
  simp [pos]

theorem log2_shiftLeft {m : Nat} (s : Nat) (low : binadeSize ≤ m) (high : m < 2 * binadeSize) :
    Nat.log2 (m <<< s) = 52 + s := by
  have size : binadeSize = 2 ^ 52 := by decide
  have pos : 0 < 2 ^ s := Nat.pow_pos (by decide)
  rw [Nat.shiftLeft_eq, Nat.log2_eq_iff (Nat.mul_ne_zero (by omega) (Nat.ne_of_gt pos)),
    Nat.pow_add, Nat.add_right_comm, Nat.pow_add]
  constructor
  · exact Nat.mul_le_mul_right _ (size ▸ low)
  · exact (Nat.mul_lt_mul_right pos).mpr (by omega)

/-- A double is the one nearest to its own value. -/
theorem rankOf_units (x : Binary64) {num den : Nat} (pos : 0 < den)
    (exact : num * unitsInOne = x.units * den) : rankOf num den = x.rank := by
  have place := Nat.div_add_mod x.rank binadeSize
  have small : x.rank % binadeSize < binadeSize := Nat.mod_lt _ (by decide)
  simp only [rankOf, exact, Nat.mul_div_cancel _ pos]
  by_cases subnormal : x.rank / binadeSize = 0
  · have units : x.units = x.rank := by
      rw [subnormal] at place
      simp only [Binary64.units, subnormal, if_true]
      omega
    have log : Nat.log2 x.units - 52 = 0 := by
      by_cases zero : x.units = 0
      · simp [zero]
      · have : Nat.log2 x.units < 52 := (Nat.log2_lt zero).mpr (by
          rw [units, ← place, subnormal, Nat.mul_zero, Nat.zero_add]
          exact small)
        omega
    have rounded : roundHalfEven (x.units * den) (den <<< 0) = x.units :=
      roundHalfEven_exact pos x.units 0
    rw [log, rounded, units, Nat.zero_mul, Nat.zero_add]
  · have units : x.units = (binadeSize + x.rank % binadeSize) <<< (x.rank / binadeSize - 1) := by
      simp only [Binary64.units, subnormal, if_false]
    have log : Nat.log2 x.units - 52 = x.rank / binadeSize - 1 := by
      rw [units, log2_shiftLeft _ (by omega) (by omega)]
      omega
    have whole : (x.rank / binadeSize - 1 + 1) * binadeSize = binadeSize * (x.rank / binadeSize) := by
      rw [Nat.mul_comm, Nat.sub_add_cancel (Nat.pos_of_ne_zero subnormal)]
    rw [log, units, roundHalfEven_exact pos]
    rw [Nat.add_mul] at whole
    omega

end Binary64

namespace Decimal

/-- All digits of a double round to it. -/
theorem nearest?_exact (x : Binary64) : (exact x).nearest? x.negative = some x := by
  have rank : Binary64.rankOf (x.units * 5 ^ Binary64.unitPlace) (10 ^ Binary64.unitPlace) =
      x.rank := by
    refine Binary64.rankOf_units x (Nat.pow_pos (by decide)) ?_
    rw [Binary64.unitsInOne, Nat.one_shiftLeft, Nat.mul_assoc, ← Nat.mul_pow]
  have up : (-(Binary64.unitPlace : Int)).toNat = 0 := by omega
  have down : (- -(Binary64.unitPlace : Int)).toNat = Binary64.unitPlace := by omega
  have one : Nat.pow 10 0 = 1 := rfl
  simp only [nearest?, exact, up, down, one, Nat.mul_one, Nat.pow_eq, Binary64.ofRatio, rank,
    x.rank_lt, dif_pos]

theorem nearest?_of_hit? {x : Binary64} {low high nearer d : Decimal}
    (near : nearer = low ∨ nearer = high) (hit : hit? x low high nearer = some d) :
    d.nearest? x.negative = some x := by
  unfold hit? at hit
  split at hit
  · next first =>
    split at hit
    · next second =>
      cases hit
      rcases near with rfl | rfl
      · exact first
      · exact second
    · cases hit
      exact first
  · split at hit
    · next second =>
      cases hit
      exact second
    · cases hit

/-- A hit of the search rounds to the double. -/
theorem nearest?_of_withDigits? {tie : Tie} {x : Binary64} {count : Nat} {d : Decimal}
    (hit : withDigits? tie x count = some d) : d.nearest? x.negative = some x := by
  unfold withDigits? at hit
  refine nearest?_of_hit? ?_ hit
  split
  · exact .inl rfl
  · split
    · exact .inr rfl
    · cases tie with
      | up => exact .inr rfl
      | even =>
        dsimp only
        split
        · exact .inl rfl
        · exact .inr rfl

/-- The shortest digits of a double round to it. -/
theorem nearest?_shortest (tie : Tie) (x : Binary64) :
    (shortest tie x).nearest? x.negative = some x := by
  unfold shortest
  cases found : (List.range 17).findSome? fun n => withDigits? tie x (n + 1) with
  | none => exact nearest?_exact x
  | some d =>
    obtain ⟨n, -, hit⟩ := List.exists_of_findSome?_eq_some found
    exact nearest?_of_withDigits? hit

end Decimal

end Arbor
