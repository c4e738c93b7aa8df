import RowPolicy.Json

/-!
Conversions between the numbers of JSON and machine integers. What fits the signed range comes back
as it was, and a float made of an integer of sixty-four bits is finite.
-/
namespace RowPolicy

namespace Double

theorem roundQuotient_le (num den : Nat) : roundQuotient num den ≤ num / den + 1 := by
  simp only [roundQuotient]
  split
  · omega
  · omega
  · split <;> omega

/-- A shift by which a number keeps fifty-three bits. -/
theorem shiftRight_lt (n : Nat) : n >>> (n.log2 - 52) < 2 * exponentBit := by
  rw [Nat.shiftRight_eq_div_pow]
  refine Nat.div_lt_of_lt_mul ?_
  have hlt : n < 2 ^ (n.log2 + 1) := Nat.lt_log2_self
  refine Nat.lt_of_lt_of_le hlt ?_
  show _ ≤ 2 ^ (n.log2 - 52) * 2 ^ 53
  rw [← Nat.pow_add]
  exact Nat.pow_le_pow_right (by decide) (by omega)

theorem log2_shiftLeft_le (n shift : Nat) : (n <<< shift).log2 ≤ n.log2 + shift := by
  by_cases hn : n = 0
  · simp [hn]
  · rw [Nat.shiftLeft_eq]
    have hne : n * 2 ^ shift ≠ 0 := Nat.mul_ne_zero hn (Nat.ne_of_gt (Nat.two_pow_pos shift))
    refine Nat.le_of_lt_succ ((Nat.log2_lt hne).mpr ?_)
    have hlt : n < 2 ^ (n.log2 + 1) := Nat.lt_log2_self
    rw [Nat.succ_eq_add_one, Nat.add_right_comm, Nat.pow_add]
    exact Nat.mul_lt_mul_of_pos_right hlt (Nat.two_pow_pos shift)

/-- An integer of sixty-four bits is far from the infinities. -/
theorem magnitudeBits_lt {n : Nat} (h : n < 0x10000000000000000) :
    magnitudeBits n 1 < topExponent * exponentBit := by
  have hlog : n.log2 < 64 := by
    by_cases hn : n = 0
    · simp [hn]
    · exact (Nat.log2_lt hn).mpr h
  have hshift := log2_shiftLeft_le n 1074
  have hquotient : roundQuotient (n <<< 1074) (1 <<< ((n <<< 1074).log2 - 52)) ≤
      2 * exponentBit := by
    have hle := roundQuotient_le (n <<< 1074) (1 <<< ((n <<< 1074).log2 - 52))
    have hlt := shiftRight_lt (n <<< 1074)
    rw [Nat.shiftRight_eq_div_pow, ← Nat.one_shiftLeft] at hlt
    omega
  refine Nat.lt_of_le_of_lt (Nat.min_le_left _ _) ?_
  rw [Nat.div_one]
  generalize (n <<< 1074).log2 = log at *
  generalize roundQuotient _ _ = quotient at *
  unfold topExponent exponentBit at *
  omega

theorem isFinite_ofParts {negative : Bool} {magnitude : Nat}
    (h : magnitude < topExponent * exponentBit) : (ofParts negative magnitude).isFinite = true := by
  have hne : (magnitude + if negative then signBit else 0) % 0x10000000000000000 / exponentBit %
      0x800 ≠ topExponent := by
    unfold topExponent exponentBit signBit at *
    split <;> omega
  simpa [isFinite, exponentField, ofParts] using hne

theorem isFinite_ofInt {i : Int} (h : i.natAbs < 0x10000000000000000) : (ofInt i).isFinite = true :=
  isFinite_ofParts (magnitudeBits_lt h)

end Double

namespace Number

@[simp] theorem toInt64?_ofInt64 (i : Int64) : (ofInt64 i).toInt64? = some i := by
  have hlt := i.toInt_lt
  simp only [toInt64?, ofInt64, Int64.ofInt_toInt]
  exact if_pos (by omega)

/-- A count of the signed range is read as an integer that is not negative. -/
theorem toInt64?_ofUInt64 {n : UInt64} (h : n.toNat < 0x8000000000000000) :
    (ofUInt64 n).toInt64? = some (Int64.ofInt n.toNat) := by
  simp only [toInt64?, ofUInt64]
  exact if_pos (by omega)

theorem toDouble_of_toInt64? {n : Number} {i : Int64} (h : n.toInt64? = some i) :
    n.toDouble = Double.ofInt i.toInt := by
  cases n with
  | int v hv =>
    simp only [toInt64?] at h
    split at h
    · cases h
      rw [toDouble, Int64.toInt_ofInt_of_le (by omega) (by omega)]
    · cases h
  | float x hx => cases h

theorem isFinite_toDouble (n : Number) : n.toDouble.isFinite = true := by
  cases n with
  | int i hi => exact Double.isFinite_ofInt (by omega)
  | float x hx => exact hx

theorem ofDouble?_of_isFinite {x : Double} (h : x.isFinite = true) :
    ofDouble? x = some (.float x h) :=
  dif_pos h

end Number

theorem toInt_ofInt_toNat {n : UInt64} (h : n.toNat < 0x8000000000000000) :
    (Int64.ofInt n.toNat).toInt = n.toNat :=
  Int64.toInt_ofInt_of_le (by omega) (by omega)

theorem toUInt64_ofInt_toNat (n : UInt64) : (Int64.ofInt n.toNat).toUInt64 = n := by
  rw [Int64.ofInt_eq_ofNat, Int64.toUInt64_ofNat', UInt64.ofNat_toNat]

theorem toNat_toUInt64_lt {i : Int64} (h : 0 ≤ i.toInt) :
    i.toUInt64.toNat < 0x8000000000000000 := by
  have hlt := i.toInt_lt
  rw [Int64.toNat_toUInt64_of_le (Int64.le_iff_toInt_le.mpr h), Int64.toNatClampNeg]
  omega

end RowPolicy
