import Mathlib.Data.Nat.ModEq
import Mathlib.Data.UInt

/-! # Counters that wrap

    A 64-bit counter that has counted to `n` holds `UInt64.ofNat n`.  Differences of
    two counters are exact as long as the counts are less than 2^64 apart, wherever
    the counters have wrapped; their order is that of the counts only while both have
    wrapped equally often.  A counter masked with `c - 1` is its count modulo `c`
    if `c` is a power of two, because then `c` divides 2^64; and less than `c`
    consecutive counts have different remainders. -/

namespace WrappingCounter

theorem toNat_ofNat (n : Nat) : (UInt64.ofNat n).toNat = n % 18446744073709551616 :=
  UInt64.toNat_ofNat'

theorem ofNat_succ (n : Nat) : UInt64.ofNat n + 1 = UInt64.ofNat (n + 1) :=
  (UInt64.ofNat_add n 1).symm

/-- **DISTANCE**: the difference of two counters is the difference of their counts. -/
theorem toNat_sub_ofNat {a b : Nat} (hle : b ≤ a) (hlt : a - b < 18446744073709551616) :
    (UInt64.ofNat a - UInt64.ofNat b).toNat = a - b := by
  rw [UInt64.toNat_sub, toNat_ofNat, toNat_ofNat]
  omega

theorem ofNat_inj {a b : Nat} (hle : b ≤ a) (hlt : a - b < 18446744073709551616) :
    UInt64.ofNat b = UInt64.ofNat a ↔ b = a := by
  constructor
  · intro h
    have hdistance := toNat_sub_ofNat hle hlt
    rw [h, UInt64.sub_self] at hdistance
    have hzero : 0 = a - b := hdistance
    omega
  · intro h
    rw [h]

/-- **MAGNITUDE**: counters compare like their counts as long as both have wrapped
    equally often. -/
theorem ofNat_le_iff {a b : Nat} (hle : b ≤ a) (hlt : a - b < 18446744073709551616) :
    UInt64.ofNat b ≤ UInt64.ofNat a ↔ a / 18446744073709551616 = b / 18446744073709551616 := by
  rw [UInt64.le_iff_toNat_le, toNat_ofNat, toNat_ofNat]
  have ha := Nat.div_add_mod a 18446744073709551616
  have hb := Nat.div_add_mod b 18446744073709551616
  omega

/-- **MASKING**: a power of two divides 2^64, so masking is the remainder. -/
theorem toNat_mask {c : UInt64} (hpow : c &&& (c - 1) = 0) (hpos : c ≠ 0) (n : Nat) :
    (UInt64.ofNat n &&& (c - 1)).toNat = n % c.toNat := by
  have hc : c.toNat ≠ 0 := fun h => hpos (UInt64.toNat_inj.mp h)
  have hpred : (c - 1).toNat = c.toNat - 1 :=
    UInt64.toNat_sub_of_le _ _ (UInt64.le_iff_toNat_le.mpr (Nat.pos_of_ne_zero hc))
  obtain ⟨k, hk⟩ : c.toNat.isPowerOfTwo := by
    rw [← Nat.and_sub_one_eq_zero_iff_isPowerOfTwo hc, ← hpred, ← UInt64.toNat_and, hpow]
    rfl
  have hdvd : c.toNat ∣ 18446744073709551616 := by
    have hlt : 2 ^ k < 2 ^ 64 := hk ▸ c.toNat_lt
    have hle : k ≤ 64 := Nat.le_of_lt ((Nat.pow_lt_pow_iff_right Nat.one_lt_two).mp hlt)
    rw [hk]
    exact Nat.pow_dvd_pow 2 hle
  rw [UInt64.toNat_and, hpred, hk, Nat.and_two_pow_sub_one_eq_mod, toNat_ofNat, ← hk,
    Nat.mod_mod_of_dvd n hdvd]

/-- Less than `c` consecutive counts have different remainders. -/
theorem mod_inj {c i j : Nat} (hle : i ≤ j) (hlt : j < i + c) (h : i % c = j % c) : i = j := by
  have hmod : i ≡ j [MOD c] := h
  obtain ⟨q, hq⟩ := (Nat.modEq_iff_dvd' hle).mp hmod
  cases q with
  | zero => omega
  | succ q =>
      rw [Nat.mul_succ] at hq
      omega

end WrappingCounter
