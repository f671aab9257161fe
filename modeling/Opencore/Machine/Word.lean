import Mathlib

/-! Machine words of a C program as bit vectors: the image of a natural number in a
word, alignment by masking, and the trip count of an `int` loop. -/
namespace Opencore.Machine

/-- How often `for (int i = 0; i < n; i++)` runs; a negative bound gives no iteration. -/
def tripCount (n : BitVec 32) : ℕ := n.toInt.toNat

@[simp] theorem tripCount_ofNat {v : ℕ} (hv : v < 2 ^ 31) : tripCount (BitVec.ofNat 32 v) = v := by
  have hm : v % 2 ^ 32 = v := Nat.mod_eq_of_lt (by omega)
  rw [tripCount, BitVec.toInt_eq_toNat_of_lt (by rw [BitVec.toNat_ofNat, hm]; omega),
    BitVec.toNat_ofNat, hm, Int.toNat_natCast]

theorem tripCount_eq (n : BitVec 32) :
    tripCount n = if n.toNat < 2 ^ 31 then n.toNat else 0 := by
  have := n.isLt
  unfold tripCount
  rw [BitVec.toInt_eq_toNat_cond]
  split_ifs <;> omega

theorem toNat_ofNat_of_lt {w v : ℕ} (hv : v < 2 ^ w) : (BitVec.ofNat w v).toNat = v := by
  rw [BitVec.toNat_ofNat, Nat.mod_eq_of_lt hv]

theorem ofNat_inj_of_lt {w a b : ℕ} (ha : a < 2 ^ w) (hb : b < 2 ^ w)
    (h : BitVec.ofNat w a = BitVec.ofNat w b) : a = b := by
  have := congrArg BitVec.toNat h
  rwa [toNat_ofNat_of_lt ha, toNat_ofNat_of_lt hb] at this

theorem eq_zero_of_ofNat_add {w v k : ℕ} (hk : k < 2 ^ w)
    (h : BitVec.ofNat w (v + k) = BitVec.ofNat w v) : k = 0 := by
  have hmod := congrArg BitVec.toNat h
  rw [BitVec.toNat_ofNat, BitVec.toNat_ofNat] at hmod
  have hzero : k ≡ 0 [MOD 2 ^ w] := Nat.ModEq.add_left_cancel' v hmod
  exact Nat.eq_zero_of_dvd_of_lt ((Nat.modEq_zero_iff_dvd).mp hzero) hk

theorem ofNat_sub_of_le {w a b : ℕ} (h : b ≤ a) :
    BitVec.ofNat w a - BitVec.ofNat w b = BitVec.ofNat w (a - b) := by
  obtain ⟨k, rfl⟩ := Nat.exists_eq_add_of_le' h
  rw [BitVec.ofNat_add, BitVec.add_sub_cancel, Nat.add_sub_cancel]

theorem toInt_ofNat_pos {v : ℕ} (hpos : 0 < v) (hv : v < 2 ^ 31) :
    0 < (BitVec.ofNat 32 v).toInt := by
  rw [BitVec.toInt_eq_toNat_of_lt (by rw [toNat_ofNat_of_lt (by omega)]; omega),
    toNat_ofNat_of_lt (by omega)]
  omega

theorem signExtend_ofNat {w v : ℕ} (hw : 32 ≤ w) (hv : v < 2 ^ 31) :
    (BitVec.ofNat 32 v).signExtend w = BitVec.ofNat w v := by
  have hm : (BitVec.ofNat 32 v).msb = false := by
    rw [BitVec.msb_eq_false_iff_two_mul_lt, BitVec.toNat_ofNat]
    omega
  have hpow : 2 ^ 32 ≤ 2 ^ w := Nat.pow_le_pow_right (by omega) hw
  rw [BitVec.signExtend_eq_setWidth_of_msb_false hm]
  apply BitVec.eq_of_toNat_eq
  rw [BitVec.toNat_setWidth, BitVec.toNat_ofNat, BitVec.toNat_ofNat,
    Nat.mod_eq_of_lt (by omega : v < 2 ^ 32)]

/-- Widening a word by its sign keeps its low bits. -/
theorem setWidth_signExtend {n w : ℕ} (h : n ≤ w) (x : BitVec n) :
    (x.signExtend w).setWidth n = x := by
  apply BitVec.eq_of_getLsbD_eq
  intro i hi
  have hiw : i < w := by omega
  rw [BitVec.getLsbD_setWidth, BitVec.getLsbD_signExtend, if_pos hi, decide_eq_true hi,
    decide_eq_true hiw, Bool.true_and, Bool.true_and]

theorem setWidth_ofNat_of_le {w n v : ℕ} (hn : n ≤ w) :
    (BitVec.ofNat w v).setWidth n = BitVec.ofNat n v := by
  apply BitVec.eq_of_toNat_eq
  rw [BitVec.toNat_setWidth, BitVec.toNat_ofNat, BitVec.toNat_ofNat,
    Nat.mod_mod_of_dvd _ (Nat.pow_dvd_pow 2 hn)]

theorem setWidth_ofNat_of_lt {w n v : ℕ} (hv : v < 2 ^ w) :
    (BitVec.ofNat w v).setWidth n = BitVec.ofNat n v := by
  apply BitVec.eq_of_toNat_eq
  rw [BitVec.toNat_setWidth, BitVec.toNat_ofNat, BitVec.toNat_ofNat, Nat.mod_eq_of_lt hv]

/-- Masking with the negative of a power of two rounds down, in every width. -/
theorem and_neg_two_pow {w k : ℕ} (hk : k < w) (v : ℕ) :
    BitVec.ofNat w v &&& -BitVec.ofNat w (2 ^ k) = BitVec.ofNat w (v / 2 ^ k * 2 ^ k) := by
  have hkw : 2 ^ k < 2 ^ w := Nat.pow_lt_pow_right (by omega) hk
  have hpos : 0 < 2 ^ k := by positivity
  have hneg : (-BitVec.ofNat w (2 ^ k)).toNat = 2 ^ w - ((2 ^ k - 1) + 1) := by
    rw [BitVec.toNat_neg, BitVec.toNat_ofNat, Nat.mod_eq_of_lt hkw, Nat.mod_eq_of_lt (by omega)]
    omega
  apply BitVec.eq_of_getLsbD_eq
  intro i hi
  have hmask : (-BitVec.ofNat w (2 ^ k)).getLsbD i = decide (k ≤ i) := by
    rw [← BitVec.testBit_toNat, hneg, Nat.testBit_two_pow_sub_succ (by omega),
      Nat.testBit_two_pow_sub_one]
    by_cases h : k ≤ i <;> simp [hi, h, Nat.not_lt.mpr]
    omega
  have hval : (v / 2 ^ k * 2 ^ k).testBit i = (decide (k ≤ i) && v.testBit i) := by
    rw [Nat.testBit_mul_two_pow, Nat.testBit_div_two_pow]
    by_cases h : k ≤ i <;> simp [h]
  rw [BitVec.getLsbD_and, hmask, BitVec.getLsbD_ofNat, BitVec.getLsbD_ofNat, hval]
  simp [hi, Bool.and_comm]

/-- The least multiple of `n` at or above `v`, for `0 < n`. -/
def alignUp (v n : ℕ) : ℕ := (v + (n - 1)) / n * n

theorem le_alignUp {v n : ℕ} (hn : 0 < n) : v ≤ alignUp v n := by
  have := Nat.div_add_mod' (v + (n - 1)) n
  have := Nat.mod_lt (v + (n - 1)) hn
  unfold alignUp
  omega

theorem alignUp_lt {v n : ℕ} (hn : 0 < n) : alignUp v n < v + n := by
  have := Nat.div_mul_le_self (v + (n - 1)) n
  unfold alignUp
  omega

theorem dvd_alignUp (v n : ℕ) : n ∣ alignUp v n := Dvd.intro_left _ rfl

theorem alignUp_le {v n q : ℕ} (hn : 0 < n) (hq : n ∣ q) (hvq : v ≤ q) : alignUp v n ≤ q := by
  obtain ⟨c, rfl⟩ := hq
  have hdiv : (v + (n - 1)) / n ≤ c := by
    have hlt : v + (n - 1) < n * (c + 1) := by rw [Nat.mul_succ]; omega
    have := Nat.div_lt_of_lt_mul hlt
    omega
  unfold alignUp
  calc (v + (n - 1)) / n * n ≤ c * n := Nat.mul_le_mul_right n hdiv
    _ = n * c := Nat.mul_comm _ _

/-- Padding to a fine grain first does not move the coarse alignment. -/
theorem alignUp_alignUp {v m n : ℕ} (hm : 0 < m) (hn : 0 < n) (hmn : m ∣ n) :
    alignUp (alignUp v m) n = alignUp v n := by
  apply le_antisymm
  · exact alignUp_le hn (dvd_alignUp v n)
      (alignUp_le hm (hmn.trans (dvd_alignUp v n)) (le_alignUp hn))
  · exact alignUp_le hn (dvd_alignUp _ n) ((le_alignUp hm).trans (le_alignUp hn))

theorem alignUp_add {k v n : ℕ} (hn : 0 < n) (hk : n ∣ k) :
    alignUp (k + v) n = k + alignUp v n := by
  obtain ⟨c, rfl⟩ := hk
  unfold alignUp
  rw [Nat.add_assoc, Nat.mul_add_div hn, Nat.add_mul, Nat.mul_comm n c]

theorem alignUp_modEq {v u n m : ℕ} (hn : 0 < n) (hm : n ∣ m) (h : v ≡ u [MOD m]) :
    alignUp v n ≡ alignUp u n [MOD m] := by
  rw [← Nat.div_add_mod v m, ← Nat.div_add_mod u m, alignUp_add hn (hm.mul_right _),
    alignUp_add hn (hm.mul_right _), show v % m = u % m from h]
  exact (Nat.ModEq.modulus_mul_add).trans (Nat.ModEq.modulus_mul_add).symm

end Opencore.Machine
