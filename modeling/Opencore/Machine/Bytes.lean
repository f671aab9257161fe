import Mathlib

/-! Byte strings: little-endian words, zero padding, and slices of concatenations. -/
namespace Opencore.Machine

abbrev Bytes := List UInt8

/-- The low `n` bytes of `v`, least significant first. -/
def leBytes : ℕ → ℕ → Bytes
  | 0, _ => []
  | n + 1, v => UInt8.ofNat v :: leBytes n (v / 256)

/-- The number whose little-endian bytes are given. -/
def ofLe : Bytes → ℕ
  | [] => 0
  | b :: bs => b.toNat + 256 * ofLe bs

@[simp] theorem length_leBytes (n v : ℕ) : (leBytes n v).length = n := by
  induction n generalizing v with
  | zero => rfl
  | succ n ih => simp only [leBytes, List.length_cons, ih]

theorem ofLe_leBytes (n v : ℕ) : ofLe (leBytes n v) = v % 256 ^ n := by
  induction n generalizing v with
  | zero => simp [leBytes, ofLe, Nat.mod_one]
  | succ n ih =>
    have hb : (UInt8.ofNat v).toNat = v % 256 := by simp
    rw [leBytes, ofLe, ih, hb, pow_succ', Nat.mod_mul]

theorem ofLe_leBytes_of_lt {n v : ℕ} (hv : v < 256 ^ n) : ofLe (leBytes n v) = v := by
  rw [ofLe_leBytes, Nat.mod_eq_of_lt hv]

theorem ofLe_lt (bs : Bytes) : ofLe bs < 256 ^ bs.length := by
  induction bs with
  | nil => simp [ofLe]
  | cons b bs ih =>
    have hb : b.toNat < 256 := b.toNat_lt
    rw [ofLe, List.length_cons, pow_succ]
    omega

theorem leBytes_ofLe (bs : Bytes) : leBytes bs.length (ofLe bs) = bs := by
  induction bs with
  | nil => rfl
  | cons b bs ih =>
    have hb : b.toNat < 256 := b.toNat_lt
    have hlow : UInt8.ofNat (b.toNat + 256 * ofLe bs) = b := by
      apply UInt8.toNat_inj.mp
      rw [UInt8.toNat_ofNat']
      omega
    have hhigh : (b.toNat + 256 * ofLe bs) / 256 = ofLe bs := by omega
    rw [List.length_cons, ofLe, leBytes, hlow, hhigh, ih]

theorem ofLe_append (a b : Bytes) : ofLe (a ++ b) = ofLe a + 256 ^ a.length * ofLe b := by
  induction a with
  | nil => simp [ofLe]
  | cons x a ih =>
    rw [List.cons_append, ofLe, ofLe, ih, List.length_cons, pow_succ]
    ring

theorem ofLe_take (bs : Bytes) (n : ℕ) : ofLe (bs.take n) = ofLe bs % 256 ^ n := by
  by_cases hn : n ≤ bs.length
  · have hsplit := ofLe_append (bs.take n) (bs.drop n)
    have hlen : (bs.take n).length = n := List.length_take_of_le hn
    have hlt := ofLe_lt (bs.take n)
    rw [List.take_append_drop, hlen] at hsplit
    rw [hlen] at hlt
    rw [hsplit, Nat.add_mul_mod_self_left, Nat.mod_eq_of_lt hlt]
  · have hlt := ofLe_lt bs
    have hpow : 256 ^ bs.length ≤ 256 ^ n := Nat.pow_le_pow_right (by norm_num) (by omega)
    rw [List.take_of_length_le (by omega), Nat.mod_eq_of_lt (by omega)]

/-- A machine word in memory, as the bytes of its little-endian representation. -/
def wordBytes {w : ℕ} (x : BitVec w) : Bytes := leBytes (w / 8) x.toNat

@[simp] theorem length_wordBytes {w : ℕ} (x : BitVec w) : (wordBytes x).length = w / 8 :=
  length_leBytes _ _

theorem ofLe_wordBytes {w : ℕ} (hw : 8 ∣ w) (x : BitVec w) : ofLe (wordBytes x) = x.toNat := by
  obtain ⟨n, rfl⟩ := hw
  have hx : x.toNat < 256 ^ n := by
    have := x.isLt
    rwa [pow_mul] at this
  rw [wordBytes, Nat.mul_div_cancel_left n (by norm_num), ofLe_leBytes_of_lt hx]

theorem wordBytes_ofLe {w : ℕ} (hw : 8 ∣ w) {bs : Bytes} (h : bs.length = w / 8) :
    wordBytes (BitVec.ofNat w (ofLe bs)) = bs := by
  have hlt := ofLe_lt bs
  have hpow : 256 ^ bs.length = 2 ^ w := by
    rw [h, show 256 = 2 ^ 8 from rfl, ← pow_mul, Nat.mul_div_cancel' hw]
  rw [wordBytes, BitVec.toNat_ofNat, Nat.mod_eq_of_lt (by omega), ← h, leBytes_ofLe]

/-- A string literal of ASCII characters, without a terminating NUL. -/
def ascii (s : String) : Bytes := s.toList.map fun c => UInt8.ofNat c.toNat

/-- `memset(buf, 0, n)`. -/
def zeros (n : ℕ) : Bytes := List.replicate n 0

@[simp] theorem length_zeros (n : ℕ) : (zeros n).length = n := List.length_replicate

def slice (b : Bytes) (pos n : ℕ) : Bytes := (b.drop pos).take n

/-- The middle of three concatenated pieces is found at the length of the first. -/
theorem slice_mid (a b c : Bytes) : slice (a ++ (b ++ c)) a.length b.length = b := by
  simp [slice]

theorem slice_mid_of_eq {a b c : Bytes} {pos n : ℕ} (hp : pos = a.length) (hn : n = b.length) :
    slice (a ++ (b ++ c)) pos n = b := by
  subst hp hn
  exact slice_mid a b c

theorem slice_slice {b : Bytes} {pos m n : ℕ} (h : m ≤ n) :
    slice (slice b pos n) 0 m = slice b pos m := by
  rw [slice, slice, slice, List.drop_zero, List.take_take, min_eq_left h]

/-- Block `k` of a sequence of equally long blocks. -/
theorem slice_flatMap {α : Type*} (f : α → Bytes) (n : ℕ) (xs : List α)
    (hf : ∀ x ∈ xs, (f x).length = n) {k : ℕ} (hk : k < xs.length) :
    slice (xs.flatMap f) (k * n) n = f xs[k] := by
  induction xs generalizing k with
  | nil => simp at hk
  | cons x xs ih =>
    have hx : (f x).length = n := hf x List.mem_cons_self
    cases k with
    | zero => simp [slice, hx]
    | succ k =>
      have hrest := ih (fun y hy => hf y (List.mem_cons_of_mem x hy)) (k := k) (by simpa using hk)
      rw [slice, List.flatMap_cons, Nat.succ_mul, Nat.add_comm (k * n), ← List.drop_drop,
        List.drop_left' hx]
      exact hrest

theorem length_flatMap_const {α : Type*} (f : α → Bytes) (n : ℕ) (xs : List α)
    (hf : ∀ x ∈ xs, (f x).length = n) : (xs.flatMap f).length = xs.length * n := by
  induction xs with
  | nil => simp
  | cons x xs ih =>
    rw [List.flatMap_cons, List.length_append, hf x List.mem_cons_self,
      ih (fun y hy => hf y (List.mem_cons_of_mem x hy)), List.length_cons]
    ring

end Opencore.Machine
