import Opencore.Machine.Bytes

/-! Modified UTF-8: one to three bytes for each UTF-16 code unit, and no byte zero. -/
namespace Opencore.Machine

/-- The UTF-16 code units of a string, unpaired surrogates included. -/
abbrev Utf16 := List UInt16

/-- NUL takes two bytes, a surrogate three. -/
def unitBytes (u : UInt16) : Bytes :=
  let n := u.toNat
  if 0 < n ∧ n < 0x80 then [UInt8.ofNat n]
  else if n < 0x800 then [UInt8.ofNat (0xc0 + n / 64), UInt8.ofNat (0x80 + n % 64)]
  else [UInt8.ofNat (0xe0 + n / 4096), UInt8.ofNat (0x80 + n / 64 % 64),
    UInt8.ofNat (0x80 + n % 64)]

def encodeUtf (s : Utf16) : Bytes := s.flatMap unitBytes

/-- A byte that is a code unit by itself. -/
def IsSingle (b : UInt8) : Prop := 0 < b.toNat ∧ b.toNat < 0x80

def IsTail (b : UInt8) : Prop := 0x80 ≤ b.toNat ∧ b.toNat < 0xc0

instance (b : UInt8) : Decidable (IsSingle b) := inferInstanceAs (Decidable (_ ∧ _))

instance (b : UInt8) : Decidable (IsTail b) := inferInstanceAs (Decidable (_ ∧ _))

/-- The code units of the bytes, where so many bytes are owed to the unit whose high bits have
been read. -/
def decodeFrom : ℕ → ℕ → Bytes → Option Utf16
  | 0, _, [] => some []
  | _ + 1, _, [] => none
  | 0, _, b :: bs =>
    if IsSingle b then (decodeFrom 0 0 bs).map (UInt16.ofNat b.toNat :: ·)
    else if 0xc0 ≤ b.toNat ∧ b.toNat < 0xe0 then decodeFrom 1 (b.toNat - 0xc0) bs
    else if 0xe0 ≤ b.toNat ∧ b.toNat < 0xf0 then decodeFrom 2 (b.toNat - 0xe0) bs
    else none
  | 1, high, b :: bs =>
    if IsTail b then
      (decodeFrom 0 0 bs).map (UInt16.ofNat (high * 64 + (b.toNat - 0x80)) :: ·)
    else none
  | owed + 2, high, b :: bs =>
    if IsTail b then decodeFrom (owed + 1) (high * 64 + (b.toNat - 0x80)) bs else none

def decodeUtf (bs : Bytes) : Option Utf16 := decodeFrom 0 0 bs

theorem toNat_byte_of_lt {n : ℕ} (h : n < 256) : (UInt8.ofNat n).toNat = n := by
  rw [UInt8.toNat_ofNat', Nat.mod_eq_of_lt h]

theorem decodeFrom_single {b : UInt8} (h : IsSingle b) (high : ℕ) (bs : Bytes) :
    decodeFrom 0 high (b :: bs) = (decodeUtf bs).map (UInt16.ofNat b.toNat :: ·) := by
  rw [decodeFrom, if_pos h, decodeUtf]

theorem decodeFrom_two {b : UInt8} (hlow : 0xc0 ≤ b.toNat) (hhigh : b.toNat < 0xe0) (high : ℕ)
    (bs : Bytes) : decodeFrom 0 high (b :: bs) = decodeFrom 1 (b.toNat - 0xc0) bs := by
  have hnot : ¬ IsSingle b := fun h => absurd h.2 (by omega)
  rw [decodeFrom, if_neg hnot, if_pos ⟨hlow, hhigh⟩]

theorem decodeFrom_three {b : UInt8} (hlow : 0xe0 ≤ b.toNat) (hhigh : b.toNat < 0xf0) (high : ℕ)
    (bs : Bytes) : decodeFrom 0 high (b :: bs) = decodeFrom 2 (b.toNat - 0xe0) bs := by
  have hnot : ¬ IsSingle b := fun h => absurd h.2 (by omega)
  rw [decodeFrom, if_neg hnot, if_neg (by omega), if_pos ⟨hlow, hhigh⟩]

theorem decodeFrom_tail {n : ℕ} (h : n < 64) (owed high : ℕ) (bs : Bytes) :
    decodeFrom (owed + 2) high (UInt8.ofNat (0x80 + n) :: bs) =
      decodeFrom (owed + 1) (high * 64 + n) bs := by
  have hvalue : (UInt8.ofNat (0x80 + n)).toNat = 0x80 + n := toNat_byte_of_lt (by omega)
  have htail : IsTail (UInt8.ofNat (0x80 + n)) := by
    rw [IsTail, hvalue]
    omega
  rw [decodeFrom, if_pos htail, hvalue, Nat.add_sub_cancel_left]

theorem decodeFrom_last {n : ℕ} (h : n < 64) (high : ℕ) (bs : Bytes) :
    decodeFrom 1 high (UInt8.ofNat (0x80 + n) :: bs) =
      (decodeUtf bs).map (UInt16.ofNat (high * 64 + n) :: ·) := by
  have hvalue : (UInt8.ofNat (0x80 + n)).toNat = 0x80 + n := toNat_byte_of_lt (by omega)
  have htail : IsTail (UInt8.ofNat (0x80 + n)) := by
    rw [IsTail, hvalue]
    omega
  rw [decodeFrom, if_pos htail, hvalue, Nat.add_sub_cancel_left, decodeUtf]

theorem decodeFrom_notTail {b : UInt8} (h : ¬ IsTail b) (owed high : ℕ) (bs : Bytes) :
    decodeFrom (owed + 1) high (b :: bs) = none := by
  cases owed with
  | zero => rw [decodeFrom, if_neg h]
  | succ owed => rw [decodeFrom, if_neg h]

/-- What stands behind a code unit is read as if nothing stood before it. -/
theorem decodeUtf_unitBytes (u : UInt16) (bs : Bytes) :
    decodeUtf (unitBytes u ++ bs) = (decodeUtf bs).map (u :: ·) := by
  have hlt : u.toNat < 65536 := u.toNat_lt
  have hu {n : ℕ} (h : n = u.toNat) : UInt16.ofNat n = u := by
    rw [h, UInt16.ofNat_toNat]
  unfold unitBytes
  dsimp only
  split_ifs with hone htwo
  · have hvalue := toNat_byte_of_lt (show u.toNat < 256 by omega)
    have hsingle : IsSingle (UInt8.ofNat u.toNat) := by rwa [IsSingle, hvalue]
    rw [List.singleton_append, decodeUtf, decodeFrom_single hsingle, hvalue, hu rfl]
  · have hvalue := toNat_byte_of_lt (show 0xc0 + u.toNat / 64 < 256 by omega)
    rw [List.cons_append, List.singleton_append, decodeUtf,
      decodeFrom_two (by omega) (by omega), hvalue,
      decodeFrom_last (Nat.mod_lt _ (by norm_num)), hu (by omega)]
  · have hvalue := toNat_byte_of_lt (show 0xe0 + u.toNat / 4096 < 256 by omega)
    rw [List.cons_append, List.cons_append, List.singleton_append, decodeUtf,
      decodeFrom_three (by omega) (by omega), hvalue,
      decodeFrom_tail (Nat.mod_lt _ (by norm_num)), decodeFrom_last (Nat.mod_lt _ (by norm_num)),
      hu (by omega)]

theorem decodeUtf_encodeUtf (s : Utf16) : decodeUtf (encodeUtf s) = some s := by
  induction s with
  | nil => rfl
  | cons u s ih =>
    rw [encodeUtf, List.flatMap_cons, decodeUtf_unitBytes]
    change (decodeUtf (encodeUtf s)).map _ = _
    rw [ih, Option.map_some]

theorem zero_notMem_unitBytes (u : UInt16) : 0 ∉ unitBytes u := by
  have hlt : u.toNat < 65536 := u.toNat_lt
  have hne {n : ℕ} (hpos : 0 < n) (h : n < 256) : (0 : UInt8) ≠ UInt8.ofNat n := by
    intro heq
    have hzero := congrArg UInt8.toNat heq
    rw [toNat_byte_of_lt h] at hzero
    exact hpos.ne hzero
  unfold unitBytes
  dsimp only
  split_ifs with hone htwo <;>
    simp only [List.mem_cons, List.not_mem_nil, or_false, not_or]
  · exact hne (by omega) (by omega)
  · exact ⟨hne (by omega) (by omega), hne (by omega) (by omega)⟩
  · exact ⟨hne (by omega) (by omega), hne (by omega) (by omega), hne (by omega) (by omega)⟩

/-- A C string holds the whole of it. -/
theorem zero_notMem_encodeUtf (s : Utf16) : 0 ∉ encodeUtf s := by
  intro hmem
  obtain ⟨u, -, hu⟩ := List.mem_flatMap.mp hmem
  exact zero_notMem_unitBytes u hu

/-- A byte that is a unit by itself separates what is read on its two sides: no unit is complete
because of it, and none begins before it and ends behind it. -/
theorem decodeFrom_split {b : UInt8} (hb : IsSingle b) (owed high : ℕ) (xs ys : Bytes) :
    decodeFrom owed high (xs ++ b :: ys) =
      (decodeFrom owed high xs).bind fun s =>
        (decodeUtf ys).map fun t => s ++ UInt16.ofNat b.toNat :: t := by
  have hnot : ¬ IsTail b := fun h => absurd hb.2 (not_lt.mpr h.1)
  have hcons (u : UInt16) (s : Option Utf16) :
      (s.bind fun s => (decodeUtf ys).map fun t => s ++ UInt16.ofNat b.toNat :: t).map (u :: ·) =
        (s.map (u :: ·)).bind fun s =>
          (decodeUtf ys).map fun t => s ++ UInt16.ofNat b.toNat :: t := by
    cases s with
    | none => rfl
    | some s => cases decodeUtf ys <;> rfl
  induction owed, high, xs using decodeFrom.induct with
  | case1 high => exact decodeFrom_single hb high ys
  | case2 owed high => exact decodeFrom_notTail hnot owed high ys
  | case3 high c xs hc ih => rw [List.cons_append, decodeFrom, if_pos hc, ih, hcons, decodeFrom,
      if_pos hc]
  | case4 high c xs hc htwo ih => rw [List.cons_append, decodeFrom, if_neg hc, if_pos htwo, ih,
      decodeFrom, if_neg hc, if_pos htwo]
  | case5 high c xs hc htwo hthree ih => rw [List.cons_append, decodeFrom, if_neg hc, if_neg htwo,
      if_pos hthree, ih, decodeFrom, if_neg hc, if_neg htwo, if_pos hthree]
  | case6 high c xs hc htwo hthree => rw [List.cons_append, decodeFrom, if_neg hc, if_neg htwo,
      if_neg hthree, decodeFrom, if_neg hc, if_neg htwo, if_neg hthree, Option.bind_none]
  | case7 high c xs hc ih => rw [List.cons_append, decodeFrom, if_pos hc, ih, hcons, decodeFrom,
      if_pos hc]
  | case8 high c xs hc => rw [List.cons_append, decodeFrom_notTail hc, decodeFrom_notTail hc,
      Option.bind_none]
  | case9 owed high c xs hc ih => rw [List.cons_append, decodeFrom, if_pos hc, ih, decodeFrom,
      if_pos hc]
  | case10 owed high c xs hc => rw [List.cons_append, decodeFrom_notTail hc,
      decodeFrom_notTail hc, Option.bind_none]

theorem decodeUtf_split {b : UInt8} (hb : IsSingle b) (xs ys : Bytes) :
    decodeUtf (xs ++ b :: ys) =
      (decodeUtf xs).bind fun s => (decodeUtf ys).map fun t => s ++ UInt16.ofNat b.toNat :: t :=
  decodeFrom_split hb 0 0 xs ys

/-- Where the separator is a unit by itself, the parts can be read one by one. -/
theorem decodeUtf_intercalate {b : UInt8} (hb : IsSingle b) (xs : List Bytes) :
    decodeUtf ([b].intercalate xs) =
      (xs.mapM decodeUtf).map fun ss => [UInt16.ofNat b.toNat].intercalate ss := by
  induction xs with
  | nil => rfl
  | cons x xs ih =>
    cases xs with
    | nil =>
      rw [List.intercalate_singleton, List.mapM_cons, List.mapM_nil]
      cases decodeUtf x with
      | none => rfl
      | some s => simp
    | cons y ys =>
      rw [List.intercalate_cons_cons, List.append_assoc, List.singleton_append, decodeUtf_split hb,
        ih, List.mapM_cons (a := x), List.mapM_cons (a := y)]
      cases decodeUtf x with
      | none => rfl
      | some s =>
        cases decodeUtf y with
        | none => rfl
        | some t => cases ys.mapM decodeUtf <;> simp

theorem decodeUtf_singles {xs : Bytes} (h : ∀ b ∈ xs, IsSingle b) (ys : Bytes) :
    decodeUtf (xs ++ ys) = (decodeUtf ys).map (xs.map (fun b => UInt16.ofNat b.toNat) ++ ·) := by
  induction xs with
  | nil => exact Option.map_id'.symm
  | cons b xs ih =>
    have hb := h b List.mem_cons_self
    rw [List.cons_append, decodeUtf, decodeFrom_single hb, ih fun c hc =>
      h c (List.mem_cons_of_mem b hc), Option.map_map]
    rfl

end Opencore.Machine
