import Opencore.Machine.Bytes

/-! Readers that take one item from the front of a byte string and return the rest. -/
namespace Opencore.Machine

def takeWord (w : ℕ) (bs : Bytes) : Option (BitVec w × Bytes) :=
  if bs.length < w / 8 then none
  else some (BitVec.ofNat w (ofLe (bs.take (w / 8))), bs.drop (w / 8))

def takeMany {α : Type*} (take : Bytes → Option (α × Bytes)) : ℕ → Bytes → Option (List α × Bytes)
  | 0, bs => some ([], bs)
  | n + 1, bs =>
    (take bs).bind fun (x, rest) => (takeMany take n rest).map fun (xs, rest) => (x :: xs, rest)

/-- The bytes in front of the first NUL. -/
def takeString : Bytes → Option (Bytes × Bytes)
  | [] => none
  | b :: bs => if b = 0 then some ([], bs) else (takeString bs).map fun (s, rest) => (b :: s, rest)

theorem takeWord_wordBytes {w : ℕ} (hw : 8 ∣ w) (x : BitVec w) (rest : Bytes) :
    takeWord w (wordBytes x ++ rest) = some (x, rest) := by
  have hlen := length_wordBytes x
  have hvalue : BitVec.ofNat w (ofLe (wordBytes x)) = x := by
    rw [ofLe_wordBytes hw, BitVec.ofNat_toNat, BitVec.setWidth_eq]
  rw [takeWord, if_neg (by rw [List.length_append]; omega), List.take_left' hlen,
    List.drop_left' hlen, hvalue]

def withWord {α : Type*} (w : ℕ) (bs : Bytes) (next : BitVec w → Bytes → Option α) : Option α :=
  (takeWord w bs).bind fun item => next item.1 item.2

theorem withWord_wordBytes {α : Type*} {w : ℕ} (hw : 8 ∣ w) (x : BitVec w) (rest : Bytes)
    (next : BitVec w → Bytes → Option α) :
    withWord w (wordBytes x ++ rest) next = next x rest := by
  rw [withWord, takeWord_wordBytes hw, Option.bind_some]

theorem takeMany_flatMap {α : Type*} {take : Bytes → Option (α × Bytes)} {bytes : α → Bytes}
    {xs : List α} (h : ∀ x ∈ xs, ∀ rest, take (bytes x ++ rest) = some (x, rest)) (rest : Bytes) :
    takeMany take xs.length (xs.flatMap bytes ++ rest) = some (xs, rest) := by
  induction xs with
  | nil => rfl
  | cons x xs ih =>
    have hx := h x List.mem_cons_self (xs.flatMap bytes ++ rest)
    have hxs := ih fun y hy => h y (List.mem_cons_of_mem x hy)
    simp only [List.length_cons, List.flatMap_cons, List.append_assoc, takeMany, hx,
      Option.bind_some, hxs, Option.map_some]

theorem takeString_append {s : Bytes} (h : (0 : UInt8) ∉ s) (rest : Bytes) :
    takeString (s ++ [0] ++ rest) = some (s, rest) := by
  induction s with
  | nil => rfl
  | cons b s ih =>
    rw [List.mem_cons, not_or] at h
    rw [List.cons_append, List.cons_append, takeString, if_neg (Ne.symm h.1), ih h.2,
      Option.map_some]

/-- A string ends at the first NUL, and takes no other. -/
theorem takeString_of_count {bs : Bytes} (h : 0 < bs.count 0) :
    ∃ s rest, takeString bs = some (s, rest) ∧ rest.count 0 + 1 = bs.count 0 := by
  induction bs with
  | nil => simp at h
  | cons b bs ih =>
    unfold takeString
    by_cases hb : b = 0
    · subst hb
      exact ⟨[], bs, if_pos rfl, by rw [List.count_cons_self]⟩
    · rw [if_neg hb]
      rw [List.count_cons_of_ne hb] at h ⊢
      obtain ⟨s, rest, hs, hcount⟩ := ih h
      exact ⟨b :: s, rest, by rw [hs, Option.map_some], hcount⟩

/-- There are as many strings as NULs. -/
theorem takeMany_takeString {n : ℕ} {bs : Bytes} (h : n ≤ bs.count 0) :
    ∃ names rest, takeMany takeString n bs = some (names, rest) := by
  induction n generalizing bs with
  | zero => exact ⟨[], bs, rfl⟩
  | succ n ih =>
    obtain ⟨s, rest, hs, hcount⟩ := takeString_of_count (show 0 < bs.count 0 by omega)
    obtain ⟨names, rest', hnames⟩ := ih (show n ≤ rest.count 0 by omega)
    refine ⟨s :: names, rest', ?_⟩
    simp only [takeMany, hs, Option.bind_some, hnames, Option.map_some]

/-! What follows the bytes that a reader needs does not change what it reads. -/

end Opencore.Machine
