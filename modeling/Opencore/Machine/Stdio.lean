import Opencore.Machine.Bytes

/-! A stdio stream on a regular file. What the file system answers to the writes to come
is part of the stream, so one run covers every pattern of failures. -/
namespace Opencore.Machine

def ENOSPC : ℕ := 28

/-- Outcome of one `fwrite`. A failed one may have stored a first part of its bytes. -/
inductive WriteResult
  | ok
  | fail (errno : ℕ) (written : ℕ)
  deriving DecidableEq, Repr

structure FILE where
  content : Bytes
  pos : ℕ
  /-- The results of the writes to come, in order. -/
  plan : ℕ → WriteResult

namespace FILE

/-- Store bytes at the file position, filling a hole before it with zeros. -/
def store (fp : FILE) (b : Bytes) : FILE :=
  { fp with
    content := fp.content.take fp.pos ++ zeros (fp.pos - fp.content.length) ++ b ++
      fp.content.drop (fp.pos + b.length)
    pos := fp.pos + b.length }

/-- `fwrite(b, sizeof b, 1, fp)` and what it met. -/
def fwrite (fp : FILE) (b : Bytes) : WriteResult × FILE :=
  let rest := { fp with plan := fun n => fp.plan (n + 1) }
  match fp.plan 0 with
  | .ok => (.ok, rest.store b)
  | .fail errno written => (.fail errno written, rest.store (b.take written))

/-- `fwrite` by a caller that ignores its result. -/
def write (fp : FILE) (b : Bytes) : FILE := (fp.fwrite b).2

/-- `fseek(fp, pos, SEEK_SET)`. -/
def fseek (fp : FILE) (pos : ℕ) : FILE := { fp with pos := pos }

/-- `ftell` where `long` has `w` bits: -1 when the position does not fit. -/
def ftell (w : ℕ) (fp : FILE) : ℤ := if fp.pos < 2 ^ (w - 1) then fp.pos else -1

/-- A new empty file whose writes will meet `plan`. -/
def create (plan : ℕ → WriteResult) : FILE := ⟨[], 0, plan⟩

/-- A stream that is positioned at its end and whose writes all succeed. -/
structure Appending (fp : FILE) : Prop where
  at_end : fp.pos = fp.content.length
  no_fault : ∀ n, fp.plan n = .ok

def append (fp : FILE) (b : Bytes) : FILE :=
  { fp with content := fp.content ++ b, pos := fp.content.length + b.length }

theorem appending_create {plan : ℕ → WriteResult} (h : ∀ n, plan n = .ok) :
    (create plan).Appending := ⟨rfl, h⟩

@[simp] theorem content_append (fp : FILE) (b : Bytes) :
    (fp.append b).content = fp.content ++ b := rfl

@[simp] theorem pos_append (fp : FILE) (b : Bytes) :
    (fp.append b).pos = fp.content.length + b.length := rfl

theorem Appending.append {fp : FILE} (h : fp.Appending) (b : Bytes) : (fp.append b).Appending :=
  ⟨by simp, h.no_fault⟩

@[simp] theorem append_append (fp : FILE) (a b : Bytes) :
    (fp.append a).append b = fp.append (a ++ b) := by
  simp [FILE.append, Nat.add_assoc]

theorem append_nil {fp : FILE} (h : fp.Appending) : fp.append [] = fp := by
  obtain ⟨content, pos, plan⟩ := fp
  have hp : pos = content.length := h.at_end
  simp [FILE.append, hp]

theorem fwrite_eq {fp : FILE} (h : fp.Appending) (b : Bytes) :
    fp.fwrite b = (.ok, fp.append b) := by
  obtain ⟨content, pos, plan⟩ := fp
  have hp : pos = content.length := h.at_end
  have hplan : ∀ n, plan n = .ok := h.no_fault
  have hshift : (fun n => plan (n + 1)) = plan := by funext n; rw [hplan, hplan]
  simp only [fwrite, hplan 0, hshift]
  simp [store, FILE.append, hp, zeros]

theorem write_eq {fp : FILE} (h : fp.Appending) (b : Bytes) : fp.write b = fp.append b := by
  rw [write, fwrite_eq h]

/-- Writing the items of a list in turn appends their bytes in order. -/
theorem foldl_write {α : Type*} {fp : FILE} (h : fp.Appending) (f : α → Bytes) (xs : List α) :
    xs.foldl (fun fp x => fp.write (f x)) fp = fp.append (xs.flatMap f) := by
  induction xs generalizing fp with
  | nil => rw [List.foldl_nil, List.flatMap_nil, append_nil h]
  | cons x xs ih =>
    rw [List.foldl_cons, write_eq h, ih (h.append _), append_append, List.flatMap_cons]

theorem foldl_append {α : Type*} {step : FILE → α → FILE} {f : α → Bytes}
    (hstep : ∀ fp x, fp.Appending → step fp x = fp.append (f x)) {fp : FILE}
    (h : fp.Appending) (xs : List α) :
    xs.foldl step fp = fp.append (xs.flatMap f) := by
  induction xs generalizing fp with
  | nil => rw [List.foldl_nil, List.flatMap_nil, append_nil h]
  | cons x xs ih =>
    rw [List.foldl_cons, hstep fp x h, ih (h.append _), append_append, List.flatMap_cons]

/-! Streams with failing writes. -/

/-- A write that fails has not stored all of its `n` bytes. -/
def PartialWrites (fp : FILE) (n : ℕ) : Prop :=
  ∀ k errno written, fp.plan k = .fail errno written → written < n

/-- `fp'` is `fp` with some bytes behind its end, after a number of writes. -/
structure Grown (fp fp' : FILE) (b : Bytes) : Prop where
  content : fp'.content = fp.content ++ b
  at_end : fp'.pos = fp'.content.length
  plan : ∃ k, ∀ n, fp'.plan n = fp.plan (n + k)

theorem Grown.refl {fp : FILE} (h : fp.pos = fp.content.length) : fp.Grown fp [] :=
  ⟨(List.append_nil _).symm, h, 0, fun _ => rfl⟩

theorem Grown.trans {fp fp' fp'' : FILE} {a b : Bytes} (h : fp.Grown fp' a)
    (h' : fp'.Grown fp'' b) : fp.Grown fp'' (a ++ b) := by
  obtain ⟨k, hk⟩ := h.plan
  obtain ⟨j, hj⟩ := h'.plan
  refine ⟨?_, h'.at_end, j + k, fun n => ?_⟩
  · rw [h'.content, h.content, List.append_assoc]
  · rw [hj, hk, Nat.add_assoc]

theorem Grown.pos {fp fp' : FILE} {b : Bytes} (h : fp.Grown fp' b)
    (hend : fp.pos = fp.content.length) : fp'.pos = fp.pos + b.length := by
  rw [h.at_end, h.content, List.length_append, hend]

theorem Grown.partialWrites {fp fp' : FILE} {b : Bytes} (h : fp.Grown fp' b) {n : ℕ}
    (hpart : fp.PartialWrites n) : fp'.PartialWrites n := by
  obtain ⟨k, hk⟩ := h.plan
  intro j errno written hj
  rw [hk] at hj
  exact hpart _ errno written hj

theorem store_at_end {fp : FILE} (h : fp.pos = fp.content.length) (b : Bytes) :
    (fp.store b).content = fp.content ++ b := by
  simp [store, h, zeros]

theorem fwrite_ok {fp : FILE} (h : fp.plan 0 = .ok) (b : Bytes) :
    fp.fwrite b = (.ok, { fp with plan := fun n => fp.plan (n + 1) }.store b) := by
  rw [fwrite, h]

theorem fwrite_fail {fp : FILE} {errno written : ℕ} (h : fp.plan 0 = .fail errno written)
    (b : Bytes) : fp.fwrite b =
      (.fail errno written,
        { fp with plan := fun n => fp.plan (n + 1) }.store (b.take written)) := by
  rw [fwrite, h]

theorem grown_store {fp : FILE} (h : fp.pos = fp.content.length) (b : Bytes) :
    fp.Grown ({ fp with plan := fun n => fp.plan (n + 1) }.store b) b := by
  have hcontent : ({ fp with plan := fun n => fp.plan (n + 1) }.store b).content =
      fp.content ++ b := store_at_end h b
  refine ⟨hcontent, ?_, 1, fun n => rfl⟩
  rw [hcontent, List.length_append, ← h]
  rfl

theorem store_store {fp : FILE} (h : fp.pos ≤ fp.content.length) (a b : Bytes) :
    (fp.store a).store b = fp.store (a ++ b) := by
  have hzero : fp.pos - fp.content.length = 0 := Nat.sub_eq_zero_of_le h
  have hfront : (fp.content.take fp.pos ++ a).length = fp.pos + a.length := by
    rw [List.length_append, List.length_take_of_le h]
  have hcontent : (fp.store a).content =
      (fp.content.take fp.pos ++ a) ++ fp.content.drop (fp.pos + a.length) := by
    simp [store, hzero, zeros]
  have hpos : (fp.store a).pos = fp.pos + a.length := rfl
  have hle : (fp.store a).pos - (fp.store a).content.length = 0 := by
    rw [hcontent, hpos, List.length_append, hfront]
    omega
  have htake : (fp.store a).content.take (fp.store a).pos = fp.content.take fp.pos ++ a := by
    rw [hcontent, hpos, List.take_left' hfront]
  have hdrop : (fp.store a).content.drop ((fp.store a).pos + b.length) =
      fp.content.drop (fp.pos + (a ++ b).length) := by
    rw [hcontent, hpos, ← List.drop_drop, List.drop_left' hfront, List.drop_drop,
      List.length_append, Nat.add_assoc]
  rw [store, htake, hle, hdrop]
  simp only [store, hzero, zeros, List.replicate_zero, List.append_nil, List.append_assoc,
    List.length_append, Nat.add_assoc]

theorem foldl_write_ok {α : Type*} (f : α → Bytes) (xs : List α) {fp : FILE}
    (hpos : fp.pos ≤ fp.content.length) (hok : ∀ k < xs.length, fp.plan k = .ok) :
    xs.foldl (fun fp x => fp.write (f x)) fp =
      { fp with plan := fun n => fp.plan (n + xs.length) }.store (xs.flatMap f) := by
  induction xs generalizing fp with
  | nil => simp [store, Nat.sub_eq_zero_of_le hpos, zeros]
  | cons x xs ih =>
    let next : FILE := { fp with plan := fun n => fp.plan (n + 1) }
    have hwrite : fp.write (f x) = next.store (f x) := by
      rw [write, fwrite_ok (hok 0 (Nat.succ_pos _))]
    have hpos' : (next.store (f x)).pos ≤ (next.store (f x)).content.length := by
      change fp.pos + (f x).length ≤ (fp.store (f x)).content.length
      rw [store]
      simp only [List.length_append, List.length_take, length_zeros, List.length_drop]
      omega
    have hrest := ih hpos' fun k hk => hok (k + 1) (Nat.succ_lt_succ hk)
    let last : FILE := { fp with plan := fun n => fp.plan (n + xs.length + 1) }
    have hstored : { next.store (f x) with
        plan := fun n => (next.store (f x)).plan (n + xs.length) } = last.store (f x) := rfl
    have hlast : last.pos ≤ last.content.length := hpos
    rw [List.foldl_cons, hwrite, hrest, hstored, store_store hlast, List.flatMap_cons]
    rfl

end FILE
end Opencore.Machine
