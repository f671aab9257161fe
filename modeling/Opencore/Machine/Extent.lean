import Opencore.Machine.Bytes

/-! Runs of bytes at addresses, and reading a byte through a list of them. -/
namespace Opencore.Machine

theorem exists_of_mem_right {α β : Type*} {R : α → β → Prop} {xs : List α} {ys : List β}
    (h : List.Forall₂ R xs ys) {y : β} (hy : y ∈ ys) : ∃ x ∈ xs, R x y := by
  induction h with
  | nil => exact absurd hy List.not_mem_nil
  | @cons x y' xs ys hxy _ ih =>
    rcases List.mem_cons.mp hy with rfl | hy
    · exact ⟨x, List.mem_cons_self, hxy⟩
    · obtain ⟨x', hx', hr⟩ := ih hy
      exact ⟨x', List.mem_cons_of_mem x hx', hr⟩

structure Extent where
  start : ℕ
  bytes : Bytes

namespace Extent

def covers (e : Extent) (addr : ℕ) : Bool := e.start ≤ addr && addr < e.start + e.bytes.length

/-- The byte at an address, from the first extent that covers it. -/
def readByte (es : List Extent) (addr : ℕ) : Option UInt8 :=
  (es.find? fun e => e.covers addr).bind fun e => e.bytes[addr - e.start]?

/-- No address is covered by two of them. -/
def Separate (es : List Extent) : Prop :=
  es.Pairwise fun e f => e.start + e.bytes.length ≤ f.start ∨ f.start + f.bytes.length ≤ e.start ∨
    e.bytes = [] ∨ f.bytes = []

def HasByte (e : Extent) (addr : ℕ) (b : UInt8) : Prop :=
  e.start ≤ addr ∧ e.bytes[addr - e.start]? = some b

theorem HasByte.covers {e : Extent} {addr : ℕ} {b : UInt8} (h : e.HasByte addr b) :
    e.covers addr = true := by
  obtain ⟨hle, hb⟩ := h
  have hlt := (List.getElem?_eq_some_iff.mp hb).1
  rw [Extent.covers, Bool.and_eq_true, decide_eq_true_iff, decide_eq_true_iff]
  omega

theorem covers_iff {e : Extent} {addr : ℕ} :
    e.covers addr = true ↔ e.start ≤ addr ∧ addr < e.start + e.bytes.length := by
  rw [covers, Bool.and_eq_true, decide_eq_true_iff, decide_eq_true_iff]

theorem readByte_cons (e : Extent) (es : List Extent) (addr : ℕ) :
    readByte (e :: es) addr =
      if e.covers addr then e.bytes[addr - e.start]? else readByte es addr := by
  unfold readByte
  rw [List.find?_cons]
  cases e.covers addr with
  | true => rfl
  | false => rfl

/-- Separate extents are read wherever one of them has a byte. -/
theorem readByte_iff {es : List Extent} (h : Separate es) {addr : ℕ} {b : UInt8} :
    readByte es addr = some b ↔ ∃ e ∈ es, e.HasByte addr b := by
  induction es with
  | nil => exact iff_of_false (fun hb => nomatch hb) fun ⟨_, he, _⟩ => nomatch he
  | cons e es ih =>
    obtain ⟨hfirst, hrest⟩ := List.pairwise_cons.mp h
    rw [readByte_cons]
    split_ifs with hcov
    · have hrange := covers_iff.mp hcov
      constructor
      · intro hb
        exact ⟨e, List.mem_cons_self, hrange.1, hb⟩
      · rintro ⟨f, hf, hbyte⟩
        rcases List.mem_cons.mp hf with rfl | hf
        · exact hbyte.2
        · have hother := covers_iff.mp hbyte.covers
          rcases hfirst f hf with hlt | hlt | hnil | hnil
          · omega
          · omega
          · rw [hnil] at hrange
            exact absurd hrange.2 (by simpa using hrange.1)
          · rw [hnil] at hother
            exact absurd hother.2 (by simpa using hother.1)
    · rw [ih hrest]
      constructor
      · rintro ⟨f, hf, hbyte⟩
        exact ⟨f, List.mem_cons_of_mem e hf, hbyte⟩
      · rintro ⟨f, hf, hbyte⟩
        rcases List.mem_cons.mp hf with rfl | hf
        · exact absurd hbyte.covers hcov
        · exact ⟨f, hf, hbyte⟩

end Extent
end Opencore.Machine
