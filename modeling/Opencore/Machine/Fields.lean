import Mathlib

/-! Texts of fields with a separator between them, and what can be read back from one. -/
namespace Opencore.Machine

variable {α β : Type*}

section Separator

variable {sep : α} {xs ys : List (List α)}

theorem intercalate_eq_nil (hxs : ∀ x ∈ xs, x ≠ []) (h : [sep].intercalate xs = []) : xs = [] := by
  cases xs with
  | nil => rfl
  | cons x xs =>
    have hx := hxs x List.mem_cons_self
    cases xs with
    | nil =>
      rw [List.intercalate_singleton] at h
      exact absurd h hx
    | cons y xs =>
      rw [List.intercalate_cons_cons, List.append_assoc, List.append_eq_nil_iff] at h
      exact absurd h.1 hx

variable [DecidableEq α]

/-- Fields without the separator in them can be told from their text. -/
theorem intercalate_inj (hxs : ∀ x ∈ xs, sep ∉ x ∧ x ≠ []) (hys : ∀ y ∈ ys, sep ∉ y ∧ y ≠ [])
    (h : [sep].intercalate xs = [sep].intercalate ys) : xs = ys := by
  by_cases hx : xs = []
  · subst hx
    exact (intercalate_eq_nil (fun y hy => (hys y hy).2) h.symm).symm
  by_cases hy : ys = []
  · subst hy
    exact intercalate_eq_nil (fun x hx => (hxs x hx).2) h
  have hsplit := congrArg (List.splitOn sep) h
  rwa [List.splitOn_intercalate sep (fun x hx => (hxs x hx).1) hx,
    List.splitOn_intercalate sep (fun y hy => (hys y hy).1) hy] at hsplit

/-- Their number is enough to find them behind a text that may contain the separator. -/
theorem append_intercalate_inj {front front' : List α} (hxs : ∀ x ∈ xs, sep ∉ x)
    (hys : ∀ y ∈ ys, sep ∉ y) (hx : xs ≠ []) (hlen : xs.length = ys.length)
    (h : front ++ sep :: [sep].intercalate xs = front' ++ sep :: [sep].intercalate ys) :
    front = front' ∧ xs = ys := by
  have hy : ys ≠ [] := by
    intro hnil
    rw [hnil] at hlen
    exact hx (List.length_eq_zero_iff.mp hlen)
  have hsplit := congrArg (List.splitOn sep) h
  rw [List.splitOn_append_cons_self, List.splitOn_append_cons_self,
    List.splitOn_intercalate sep hxs hx, List.splitOn_intercalate sep hys hy] at hsplit
  obtain ⟨hfront, hfields⟩ := List.append_inj' hsplit hlen
  have hjoin := congrArg [sep].intercalate hfront
  rw [List.intercalate_splitOn, List.intercalate_splitOn] at hjoin
  exact ⟨hjoin, hfields⟩

end Separator

/-- A selection from a list without repetitions can be told from what it selects. -/
theorem filter_map_inj {f : β → α} {p q : β → Bool} {xs : List β} (hnd : (xs.map f).Nodup)
    (h : (xs.filter p).map f = (xs.filter q).map f) : ∀ x ∈ xs, p x = q x := by
  have hmem {p : β → Bool} {x : β} (hx : x ∈ xs) : f x ∈ (xs.filter p).map f ↔ p x = true := by
    rw [List.mem_map]
    constructor
    · rintro ⟨y, hy, heq⟩
      obtain ⟨hyxs, hpy⟩ := List.mem_filter.mp hy
      rwa [List.inj_on_of_nodup_map hnd hyxs hx heq] at hpy
    · exact fun hpx => ⟨x, List.mem_filter.mpr ⟨hx, hpx⟩, rfl⟩
  intro x hx
  rw [Bool.eq_iff_iff, ← hmem hx, ← hmem hx, h]

end Opencore.Machine
