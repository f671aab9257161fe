import Mathlib

/-! Runs of a labelled transition relation, and the rule that carries an invariant along one. -/
namespace Opencore.Machine

variable {σ α : Type*} {step : σ → α → σ → Prop}

/-- The events lead from the first state to the last. -/
inductive Run (step : σ → α → σ → Prop) : σ → List α → σ → Prop
  | nil (s : σ) : Run step s [] s
  | cons {s t u : σ} {x : α} {xs : List α} : step s x t → Run step t xs u → Run step s (x :: xs) u

/-- What a family holds after one of its members was updated. -/
theorem update_eq_cases {ι β : Type*} [DecidableEq ι] {f : ι → β} {i j : ι} {x y : β}
    (h : Function.update f i x j = y) : (j = i ∧ x = y) ∨ (j ≠ i ∧ f j = y) := by
  by_cases hj : j = i
  · subst hj
    rw [Function.update_self] at h
    exact Or.inl ⟨rfl, h⟩
  · rw [Function.update_of_ne hj] at h
    exact Or.inr ⟨hj, h⟩

theorem forall_update {ι β : Type*} [DecidableEq ι] {f : ι → β} {p : β → Prop}
    (hf : ∀ j, p (f j)) (i : ι) {x : β} (hx : p x) (j : ι) : p (Function.update f i x j) := by
  rcases update_eq_cases (rfl : Function.update f i x j = _) with ⟨-, hown⟩ | ⟨-, hother⟩
  · rw [← hown]
    exact hx
  · rw [← hother]
    exact hf j

/-- What every step preserves holds at the end of every run. -/
theorem Run.invariant {I : σ → Prop} (hstep : ∀ s x t, I s → step s x t → I t) {s u : σ}
    {xs : List α} (hrun : Run step s xs u) (h : I s) : I u := by
  induction hrun with
  | nil s => exact h
  | cons hx _ ih => exact ih (hstep _ _ _ h hx)

/-- The same for what relates a state to the events that led to it. -/
theorem Run.history {I : List α → σ → Prop}
    (hstep : ∀ past s x t, I past s → step s x t → I (past ++ [x]) t) {s u : σ} {xs past : List α}
    (hrun : Run step s xs u) (h : I past s) : I (past ++ xs) u := by
  induction hrun generalizing past with
  | nil s => simpa using h
  | cons hx _ ih => simpa using ih (hstep _ _ _ _ h hx)

theorem Run.append {s t u : σ} {xs ys : List α} (hxs : Run step s xs t) (hys : Run step t ys u) :
    Run step s (xs ++ ys) u := by
  induction hxs with
  | nil s => exact hys
  | cons hx _ ih => exact .cons hx (ih hys)

theorem Run.of_append {s u : σ} {xs ys : List α} (hrun : Run step s (xs ++ ys) u) :
    ∃ t, Run step s xs t ∧ Run step t ys u := by
  induction xs generalizing s with
  | nil => exact ⟨s, .nil s, hrun⟩
  | cons x xs ih =>
    cases hrun with
    | cons hx hrest =>
      obtain ⟨t, hxs, hys⟩ := ih hrest
      exact ⟨t, .cons hx hxs, hys⟩

theorem Run.mono {step' : σ → α → σ → Prop} (h : ∀ s x t, step s x t → step' s x t) {s u : σ}
    {xs : List α} (hrun : Run step s xs u) : Run step' s xs u := by
  induction hrun with
  | nil s => exact .nil s
  | cons hx _ ih => exact .cons (h _ _ _ hx) ih

/-- A side condition that an invariant gives holds along the whole run. -/
theorem Run.restrict {I : σ → Prop} {P : σ → α → Prop} (hstep : ∀ s x t, I s → step s x t → I t)
    (hside : ∀ s x t, I s → step s x t → P s x) {s u : σ} {xs : List α}
    (hrun : Run step s xs u) (h : I s) : Run (fun s x t => step s x t ∧ P s x) s xs u := by
  induction hrun with
  | nil s => exact .nil s
  | cons hx _ ih => exact .cons ⟨hx, hside _ _ _ h hx⟩ (ih (hstep _ _ _ h hx))

/-- Side conditions that agree under an invariant allow the same runs. -/
theorem Run.side_iff {I : σ → Prop} {P Q : σ → α → Prop}
    (hstep : ∀ s x t, I s → step s x t → I t) (hside : ∀ s x t, I s → step s x t → (P s x ↔ Q s x))
    {s u : σ} {xs : List α} (h : I s) :
    Run (fun s x t => step s x t ∧ P s x) s xs u ↔
      Run (fun s x t => step s x t ∧ Q s x) s xs u := by
  constructor
  · intro hrun
    induction hrun with
    | nil s => exact .nil s
    | cons hx _ ih =>
      exact .cons ⟨hx.1, (hside _ _ _ h hx.1).mp hx.2⟩ (ih (hstep _ _ _ h hx.1))
  · intro hrun
    induction hrun with
    | nil s => exact .nil s
    | cons hx _ ih =>
      exact .cons ⟨hx.1, (hside _ _ _ h hx.1).mpr hx.2⟩ (ih (hstep _ _ _ h hx.1))

/-- A run keeps to a side condition, or has a step that does not. -/
theorem Run.restrict_or {P : σ → α → Prop} {s u : σ} {xs : List α} (hrun : Run step s xs u) :
    Run (fun s x t => step s x t ∧ P s x) s xs u ∨
      ∃ ys t x t' zs, Run step s ys t ∧ step t x t' ∧ ¬ P t x ∧ Run step t' zs u := by
  induction hrun with
  | nil s => exact Or.inl (.nil s)
  | @cons s t u x xs hx hrest ih =>
    by_cases hp : P s x
    · rcases ih with hall | ⟨ys, v, y, v', zs, hbefore, hstep, hnot, hafter⟩
      · exact Or.inl (.cons ⟨hx, hp⟩ hall)
      · exact Or.inr ⟨x :: ys, v, y, v', zs, .cons hx hbefore, hstep, hnot, hafter⟩
    · exact Or.inr ⟨[], s, x, t, xs, .nil s, hx, hp, hrest⟩

/-- Where a step keeps `B` exactly under the condition `P`, so does every run. -/
theorem Run.keeps_iff {I B : σ → Prop} {P : σ → α → Prop}
    (hstep : ∀ s x t, I s → step s x t → I t)
    (hiff : ∀ s x t, I s → B s → step s x t → (B t ↔ P s x)) {s u : σ} {xs : List α}
    (h : I s) (hb : B s) :
    Run (fun s x t => step s x t ∧ B t) s xs u ↔ Run (fun s x t => step s x t ∧ P s x) s xs u := by
  constructor
  · intro hrun
    induction hrun with
    | nil s => exact .nil s
    | cons hx _ ih =>
      have hp := (hiff _ _ _ h hb hx.1).mp hx.2
      exact .cons ⟨hx.1, hp⟩ (ih (hstep _ _ _ h hx.1) hx.2)
  · intro hrun
    induction hrun with
    | nil s => exact .nil s
    | cons hx _ ih =>
      have hb' := (hiff _ _ _ h hb hx.1).mpr hx.2
      exact .cons ⟨hx.1, hb'⟩ (ih (hstep _ _ _ h hx.1) hb')

end Opencore.Machine
