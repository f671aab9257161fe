import Mathlib

/-! A mutex that is not recursive: who owns it, seen from the states of the threads. -/
namespace Opencore.Machine

variable {T σ : Type*}

/-- The owner is the thread whose state is between `lock` and `unlock`. -/
def Guards (mutex : Option T) (holds : σ → Bool) (thread : T → σ) : Prop :=
  ∀ t, mutex = some t ↔ holds (thread t) = true

variable {mutex : Option T} {holds : σ → Bool} {thread : T → σ}

theorem Guards.exclusive (h : Guards mutex holds thread) {t u : T} (ht : holds (thread t) = true)
    (hu : holds (thread u) = true) : t = u :=
  Option.some.inj (((h t).mpr ht).symm.trans ((h u).mpr hu))

theorem Guards.not_holds (h : Guards none holds thread) (t : T) : holds (thread t) = false := by
  by_contra hnot
  have howner := (h t).mpr (Bool.eq_true_of_not_eq_false hnot)
  cases howner

theorem Guards.owner (h : Guards mutex holds thread) {t : T} (ht : holds (thread t) = true) :
    mutex = some t :=
  (h t).mpr ht

theorem Guards.of_owner (h : Guards mutex holds thread) {t : T} (ht : mutex = some t) :
    holds (thread t) = true :=
  (h t).mp ht

variable [DecidableEq T] {t : T} {x : σ}

/-- A step of a thread that neither locks nor unlocks. -/
theorem Guards.keep (h : Guards mutex holds thread) (hx : holds x = holds (thread t)) :
    Guards mutex holds (Function.update thread t x) := by
  intro u
  by_cases hu : u = t
  · subst hu
    rw [Function.update_self, hx]
    exact h u
  · rw [Function.update_of_ne hu]
    exact h u

theorem Guards.acquire (h : Guards none holds thread) (hx : holds x = true) :
    Guards (some t) holds (Function.update thread t x) := by
  intro u
  by_cases hu : u = t
  · subst hu
    rw [Function.update_self]
    exact iff_of_true rfl hx
  · rw [Function.update_of_ne hu, h.not_holds u]
    exact iff_of_false (fun heq => hu (Option.some.inj heq).symm) Bool.false_ne_true

theorem Guards.release (h : Guards mutex holds thread) (ht : holds (thread t) = true)
    (hx : holds x = false) : Guards none holds (Function.update thread t x) := by
  intro u
  by_cases hu : u = t
  · subst hu
    rw [Function.update_self, hx]
    exact iff_of_false nofun Bool.false_ne_true
  · rw [Function.update_of_ne hu]
    exact iff_of_false nofun fun hown => hu (h.exclusive hown ht)

end Opencore.Machine
