import Mathlib

/-! `JavaCrashHandler` and the default uncaught exception handler that it replaces. -/
namespace Opencore

variable {H : Type*}

/-- A `Thread.UncaughtExceptionHandler`; `H` are those that are not ours. -/
inductive UncaughtHandler (H : Type*)
  | javaCrashHandler
  | other (h : H)
  deriving DecidableEq

/-- The default handler of the runtime and the field of `JavaCrashHandler`, `null` being
`none`. -/
structure CrashHandler (H : Type*) where
  current : Option (UncaughtHandler H)
  defaultHandler : Option (UncaughtHandler H) := none

namespace CrashHandler

def enable (s : CrashHandler H) : CrashHandler H where
  current := some .javaCrashHandler
  defaultHandler := if s.defaultHandler.isNone then s.current else s.defaultHandler

def disable (s : CrashHandler H) : CrashHandler H :=
  if s.defaultHandler.isSome then { s with current := s.defaultHandler } else s

def setDefaultUncaughtExceptionHandler (s : CrashHandler H)
    (handler : Option (UncaughtHandler H)) : CrashHandler H :=
  { s with current := handler }

end CrashHandler

inductive CrashCall (H : Type*)
  | enable
  | disable
  | setDefaultUncaughtExceptionHandler (handler : Option (UncaughtHandler H))

def CrashCall.run (s : CrashHandler H) : CrashCall H → CrashHandler H
  | enable => s.enable
  | disable => s.disable
  | setDefaultUncaughtExceptionHandler handler => s.setDefaultUncaughtExceptionHandler handler

def runCrashCalls (s : CrashHandler H) (calls : List (CrashCall H)) : CrashHandler H :=
  calls.foldl CrashCall.run s

/-- The handlers that the calls of `enable` found current, in order. -/
def enableSaw (s : CrashHandler H) : List (CrashCall H) → List (Option (UncaughtHandler H))
  | [] => []
  | .enable :: calls => s.current :: enableSaw s.enable calls
  | .disable :: calls => enableSaw s.disable calls
  | .setDefaultUncaughtExceptionHandler handler :: calls =>
    enableSaw (s.setDefaultUncaughtExceptionHandler handler) calls

variable [DecidableEq H]

namespace CrashHandler

def isEnabled (s : CrashHandler H) : Bool := decide (s.current = some .javaCrashHandler)

/-- What a `disable` should do when the calls of `enable` so far found `saw`. The last of them
that did not find the `JavaCrashHandler` itself is the one that installed it. -/
def DisableRestores (saw : List (Option (UncaughtHandler H))) (s : CrashHandler H) : Prop :=
  match s.current with
  | none => True
  | some .javaCrashHandler =>
    ∀ before, (saw.filter (· ≠ some .javaCrashHandler)).getLast? = some before →
      s.disable.current = before ∧ s.disable.isEnabled = false
  | some (.other h) => s.disable.current = some (.other h)

/-- The first handler that an `enable` found, if one found any, is the one that has to be
current after a `disable`. -/
def FirstIsRight (saw : List (Option (UncaughtHandler H))) (s : CrashHandler H) : Prop :=
  match s.current with
  | none => True
  | some .javaCrashHandler =>
    ∀ before, (saw.filter (· ≠ some .javaCrashHandler)).getLast? = some before →
      before ≠ none ∧ saw.find? Option.isSome = some before
  | some (.other h) =>
    saw.find? Option.isSome = none ∨ saw.find? Option.isSome = some (some (.other h))

omit [DecidableEq H] in
/-- The field keeps the first handler that an `enable` finds. -/
theorem defaultHandler_runCrashCalls (s : CrashHandler H) (calls : List (CrashCall H)) :
    (runCrashCalls s calls).defaultHandler =
      if s.defaultHandler.isSome then s.defaultHandler
      else ((enableSaw s calls).find? Option.isSome).join := by
  induction calls generalizing s with
  | nil =>
    cases hsaved : s.defaultHandler with
    | none => exact hsaved
    | some handler => exact hsaved
  | cons call calls ih =>
    have hrun : (runCrashCalls s (call :: calls)).defaultHandler = _ := ih (call.run s)
    rw [hrun]
    cases call with
    | enable =>
      cases hsaved : s.defaultHandler with
      | some handler => simp [CrashCall.run, enable, hsaved]
      | none =>
        cases hcur : s.current with
        | none => simp [CrashCall.run, enable, enableSaw, hsaved, hcur]
        | some handler => simp [CrashCall.run, enable, enableSaw, hsaved, hcur]
    | disable =>
      have hkeep : s.disable.defaultHandler = s.defaultHandler := by
        unfold disable
        split_ifs
        · rfl
        · rfl
      simp only [CrashCall.run, enableSaw, hkeep]
    | setDefaultUncaughtExceptionHandler handler => rfl

omit [DecidableEq H] in
theorem disable_current (s : CrashHandler H) :
    s.disable.current = if s.defaultHandler.isSome then s.defaultHandler else s.current := by
  unfold disable
  split_ifs
  · rfl
  · rfl

omit [DecidableEq H] in
theorem find_isSome_cases (saw : List (Option (UncaughtHandler H))) :
    saw.find? Option.isSome = none ∨ ∃ handler, saw.find? Option.isSome = some (some handler) := by
  cases hfind : saw.find? Option.isSome with
  | none => exact Or.inl rfl
  | some found =>
    obtain ⟨handler, hhandler⟩ := Option.isSome_iff_exists.mp (List.find?_some hfind)
    exact Or.inr ⟨handler, by rw [hhandler]⟩

end CrashHandler

/-- After any calls, a `disable` restores the right handler exactly when that is the first one
that an `enable` has found. -/
theorem disableRestores_iff (default : Option (UncaughtHandler H)) (calls : List (CrashCall H)) :
    let s := runCrashCalls ⟨default, none⟩ calls
    let saw := enableSaw ⟨default, none⟩ calls
    s.DisableRestores saw ↔ s.FirstIsRight saw := by
  intro s saw
  have hsaved : s.defaultHandler = (saw.find? Option.isSome).join :=
    CrashHandler.defaultHandler_runCrashCalls ⟨default, none⟩ calls
  have hdisable := s.disable_current
  unfold CrashHandler.DisableRestores CrashHandler.FirstIsRight
  cases hcur : s.current with
  | none => exact Iff.rfl
  | some handler =>
    cases handler with
    | other h =>
      rcases CrashHandler.find_isSome_cases saw with hfind | ⟨found, hfind⟩
      · rw [hfind] at hsaved
        simp [hdisable, hsaved, hfind, hcur]
      · rw [hfind] at hsaved
        simp [hdisable, hsaved, hfind]
    | javaCrashHandler =>
      show (∀ before, _ → _) ↔ ∀ before, _ → _
      apply forall_congr'
      intro before
      apply imp_congr_right
      intro hbefore
      -- the handler that was found by the installing `enable` is another one
      have hother : before ≠ some .javaCrashHandler := by
        have hmem := List.mem_of_getLast? hbefore
        exact of_decide_eq_true (List.mem_filter.mp hmem).2
      rcases CrashHandler.find_isSome_cases saw with hfind | ⟨found, hfind⟩
      · rw [hfind] at hsaved
        simp [hdisable, hsaved, hfind, hcur, hother.symm]
      · rw [hfind] at hsaved
        simp only [hdisable, hsaved, hfind, CrashHandler.isEnabled, Option.join_some,
          Option.isSome_some, if_true, Option.some.injEq, decide_eq_false_iff_not]
        constructor
        · rintro ⟨rfl, -⟩
          exact ⟨Option.some_ne_none found, rfl⟩
        · rintro ⟨-, rfl⟩
          exact ⟨rfl, fun heq => hother (congrArg some heq)⟩

def reporterBetween : List (CrashCall ℕ) :=
  [.enable, .disable, .setDefaultUncaughtExceptionHandler (some (.other 2)), .enable]

def reporterAfter : List (CrashCall ℕ) :=
  [.enable, .setDefaultUncaughtExceptionHandler (some (.other 2))]

/-- `disable` keeps the `JavaCrashHandler` over a null default, puts back the handler of an
earlier cycle, and takes away one that was installed after the `enable`. -/
theorem disable_restores_wrong :
    ¬ (runCrashCalls (H := ℕ) ⟨none, none⟩ [.enable]).DisableRestores
      (enableSaw ⟨none, none⟩ [.enable]) ∧
    ¬ (runCrashCalls ⟨some (.other 1), none⟩ reporterBetween).DisableRestores
      (enableSaw ⟨some (.other 1), none⟩ reporterBetween) ∧
    ¬ (runCrashCalls ⟨some (.other 1), none⟩ reporterAfter).DisableRestores
      (enableSaw ⟨some (.other 1), none⟩ reporterAfter) := by
  refine ⟨fun h => ?_, fun h => ?_, fun h => ?_⟩
  · exact absurd (h none rfl).1 (by decide)
  · exact absurd (h (some (.other 2)) rfl).1 (by decide)
  · exact absurd (show _ = some (UncaughtHandler.other 2) from h) (by decide)

end Opencore
