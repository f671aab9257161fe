import Opencore.Machine.Transition

/-! The dumpable attribute of the process, which every call of `Dump` reads, sets and puts
back. -/
namespace Opencore
open Machine

variable {C : Type*}

/-- Where a call of `Dump` is; it holds `ori_dumpable` and `need_restore_dumpable`. -/
inductive DumpStage
  | entered
  | read (ori_dumpable : ℕ)
  | dumping (ori_dumpable : ℕ) (need_restore_dumpable : Bool)
  | dumped (ori_dumpable : ℕ) (need_restore_dumpable : Bool)
  | returned
  deriving DecidableEq

structure DumpableState (C : Type*) where
  dumpable : ℕ
  stage : C → DumpStage

/-- `prctl(PR_SET_DUMPABLE, value)` rejects all values but 0 and 1. -/
def prSetDumpable (value dumpable : ℕ) : ℕ := if value ≤ 1 then value else dumpable

inductive DumpableEvent (C : Type*)
  | getDumpable (c : C)
  | setDumpable (c : C)
  | setDumpableFails (c : C)
  | coredumpReturns (c : C)
  | restore (c : C)

variable [DecidableEq C]

inductive DumpableStep : DumpableState C → DumpableEvent C → DumpableState C → Prop
  | getDumpable {s : DumpableState C} {c : C} : s.stage c = .entered →
      DumpableStep s (.getDumpable c)
        { s with stage := Function.update s.stage c (.read s.dumpable) }
  | setDumpable {s : DumpableState C} {c : C} {ori : ℕ} : s.stage c = .read ori →
      DumpableStep s (.setDumpable c)
        ⟨prSetDumpable 1 s.dumpable, Function.update s.stage c (.dumping ori true)⟩
  | setDumpableFails {s : DumpableState C} {c : C} {ori : ℕ} : s.stage c = .read ori →
      DumpableStep s (.setDumpableFails c)
        { s with stage := Function.update s.stage c (.dumping ori false) }
  | coredumpReturns {s : DumpableState C} {c : C} {ori : ℕ} {need : Bool} :
      s.stage c = .dumping ori need →
      DumpableStep s (.coredumpReturns c)
        { s with stage := Function.update s.stage c (.dumped ori need) }
  | restore {s : DumpableState C} {c : C} {ori : ℕ} {need : Bool} :
      s.stage c = .dumped ori need →
      DumpableStep s (.restore c)
        ⟨if need then prSetDumpable ori s.dumpable else s.dumpable,
          Function.update s.stage c .returned⟩

def DumpableState.initial (C : Type*) (dumpable : ℕ) : DumpableState C :=
  ⟨dumpable, fun _ => .entered⟩

/-- When no call is under way the attribute is what it was at first, and it is 1 during every
`Coredump` whose call has set it. -/
def GivenBack (before : ℕ) (s : DumpableState C) : Prop :=
  ((∀ c, s.stage c = .entered ∨ s.stage c = .returned) → s.dumpable = before) ∧
    ∀ c ori, s.stage c = .dumping ori true → s.dumpable = 1

def OthersActive (s : DumpableState C) (c : C) : Prop :=
  ∃ c', c' ≠ c ∧ s.stage c' ≠ .entered ∧ s.stage c' ≠ .returned

/-- A call puts 0 back during no other call's `Coredump`, and the one that returns last has
read what the attribute was at first, a value which can be set. -/
def Orderly (before : ℕ) (s : DumpableState C) : DumpableEvent C → Prop
  | .getDumpable _ => True
  | .setDumpable _ => True
  | .setDumpableFails _ => True
  | .coredumpReturns _ => True
  | .restore c => ∀ ori need, s.stage c = .dumped ori need →
      (need = true → ori = 0 → ∀ c' ori', c' ≠ c → s.stage c' ≠ .dumping ori' true) ∧
      (OthersActive s c ∨ if need then ori = before ∧ before ≤ 1 else s.dumpable = before)

def DumpStage.saved : DumpStage → Option ℕ
  | entered => none
  | read ori => some ori
  | dumping ori _ => some ori
  | dumped ori _ => some ori
  | returned => none

def DumpStage.owes : DumpStage → Bool
  | dumping _ need => need
  | dumped _ need => need
  | _ => false

/-- Besides the first value, only those that can be set are ever seen. -/
structure DumpableInv (before : ℕ) (s : DumpableState C) : Prop where
  current : s.dumpable ≤ 1 ∨ s.dumpable = before
  saved : ∀ c, ∀ ori ∈ (s.stage c).saved, ori ≤ 1 ∨ ori = before
  changed : ∀ c, (s.stage c).owes = true → s.dumpable ≤ 1

omit [DecidableEq C] in
theorem DumpableInv.initial (before : ℕ) : DumpableInv before (DumpableState.initial C before) where
  current := Or.inr rfl
  saved _ _ hori := nomatch hori
  changed _ howes := nomatch howes

theorem prSetDumpable_le {value dumpable : ℕ} (h : dumpable ≤ 1) :
    prSetDumpable value dumpable ≤ 1 := by
  unfold prSetDumpable
  split_ifs with hvalue
  · exact hvalue
  · exact h

/-- A step of one call keeps the invariant, if it does so for this call. -/
theorem DumpableInv.update {before : ℕ} {s : DumpableState C} (h : DumpableInv before s)
    {c : C} {stage : DumpStage} {dumpable : ℕ} (hcurrent : dumpable ≤ 1 ∨ dumpable = s.dumpable)
    (hsaved : ∀ ori ∈ stage.saved, ori ≤ 1 ∨ ori = before)
    (hchanged : stage.owes = true → dumpable ≤ 1) :
    DumpableInv before ⟨dumpable, Function.update s.stage c stage⟩ := by
  constructor
  · rcases hcurrent with hle | heq
    · exact Or.inl hle
    · rw [heq]
      exact h.current
  · intro c' ori hori
    rcases update_eq_cases (rfl : Function.update s.stage c stage c' = _) with
      ⟨rfl, hown⟩ | ⟨-, hother⟩
    · exact hsaved ori (hown ▸ hori)
    · exact h.saved c' ori (hother ▸ hori)
  · intro c' howes
    rcases update_eq_cases (rfl : Function.update s.stage c stage c' = _) with
      ⟨rfl, hown⟩ | ⟨-, hother⟩
    · exact hchanged (hown ▸ howes)
    · have hle := h.changed c' (hother ▸ howes)
      rcases hcurrent with hle' | heq
      · exact hle'
      · show dumpable ≤ 1
        omega

theorem dumpableInv_step {before : ℕ} {s t : DumpableState C} {e : DumpableEvent C}
    (h : DumpableInv before s) (hstep : DumpableStep s e t) : DumpableInv before t := by
  cases hstep with
  | @getDumpable c hc =>
    apply h.update (Or.inr rfl)
    · intro ori hori
      rw [← Option.some.inj hori]
      exact h.current
    · nofun
  | @setDumpable c ori hc =>
    apply h.update (Or.inl (le_refl 1))
    · intro ori' hori'
      exact h.saved c ori' (hc ▸ hori')
    · intro _
      exact le_refl 1
  | @setDumpableFails c ori hc =>
    apply h.update (Or.inr rfl)
    · intro ori' hori'
      exact h.saved c ori' (hc ▸ hori')
    · nofun
  | @coredumpReturns c ori need hc =>
    apply h.update (Or.inr rfl)
    · intro ori' hori'
      exact h.saved c ori' (hc ▸ hori')
    · intro howes
      exact h.changed c (hc ▸ howes)
  | @restore c ori need hc =>
    cases need with
    | false => exact h.update (Or.inr rfl) (fun _ hori => nomatch hori) (fun howes => nomatch howes)
    | true =>
      have hle : s.dumpable ≤ 1 := h.changed c (hc ▸ rfl)
      exact h.update (Or.inl (prSetDumpable_le hle)) (fun _ hori => nomatch hori)
        (fun howes => nomatch howes)

theorem GivenBack.update {before : ℕ} {s : DumpableState C} (h : GivenBack before s) {c : C}
    {stage : DumpStage} {dumpable : ℕ} (hentered : stage ≠ .entered) (hreturned : stage ≠ .returned)
    (hkeep : dumpable = s.dumpable ∨ dumpable = 1)
    (hown : ∀ ori, stage = .dumping ori true → dumpable = 1) :
    GivenBack before ⟨dumpable, Function.update s.stage c stage⟩ := by
  constructor
  · intro hquiet
    have hc := hquiet c
    simp only [Function.update_self] at hc
    rcases hc with hc | hc
    · exact absurd hc hentered
    · exact absurd hc hreturned
  · intro c' ori hstage
    rcases update_eq_cases hstage with ⟨-, hnew⟩ | ⟨-, hother⟩
    · exact hown ori hnew
    · have hone := h.2 c' ori hother
      rcases hkeep with heq | heq
      · exact heq.trans hone
      · exact heq

theorem quiet_returned_iff {s : DumpableState C} {c : C} :
    (∀ c', Function.update s.stage c .returned c' = .entered ∨
      Function.update s.stage c .returned c' = .returned) ↔ ¬ OthersActive s c := by
  unfold OthersActive
  constructor
  · rintro hall ⟨c', hcc, hentered, hreturned⟩
    have hc' := hall c'
    rw [Function.update_of_ne hcc] at hc'
    exact hc'.elim hentered hreturned
  · intro hnone c'
    by_cases hcc : c' = c
    · subst hcc
      exact Or.inr (Function.update_self ..)
    · rw [Function.update_of_ne hcc]
      by_contra hneg
      exact hnone ⟨c', hcc, fun h => hneg (Or.inl h), fun h => hneg (Or.inr h)⟩

omit [DecidableEq C] in
theorem restore_eq_iff {before : ℕ} {s : DumpableState C} (hinv : DumpableInv before s)
    {c : C} {ori : ℕ} {need : Bool} (hc : s.stage c = .dumped ori need) :
    ((if need then prSetDumpable ori s.dumpable else s.dumpable) = before) ↔
      if need then ori = before ∧ before ≤ 1 else s.dumpable = before := by
  cases need with
  | false => exact Iff.rfl
  | true =>
    have hsaved := hinv.saved c ori (hc ▸ rfl)
    have hle : s.dumpable ≤ 1 := hinv.changed c (hc ▸ rfl)
    rw [if_pos rfl, if_pos rfl]
    unfold prSetDumpable
    split_ifs
    · omega
    · omega

theorem dumping_returned_iff {before : ℕ} {s : DumpableState C} (h : GivenBack before s) {c : C}
    (ori : ℕ) (need : Bool) :
    (∀ c' ori', Function.update s.stage c .returned c' = .dumping ori' true →
      (if need then prSetDumpable ori s.dumpable else s.dumpable) = 1) ↔
      (need = true → ori = 0 → ∀ c' ori', c' ≠ c → s.stage c' ≠ .dumping ori' true) := by
  constructor
  · rintro hall rfl rfl c' ori' hcc hstage
    have hone := hall c' ori' (by rw [Function.update_of_ne hcc]; exact hstage)
    exact absurd (show (0 : ℕ) = 1 from hone) zero_ne_one
  · intro hnone c' ori' hstage
    rcases update_eq_cases hstage with ⟨-, hown⟩ | ⟨hcc, hother⟩
    · cases hown
    · have hone := h.2 c' ori' hother
      cases need with
      | false => exact hone
      | true =>
        have hne : ori ≠ 0 := fun h0 => hnone rfl h0 c' ori' hcc hother
        unfold prSetDumpable
        rw [if_pos rfl]
        split_ifs
        · omega
        · exact hone

theorem givenBack_restore_iff {before : ℕ} {s : DumpableState C} (hinv : DumpableInv before s)
    (h : GivenBack before s) {c : C} {ori : ℕ} {need : Bool} (hc : s.stage c = .dumped ori need) :
    GivenBack before ⟨if need then prSetDumpable ori s.dumpable else s.dumpable,
      Function.update s.stage c .returned⟩ ↔ Orderly before s (.restore c) := by
  unfold GivenBack
  rw [quiet_returned_iff, dumping_returned_iff h, restore_eq_iff hinv hc, and_comm]
  constructor
  · rintro ⟨hnone, hret⟩ ori' need' hc'
    obtain ⟨rfl, rfl⟩ := DumpStage.dumped.inj (hc.symm.trans hc')
    exact ⟨hnone, or_iff_not_imp_left.mpr hret⟩
  · intro horder
    obtain ⟨hnone, hret⟩ := horder ori need hc
    exact ⟨hnone, or_iff_not_imp_left.mp hret⟩

theorem givenBack_step_iff {before : ℕ} {s t : DumpableState C} {e : DumpableEvent C}
    (hinv : DumpableInv before s) (h : GivenBack before s) (hstep : DumpableStep s e t) :
    GivenBack before t ↔ Orderly before s e := by
  cases hstep with
  | getDumpable hc => exact iff_of_true (h.update nofun nofun (Or.inl rfl) nofun) trivial
  | setDumpable hc =>
    exact iff_of_true (h.update nofun nofun (Or.inr rfl) fun _ _ => rfl) trivial
  | setDumpableFails hc => exact iff_of_true (h.update nofun nofun (Or.inl rfl) nofun) trivial
  | coredumpReturns hc => exact iff_of_true (h.update nofun nofun (Or.inl rfl) nofun) trivial
  | restore hc => exact givenBack_restore_iff hinv h hc

omit [DecidableEq C] in
theorem givenBack_initial (before : ℕ) : GivenBack before (DumpableState.initial C before) :=
  ⟨fun _ => rfl, nofun⟩

/-- In a run of any calls of `Dump` the attribute is 1 for every `Coredump` and what it was
after the last return, exactly when all steps are orderly. -/
theorem dumpable_givenBack_iff (before : ℕ) (events : List (DumpableEvent C))
    (u : DumpableState C) :
    Run (fun s e t => DumpableStep s e t ∧ GivenBack before t)
      (DumpableState.initial C before) events u ↔
    Run (fun s e t => DumpableStep s e t ∧ Orderly before s e)
      (DumpableState.initial C before) events u := by
  apply Run.keeps_iff (I := DumpableInv before)
  · exact fun s e t hinv hstep => dumpableInv_step hinv hstep
  · exact fun s e t hinv hback hstep => givenBack_step_iff hinv hback hstep
  · exact DumpableInv.initial before
  · exact givenBack_initial before

/-- Two calls in a process that is not dumpable, the second one made during the dump of the
first. The first makes the process undumpable during the dump of the second, which leaves it
dumpable in the end. -/
theorem dumpable_not_givenBack :
    (∃ s, Run DumpableStep (DumpableState.initial Bool 0) [.getDumpable true, .setDumpable true,
      .getDumpable false, .setDumpable false, .coredumpReturns true, .restore true] s ∧
      s.stage false = .dumping 1 true ∧ s.dumpable = 0 ∧ ¬ GivenBack 0 s) ∧
    ∃ s, Run DumpableStep (DumpableState.initial Bool 0) [.getDumpable true, .setDumpable true,
      .getDumpable false, .setDumpable false, .coredumpReturns true, .restore true,
      .coredumpReturns false, .restore false] s ∧
      (∀ c, s.stage c = .returned) ∧ s.dumpable = 1 ∧ ¬ GivenBack 0 s := by
  constructor
  · refine ⟨_, .cons (.getDumpable rfl) (.cons (.setDumpable rfl) (.cons (.getDumpable rfl)
      (.cons (.setDumpable rfl) (.cons (.coredumpReturns rfl) (.cons (.restore rfl) (.nil _)))))),
      rfl, rfl, fun h => ?_⟩
    exact absurd (h.2 false 1 rfl) (by decide)
  · refine ⟨_, .cons (.getDumpable rfl) (.cons (.setDumpable rfl) (.cons (.getDumpable rfl)
      (.cons (.setDumpable rfl) (.cons (.coredumpReturns rfl) (.cons (.restore rfl)
      (.cons (.coredumpReturns rfl) (.cons (.restore rfl) (.nil _)))))))),
      fun c => ?_, rfl, fun h => ?_⟩
    · cases c with
      | false => rfl
      | true => rfl
    · refine absurd (h.1 fun c => Or.inr ?_) (show (1 : ℕ) ≠ 0 by decide)
      cases c with
      | false => rfl
      | true => rfl

/-- The attribute is 1, and no call has read anything else. -/
def OnlyOne (s : DumpableState C) : Prop :=
  s.dumpable = 1 ∧ ∀ c, ∀ ori ∈ (s.stage c).saved, ori = 1

theorem OnlyOne.update {s : DumpableState C} (h : OnlyOne s) {c : C} {stage : DumpStage}
    {dumpable : ℕ} (hdumpable : dumpable = 1) (hstage : ∀ ori ∈ stage.saved, ori = 1) :
    OnlyOne ⟨dumpable, Function.update s.stage c stage⟩ := by
  refine ⟨hdumpable, fun c' ori hori => ?_⟩
  rcases update_eq_cases (rfl : Function.update s.stage c stage c' = _) with
    ⟨rfl, hown⟩ | ⟨-, hother⟩
  · exact hstage ori (hown ▸ hori)
  · exact h.2 c' ori (hother ▸ hori)

theorem onlyOne_step {s t : DumpableState C} {e : DumpableEvent C} (h : OnlyOne s)
    (hstep : DumpableStep s e t) : OnlyOne t := by
  cases hstep with
  | getDumpable hc => exact h.update h.1 fun ori hori => (Option.some.inj hori).symm.trans h.1
  | @setDumpable c ori hc => exact h.update rfl fun ori' hori => h.2 c ori' (hc ▸ hori)
  | @setDumpableFails c ori hc => exact h.update h.1 fun ori' hori => h.2 c ori' (hc ▸ hori)
  | @coredumpReturns c ori need hc => exact h.update h.1 fun ori' hori => h.2 c ori' (hc ▸ hori)
  | @restore c ori need hc =>
    obtain rfl : ori = 1 := h.2 c ori (hc ▸ rfl)
    refine h.update ?_ nofun
    cases need with
    | false => exact h.1
    | true => rfl

omit [DecidableEq C] in
theorem orderly_of_onlyOne {s : DumpableState C} (h : OnlyOne s) (e : DumpableEvent C) :
    Orderly 1 s e := by
  cases e with
  | restore c =>
    intro ori need hc
    obtain rfl : ori = 1 := h.2 c ori (hc ▸ rfl)
    refine ⟨fun _ hzero => absurd hzero one_ne_zero, Or.inr ?_⟩
    cases need with
    | false => exact h.1
    | true => exact ⟨rfl, le_refl 1⟩
  | _ => trivial

/-- In a process that starts out dumpable every run is orderly. -/
theorem orderly_of_dumpable {events : List (DumpableEvent C)} {s u : DumpableState C}
    (hone : s.dumpable = 1) (hsaved : ∀ c, ∀ ori ∈ (s.stage c).saved, ori = 1)
    (hrun : Run DumpableStep s events u) :
    Run (fun s e t => DumpableStep s e t ∧ Orderly 1 s e) s events u := by
  apply hrun.restrict (I := OnlyOne)
  · exact fun s e t h hstep => onlyOne_step h hstep
  · exact fun s e t h _ => orderly_of_onlyOne h e
  · exact ⟨hone, hsaved⟩

end Opencore
