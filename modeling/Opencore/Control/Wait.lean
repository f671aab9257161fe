import Opencore.Machine.Transition

/-! The parent side of `Coredump`: it forks the dump child and calls `wait`, among the other
children of the application. -/
namespace Opencore
open Machine

inductive ProcStatus
  | unborn
  | running
  | zombie
  | reaped
  deriving DecidableEq

/-- How far a process has come; no step takes it back. -/
def ProcStatus.age : ProcStatus → ℕ
  | unborn => 0
  | running => 1
  | zombie => 2
  | reaped => 3

def ProcStatus.Terminated (s : ProcStatus) : Prop := 2 ≤ s.age

variable {P : Type*}

/-- Where the dumping thread is. `child` is `none` when `fork` failed, and `reaped` is the
process that `wait` returned. -/
inductive Phase (P : Type*)
  | idle
  | waiting (child : Option P)
  | returned (child reaped : Option P)
  /-- The process attributes are restored and the callback has been invoked. -/
  | completed (child reaped : Option P)

/-- The processes are never used twice, unlike their ids. -/
structure World (P : Type*) where
  status : P → ProcStatus
  phase : Phase P

inductive Event (P : Type*)
  | spawn (p : P)
  | exit (p : P)
  /-- Another thread of the application waits for one of its children. -/
  | appReap (p : P)
  | fork (child : P)
  | forkFails
  | waitReaps (p : P)
  /-- `wait` fails with `EINTR`. -/
  | waitInterrupted
  /-- `wait` fails with `ECHILD`. -/
  | waitNoChild
  | complete

/-- The dump child has terminated, and no other child was taken. -/
def OwnChildOnly (status : P → ProcStatus) (child reaped : Option P) : Prop :=
  (∀ c ∈ child, (status c).Terminated) ∧ ∀ p ∈ reaped, child = some p

/-- After `wait`, it was the dump child that was waited for. -/
def WaitedForOwn (w : World P) : Prop :=
  match w.phase with
  | .idle => True
  | .waiting _ => True
  | .returned child reaped => OwnChildOnly w.status child reaped
  | .completed child reaped => OwnChildOnly w.status child reaped

/-- When `wait` reaps a child there is none to reap but the one it was called for, and no
signal interrupts it before that one has terminated. -/
def Undisturbed (w : World P) : Event P → Prop
  | .waitReaps _ => ∀ q, w.status q = .zombie → w.phase = .waiting (some q)
  | .waitInterrupted => ∀ c, w.phase = .waiting (some c) → (w.status c).Terminated
  | _ => True

theorem OwnChildOnly.mono {status status' : P → ProcStatus} {child reaped : Option P}
    (h : OwnChildOnly status child reaped) (hage : ∀ q, (status q).age ≤ (status' q).age) :
    OwnChildOnly status' child reaped :=
  ⟨fun c hc => (h.1 c hc).trans (hage c), h.2⟩

/-- Steps of the other children keep what `wait` has established. -/
theorem WaitedForOwn.mono {w w' : World P} (h : WaitedForOwn w) (hphase : w'.phase = w.phase)
    (hage : ∀ q, (w.status q).age ≤ (w'.status q).age) : WaitedForOwn w' := by
  unfold WaitedForOwn at h ⊢
  rw [hphase]
  cases hw : w.phase with
  | idle => trivial
  | waiting child => trivial
  | returned child reaped =>
    rw [hw] at h
    exact OwnChildOnly.mono h hage
  | completed child reaped =>
    rw [hw] at h
    exact OwnChildOnly.mono h hage

variable [DecidableEq P]

/-- `wait(&status)` returns for any child that has exited, and its result is not looked at. -/
inductive Step : World P → Event P → World P → Prop
  | spawn {w : World P} {p : P} : w.status p = .unborn →
      Step w (.spawn p) { w with status := Function.update w.status p .running }
  | exit {w : World P} {p : P} : w.status p = .running →
      Step w (.exit p) { w with status := Function.update w.status p .zombie }
  | appReap {w : World P} {p : P} : w.status p = .zombie →
      Step w (.appReap p) { w with status := Function.update w.status p .reaped }
  | fork {w : World P} {child : P} : w.phase = .idle → w.status child = .unborn →
      Step w (.fork child) ⟨Function.update w.status child .running, .waiting (some child)⟩
  | forkFails {w : World P} : w.phase = .idle → Step w .forkFails { w with phase := .waiting none }
  | waitReaps {w : World P} {child : Option P} {p : P} : w.phase = .waiting child →
      w.status p = .zombie →
      Step w (.waitReaps p) ⟨Function.update w.status p .reaped, .returned child (some p)⟩
  | waitInterrupted {w : World P} {child : Option P} : w.phase = .waiting child →
      Step w .waitInterrupted { w with phase := .returned child none }
  | waitNoChild {w : World P} {child : Option P} : w.phase = .waiting child →
      (∀ p, w.status p = .unborn ∨ w.status p = .reaped) →
      Step w .waitNoChild { w with phase := .returned child none }
  | complete {w : World P} {child reaped : Option P} : w.phase = .returned child reaped →
      Step w .complete { w with phase := .completed child reaped }

theorem age_update {status : P → ProcStatus} {p : P} {s : ProcStatus}
    (h : (status p).age ≤ s.age) (q : P) :
    (status q).age ≤ (Function.update status p s q).age := by
  by_cases hq : q = p
  · rw [hq, Function.update_self]
    exact h
  · rw [Function.update_of_ne hq]

theorem Step.age_le {w w' : World P} {e : Event P} (h : Step w e w') (q : P) :
    (w.status q).age ≤ (w'.status q).age := by
  cases h with
  | spawn hp => exact age_update (by rw [hp]; decide) q
  | exit hp => exact age_update (by rw [hp]; decide) q
  | appReap hp => exact age_update (by rw [hp]; decide) q
  | fork _ hp => exact age_update (by rw [hp]; decide) q
  | forkFails _ => exact le_refl _
  | waitReaps _ hp => exact age_update (by rw [hp]; decide) q
  | waitInterrupted _ => exact le_refl _
  | waitNoChild _ _ => exact le_refl _
  | complete _ => exact le_refl _

/-- What carries `WaitedForOwn` through `wait`: the child that it was called for exists. -/
def ChildBorn (w : World P) : Prop :=
  ∀ c, w.phase = .waiting (some c) → 1 ≤ (w.status c).age

theorem childBorn_step {w w' : World P} {e : Event P} (h : ChildBorn w) (hstep : Step w e w') :
    ChildBorn w' := by
  intro c hc
  have hage := hstep.age_le c
  cases hstep with
  | spawn _ => exact (h c hc).trans hage
  | exit _ => exact (h c hc).trans hage
  | appReap _ => exact (h c hc).trans hage
  | fork _ _ =>
    cases hc
    show 1 ≤ (Function.update w.status c ProcStatus.running c).age
    rw [Function.update_self]
    decide
  | forkFails _ => cases hc
  | waitReaps _ _ => cases hc
  | waitInterrupted _ => cases hc
  | waitNoChild _ _ => cases hc
  | complete _ => cases hc

theorem waitedForOwn_step {w w' : World P} {e : Event P} (hborn : ChildBorn w)
    (h : WaitedForOwn w) (hstep : Step w e w') (hcalm : Undisturbed w e) : WaitedForOwn w' := by
  have hage := hstep.age_le
  cases hstep with
  | spawn _ => exact h.mono rfl hage
  | exit _ => exact h.mono rfl hage
  | appReap _ => exact h.mono rfl hage
  | fork _ _ => trivial
  | forkFails _ => trivial
  | @waitReaps child p hphase hp =>
    -- the only child there is to reap is the one that was forked
    obtain rfl : child = some p := by
      have hown := hphase.symm.trans (hcalm p hp)
      cases hown
      rfl
    constructor
    · intro c hc
      obtain rfl : p = c := Option.some.inj hc
      show 2 ≤ (Function.update w.status p ProcStatus.reaped p).age
      rw [Function.update_self]
      decide
    · intro q hq
      exact hq
  | @waitInterrupted child hphase =>
    constructor
    · intro c hc
      exact hcalm c (hphase.trans (congrArg Phase.waiting hc))
    · nofun
  | @waitNoChild child hphase hnone =>
    constructor
    · intro c hc
      have hlive := hborn c (hphase.trans (congrArg Phase.waiting hc))
      show 2 ≤ (w.status c).age
      rcases hnone c with hc | hc
      · rw [hc] at hlive
        exact absurd hlive (by decide)
      · rw [hc]
        decide
    · nofun
  | @complete child reaped hphase =>
    unfold WaitedForOwn at h
    rw [hphase] at h
    exact h

/-- In a run that leaves `wait` undisturbed, `Coredump` returns after its own child has
terminated and takes no other. -/
theorem coredump_waits_for_own {w w' : World P} {events : List (Event P)}
    (hidle : w.phase = .idle)
    (hrun : Run (fun s e t => Step s e t ∧ Undisturbed s e) w events w') : WaitedForOwn w' := by
  have hstep (s : World P) (e : Event P) (t : World P) (hs : ChildBorn s ∧ WaitedForOwn s)
      (h : Step s e t ∧ Undisturbed s e) : ChildBorn t ∧ WaitedForOwn t :=
    ⟨childBorn_step hs.1 h.1, waitedForOwn_step hs.1 hs.2 h.1 h.2⟩
  have hborn : ChildBorn w := by
    intro c hc
    rw [hidle] at hc
    cases hc
  have hown : WaitedForOwn w := by
    unfold WaitedForOwn
    rw [hidle]
    trivial
  exact (hrun.invariant hstep ⟨hborn, hown⟩).2

def oneChild : World ℕ := ⟨fun p => if p = 1 then .running else .unborn, .idle⟩

theorem coredump_waits_for_own_alone :
    ∃ w, Run Step oneChild [.fork 2, .exit 2, .waitReaps 2] w ∧
      w.phase = .returned (some 2) (some 2) ∧ WaitedForOwn w := by
  have hfork : Step oneChild (.fork 2) _ := .fork rfl rfl
  have hexit := Step.exit (w := ⟨Function.update oneChild.status 2 .running, .waiting (some 2)⟩)
    (p := 2) rfl
  have hreap := Step.waitReaps (w := ⟨Function.update (Function.update oneChild.status 2 .running) 2
    .zombie, .waiting (some 2)⟩) (p := 2) rfl rfl
  refine ⟨_, .cons hfork (.cons hexit (.cons hreap (.nil _))), rfl, ?_⟩
  apply coredump_waits_for_own (w := oneChild) rfl
  refine .cons ⟨hfork, trivial⟩ (.cons ⟨hexit, trivial⟩ (.cons ⟨hreap, ?_⟩ (.nil _)))
  intro q hq
  by_cases hq2 : q = 2
  · rw [hq2]
  · simp only [Function.update_of_ne hq2, oneChild] at hq
    split_ifs at hq

/-- When child 1 exits first, `Coredump` takes it and completes while the dump child runs;
after a signal it completes without waiting at all. -/
theorem coredump_waits_for_other :
    (∃ w, Run Step oneChild [.fork 2, .exit 1, .waitReaps 1, .complete] w ∧
      w.phase = .completed (some 2) (some 1) ∧ w.status 2 = .running ∧ ¬ WaitedForOwn w) ∧
    ∃ w, Run Step oneChild [.fork 2, .waitInterrupted, .complete] w ∧
      w.phase = .completed (some 2) none ∧ w.status 2 = .running ∧ ¬ WaitedForOwn w := by
  constructor
  · refine ⟨_, .cons (.fork rfl rfl) (.cons (.exit rfl) (.cons (.waitReaps rfl rfl)
      (.cons (.complete rfl) (.nil _)))), rfl, rfl, fun h => ?_⟩
    exact absurd (h.2 1 rfl) (by decide)
  · refine ⟨_, .cons (.fork rfl rfl) (.cons (.waitInterrupted rfl) (.cons (.complete rfl)
      (.nil _))), rfl, rfl, fun h => ?_⟩
    have hterm : 2 ≤ ProcStatus.running.age := h.1 2 rfl
    exact absurd hterm (by decide)

end Opencore
