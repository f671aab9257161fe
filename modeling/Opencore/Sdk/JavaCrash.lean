import Opencore.Control.CrashHandler
import Opencore.Sdk.Undisturbed

/-! `uncaughtException` of `JavaCrashHandler` beside the other threads of the process: a thread of
the application or the listener throws, and the handler asks for a core before it kills. -/
namespace Opencore
open Machine

variable {T L K H : Type*}

/-- No call of `disable` makes the `JavaCrashHandler` the default again. -/
def CrashHandler.Gone (s : CrashHandler H) : Prop :=
  s.current ≠ some .javaCrashHandler ∧ s.defaultHandler ≠ some .javaCrashHandler

def CrashCall.installs : CrashCall H → Bool
  | enable => true
  | setDefaultUncaughtExceptionHandler (some .javaCrashHandler) => true
  | _ => false

theorem CrashHandler.Gone.disable {s : CrashHandler H} (h : s.Gone) : s.disable.Gone := by
  rw [CrashHandler.disable]
  split_ifs
  · exact ⟨h.2, h.2⟩
  · exact h

theorem CrashHandler.Gone.run {s : CrashHandler H} (h : s.Gone) {call : CrashCall H}
    (hcall : call.installs = false) : (call.run s).Gone := by
  cases call with
  | enable => cases hcall
  | disable => exact h.disable
  | setDefaultUncaughtExceptionHandler handler =>
    refine ⟨?_, h.2⟩
    rintro rfl
    cases hcall

namespace Sdk

inductive CrashStage
  | running
  /-- `uncaughtException` has been called. -/
  | uncaughtException
  | disabled
  | doCoredump

structure Process (T L K H : Type*) where
  sdk : State T L K := {}
  handler : CrashHandler H
  crash : Caller T → CrashStage := fun _ => .running
  /-- Whose `uncaughtException` has killed the process. -/
  killed : Option (Caller T) := none

inductive ProcessEvent (T L K H : Type*)
  | sdk (e : Event T L K)
  | handler (call : CrashCall H)
  | throws (a : Caller T)
  | disable (a : Caller T)
  | doCoredump (a : Caller T)
  | killProcess (a : Caller T)

variable [DecidableEq T] [DecidableEq K]

def Process.setCrash (s : Process T L K H) (a : Caller T) (stage : CrashStage) : Process T L K H :=
  { s with crash := Function.update s.crash a stage }

inductive ProcessStep (onCompleted : L → K → List (Method L)) :
    Process T L K H → ProcessEvent T L K H → Process T L K H → Prop
  | sdk {s e t} : s.killed = none → (∀ a, e.user = some a → s.crash a = .running) →
      Step onCompleted s.sdk e t → ProcessStep onCompleted s (.sdk e) { s with sdk := t }
  | handler {s call} : s.killed = none →
      ProcessStep onCompleted s (.handler call) { s with handler := call.run s.handler }
  -- `opencore-post` can only throw in the listener, or at a listener that has been removed
  | throws {s a} : s.killed = none → s.crash a = .running → s.sdk.stage a = .outside →
      (a = .post → ∃ k, (∃ todo, s.sdk.post = .onCompleted k todo) ∨ s.sdk.post = .thrown k) →
      s.handler.current = some .javaCrashHandler →
      ProcessStep onCompleted s (.throws a) (s.setCrash a .uncaughtException)
  -- `uncaughtException`
  | disable {s a} : s.killed = none → s.crash a = .uncaughtException →
      ProcessStep onCompleted s (.disable a)
        { s.setCrash a .disabled with handler := s.handler.disable }
  | doCoredump {s a} : s.killed = none → s.crash a = .disabled →
      ProcessStep onCompleted s (.doCoredump a)
        { s.setCrash a .doCoredump with sdk := s.sdk.setStage a (.calling .doCoredump) }
  | killProcess {s a} : s.killed = none → s.crash a = .doCoredump → s.sdk.stage a = .outside →
      ProcessStep onCompleted s (.killProcess a) { s with killed := some a }

def ProcessEvent.calm : ProcessEvent T L K H → Bool
  | sdk e => e.calm
  | _ => true

/-- The steps that are not the application's. -/
def ProcessEvent.own : ProcessEvent T L K H → Bool
  | sdk e => e.own
  | handler _ | throws _ => false
  | _ => true

def ProcessEvent.installs : ProcessEvent T L K H → Bool
  | handler call => call.installs
  | _ => false

/-- A step of a process in which no thread is interrupted and no signal dumps. -/
def CalmProcess (onCompleted : L → K → List (Method L)) (s : Process T L K H)
    (x : ProcessEvent T L K H) (t : Process T L K H) : Prop :=
  ProcessStep onCompleted s x t ∧ x.calm = true

section Calls

variable {s t : State T L K} {e : Event T L K} {a : Caller T} {stage stage' : CallStage L}

omit [DecidableEq T] [DecidableEq K] in
theorem CallStage.Moves.to_outside (hmoves : CallStage.Moves s e t a stage stage')
    (hcalm : e.calm = true) (h : stage' = .outside) : stage = .outside ∨ stage = .inside ∨
      ∃ msg, stage = .waitCore msg ∧ (msg, true) ∈ t.results := by
  cases hmoves with
  | stay _ => exact Or.inl h
  | enter method => cases method <;> cases h
  | leave => exact Or.inr (Or.inl rfl)
  | coreSeen msg _ hmem => exact Or.inr (Or.inr ⟨msg, rfl, hmem⟩)
  | coreInterrupted _ he =>
    subst he
    cases hcalm
  | _ => cases h

end Calls

section Crashes

variable {onCompleted : L → K → List (Method L)} {s t : Process T L K H}
  {x : ProcessEvent T L K H}

/-- Where a thread that has thrown can be in `Coredump`. -/
def CrashStage.At : CrashStage → CallStage L → Prop
  | running, _ => True
  | uncaughtException, stage | disabled, stage => stage = .outside
  | doCoredump, stage => stage ≠ .inside ∧ ∀ method, stage = .calling method → method = .doCoredump

/-- A thread that has thrown calls nothing but what `uncaughtException` does. -/
def CrashInv (s : Process T L K H) : Prop := ∀ a, (s.crash a).At (s.sdk.stage a)

omit [DecidableEq K] in
theorem CrashInv.update (h : CrashInv s) (a : Caller T) {stage : CrashStage}
    (hcrash : t.crash = Function.update s.crash a stage)
    (hstage : ∀ b, b ≠ a → t.sdk.stage b = s.sdk.stage b) (ha : stage.At (t.sdk.stage a)) :
    CrashInv t := by
  intro b
  rw [hcrash]
  by_cases hba : b = a
  · subst hba
    rw [Function.update_self]
    exact ha
  · rw [Function.update_of_ne hba, hstage b hba]
    exact h b

/-- On the way from `s`, the thread has asked for a dump with message `msg`. -/
def Asked (onCompleted : L → K → List (Method L)) (s : Process T L K H) (a : Caller T) (msg : ℕ)
    (events : List (ProcessEvent T L K H)) : Prop :=
  ∃ past rest v, events = past ++ .sdk (.sendCore a) :: rest ∧
    Run (CalmProcess onCompleted) s past v ∧ v.sdk.next = msg

/-- What the thread has asked for since it has thrown, and what it kills after. -/
structure Dumps (onCompleted : L → K → List (Method L)) (s : Process T L K H) (a : Caller T)
    (past : List (ProcessEvent T L K H)) (u : Process T L K H) : Prop where
  run : Run (CalmProcess onCompleted) s past u
  waitCore : u.crash a = .doCoredump → ∀ msg, u.sdk.stage a = .waitCore msg →
    Asked onCompleted s a msg past
  returned : u.crash a = .doCoredump → u.sdk.stage a = .outside →
    ∃ msg, Asked onCompleted s a msg past ∧ (msg, true) ∈ u.sdk.results
  killed : u.killed = some a → ∃ msg, Asked onCompleted s a msg past ∧ (msg, true) ∈ u.sdk.results

theorem Asked.concat {a : Caller T} {msg : ℕ} {events : List (ProcessEvent T L K H)}
    (h : Asked onCompleted s a msg events) (x : ProcessEvent T L K H) :
    Asked onCompleted s a msg (events ++ [x]) := by
  obtain ⟨past, rest, v, rfl, hrun, hnext⟩ := h
  exact ⟨past, rest ++ [x], v, by simp, hrun, hnext⟩

theorem Dumps.frame {a : Caller T} {past : List (ProcessEvent T L K H)} {u w : Process T L K H}
    (h : Dumps onCompleted s a past u) (hrun : Run (CalmProcess onCompleted) s (past ++ [x]) w)
    (hsdk : w.sdk = u.sdk) (hcrash : w.crash a = .doCoredump → u.crash a = .doCoredump)
    (hkilled : w.killed = some a → u.killed = some a) :
    Dumps onCompleted s a (past ++ [x]) w where
  run := hrun
  waitCore := by
    rw [hsdk]
    exact fun hdump msg hwait => (h.waitCore (hcrash hdump) msg hwait).concat x
  returned := by
    rw [hsdk]
    intro hdump hout
    obtain ⟨msg, hasked, hmem⟩ := h.returned (hcrash hdump) hout
    exact ⟨msg, hasked.concat x, hmem⟩
  killed := by
    rw [hsdk]
    intro hkill
    obtain ⟨msg, hasked, hmem⟩ := h.killed (hkilled hkill)
    exact ⟨msg, hasked.concat x, hmem⟩

/-- A step of the SDK, which may send the thread's message or answer it. -/
theorem Dumps.sdk {a : Caller T} {past : List (ProcessEvent T L K H)} {u w : Process T L K H}
    {e : Event T L K} (h : Dumps onCompleted s a past u) (hcrash : CrashInv u)
    (hrun : Run (CalmProcess onCompleted) s (past ++ [.sdk e]) w) (hcalm : e.calm = true)
    (hsdk : Step onCompleted u.sdk e w.sdk) (hsame : w.crash = u.crash) (hlive : w.killed = none) :
    Dumps onCompleted s a (past ++ [.sdk e]) w where
  run := hrun
  waitCore := by
    intro hdump msg hwait
    rw [hsame] at hdump
    rcases (hsdk.stage_moves a).to_waitCore hwait with hstay | ⟨-, rfl, rfl, -⟩
    · exact (h.waitCore hdump msg hstay).concat _
    · exact ⟨past, [], u, rfl, h.run, rfl⟩
  returned := by
    intro hdump hout
    rw [hsame] at hdump
    rcases (hsdk.stage_moves a).to_outside hcalm hout with hstay | hinside | ⟨msg, hwait, hmem⟩
    · obtain ⟨msg, hasked, hmem⟩ := h.returned hdump hstay
      exact ⟨msg, hasked.concat _, hsdk.results_subset hmem⟩
    · have hat := hcrash a
      rw [hdump] at hat
      exact absurd hinside hat.1
    · exact ⟨msg, (h.waitCore hdump msg hwait).concat _, hmem⟩
  killed := fun hkill => nomatch hlive.symm.trans hkill

end Crashes

section Return

variable {onCompleted : L → K → List (Method L)}

end Return

section Stuck

variable {onCompleted : L → K → List (Method L)} {s t : Process T L K H}
  {x : ProcessEvent T L K H}

/-- `opencore-post` has left `onCompleted`, and call `b` waits for the dump of its callback. -/
structure Stuck (b : Caller T) (k : K) (s : Process T L K H) : Prop where
  guards : Guards s.sdk.monitor CallStage.holdsMonitor s.sdk.stage
  waits : ∃ msg, s.sdk.stage b = .waitCore msg
  core : s.sdk.mCondition.COREDUMPED = false
  joins : ∃ msg, s.sdk.worker = .join msg k
  callback : s.sdk.callback k = .waitCompleted
  others : ∀ k', (s.sdk.callback k').active = true → k' = k
  completed : s.sdk.mCondition.COREDUMP_COMPLETED = false
  post : (∃ todo, s.sdk.post = .onCompleted k todo) ∨ s.sdk.post = .thrown k
  thrown : s.crash .post ≠ .running

def Process.Done (s : Process T L K H) (a : Caller T) : Prop :=
  s.crash a = .doCoredump ∧ s.sdk.stage a = .outside

omit [DecidableEq K] in
theorem Stuck.calls {b : Caller T} {k : K} (h : Stuck b k s) {a : Caller T} {method : Method L}
    (ha : s.sdk.stage a = .outside) (hsdk : t.sdk = s.sdk.setStage a (.calling method))
    (hthrown : t.crash .post ≠ .running) : Stuck b k t := by
  obtain ⟨msg, hb⟩ := h.waits
  have hba : b ≠ a := by
    rintro rfl
    cases ha.symm.trans hb
  refine ⟨?_, ⟨msg, ?_⟩, ?_, ?_, ?_, ?_, ?_, ?_, hthrown⟩ <;> rw [hsdk]
  · exact h.guards.keep (by rw [ha]; rfl)
  · exact (Function.update_of_ne hba _ _).trans hb
  · exact h.core
  · exact h.joins
  · exact h.callback
  · exact h.others
  · exact h.completed
  · exact h.post

structure Unmoved (s t : Process T L K H) : Prop where
  results : t.sdk.results = s.sdk.results
  done : ∀ a, t.Done a → s.Done a
  killed : ∀ a, t.killed = some a → s.killed = some a ∨ s.Done a

omit [DecidableEq T] [DecidableEq K] in
theorem Unmoved.trans {u : Process T L K H} (h : Unmoved s t) (h' : Unmoved t u) :
    Unmoved s u where
  results := h'.results.trans h.results
  done := fun a ha => h.done a (h'.done a ha)
  killed := fun a ha => (h'.killed a ha).elim (h.killed a) fun hdone => Or.inr (h.done a hdone)

omit [DecidableEq T] [DecidableEq K] in
theorem Stuck.frame {b : Caller T} {k : K} (h : Stuck b k s) (hsdk : t.sdk = s.sdk)
    (hthrown : t.crash .post ≠ .running) : Stuck b k t := by
  obtain ⟨hguards, hwaits, hcore, hjoins, hcallback, hothers, hcompleted, hpost, -⟩ := h
  rw [← hsdk] at *
  exact ⟨hguards, hwaits, hcore, hjoins, hcallback, hothers, hcompleted, hpost, hthrown⟩

end Stuck

end Sdk

end Opencore
