import Opencore.Machine.Mutex
import Opencore.Sdk.Acknowledge
import Opencore.Sdk.Deadlock

/-! Runs in which no thread is interrupted and no crash is dumped: what a call of `doCoredump`
waits for happens, in a bounded number of steps. -/
namespace Opencore.Sdk
open Machine

variable {T L K : Type*}

/-- The dump of a crash brings a callback thread of its own. -/
def Event.calm : Event T L K → Bool
  | crash _ | coreInterrupted _ | completedInterrupted _ => false
  | _ => true

/-- The steps of the SDK, those of the application and of its listener apart. -/
def Event.own : Event T L K → Bool
  | call _ _ | setListener _ | crash _ | coreInterrupted _ | completedInterrupted _ |
    listenerCalls | listenerEnters | listenerReturns => false
  | _ => true

/-- On the way from `callbackEvent` to the end of `doCompleted`. -/
def CallbackStage.active : CallbackStage → Bool
  | unborn | finished _ => false
  | _ => true

def PostStage.callbacks : PostStage L K → List K
  | idle => []
  | checked k | onCompleted k _ | returned k | notifyCompleted k _ | thrown k => [k]

/-- The callbacks whose message has not been handled to its end. -/
def State.posted (s : State T L K) : List K := s.post.callbacks ++ s.coredumpPostWork

/-- What a callback that `opencore-bg` waits for has to do with `opencore-post`. -/
def CallbackStage.Joins (k : K) (posted : List K) (completed : Bool) : CallbackStage → Prop
  | unborn => False
  | cleared => posted = [] ∧ completed = false
  | waitCompleted => (posted = [k] ∧ completed = false) ∨ (posted = [] ∧ completed = true)
  | _ => posted = []

/-- Only the callback that is waited for is under way. -/
structure CallbackInv (s : State T L K) : Prop where
  active : ∀ k, (s.callback k).active = true → ∃ msg, s.worker = .join msg k
  joins : ∀ msg k, s.worker = .join msg k →
    (s.callback k).Joins k s.posted s.mCondition.COREDUMP_COMPLETED
  rest : (∀ msg k, s.worker ≠ .join msg k) → s.posted = []

/-- A message has been sent that its call has not been told of. -/
def Pending (s : State T L K) : Prop := s.worker ≠ .idle ∨ s.coredumpWork ≠ []

structure CalmInv (s : State T L K) : Prop where
  acknowledge : AcknowledgeInv s
  postFree : PostFree s
  callbacks : CallbackInv s
  waits : Pending s → CoreClear s ∧ ∃ a msg, s.stage a = .waitCore msg
  single : s.coredumpWork.length ≤ 1
  busy : s.worker ≠ .idle → s.coredumpWork = []
  woken : ∀ a msg, s.stage a = .waitCore msg → ¬ Pending s → s.mCondition.COREDUMPED = true
  results : ∀ r ∈ s.results, r.2 = true

section Callbacks

variable {s t : State T L K}

theorem CallbackInv.frame (h : CallbackInv s) (hworker : t.worker = s.worker)
    (hcallback : t.callback = s.callback) (hposted : t.posted = s.posted)
    (hcompleted : t.mCondition.COREDUMP_COMPLETED = s.mCondition.COREDUMP_COMPLETED) :
    CallbackInv t := by
  obtain ⟨hactive, hjoins, hrest⟩ := h
  rw [← hworker, ← hcallback, ← hposted, ← hcompleted] at *
  exact ⟨hactive, hjoins, hrest⟩

theorem CallbackInv.of_posted (h : CallbackInv s) {k : K} (hk : k ∈ s.posted) :
    ∃ msg, s.worker = .join msg k ∧ s.callback k = .waitCompleted ∧ s.posted = [k] ∧
      s.mCondition.COREDUMP_COMPLETED = false := by
  have hne : s.posted ≠ [] := List.ne_nil_of_mem hk
  by_cases hjoin : ∃ msg k', s.worker = .join msg k'
  · obtain ⟨msg, k', hworker⟩ := hjoin
    have hjoins := h.joins msg k' hworker
    cases hstage : s.callback k' with
    | waitCompleted =>
      rw [hstage] at hjoins
      rcases hjoins with ⟨hone, hclear⟩ | ⟨hnil, -⟩
      · rw [hone, List.mem_singleton] at hk
        subst hk
        exact ⟨msg, hworker, hstage, hone, hclear⟩
      · exact absurd hnil hne
    | unborn =>
      rw [hstage] at hjoins
      exact hjoins.elim
    | cleared =>
      rw [hstage] at hjoins
      exact absurd hjoins.1 hne
    | _ =>
      rw [hstage] at hjoins
      exact absurd hjoins hne
  · exact absurd (h.rest fun msg k' hworker => hjoin ⟨msg, k', hworker⟩) hne

theorem CallbackInv.joined (h : CallbackInv s) {msg : ℕ} {k : K} {result : Bool}
    (hjoin : s.worker = .join msg k) (hk : s.callback k = .finished result)
    (hjoin' : ∀ msg k, t.worker ≠ .join msg k) (hcallback : t.callback = s.callback)
    (hposted : t.posted = s.posted) : CallbackInv t where
  active := by
    intro k' hk'
    rw [hcallback] at hk'
    obtain ⟨msg', hjoin''⟩ := h.active k' hk'
    obtain ⟨-, rfl⟩ := WorkerStage.join.inj (hjoin.symm.trans hjoin'')
    rw [hk] at hk'
    cases hk'
  joins := fun msg k hworker => absurd hworker (hjoin' msg k)
  rest := by
    intro _
    have hjoins := h.joins msg k hjoin
    rw [hk] at hjoins
    exact hposted.trans hjoins

variable [DecidableEq K]

theorem CallbackInv.move (h : CallbackInv s) {k : K} {stage stage' : CallbackStage}
    (hk : s.callback k = stage) (hactive : stage.active = true) (hworker : t.worker = s.worker)
    (hcallback : t.callback = Function.update s.callback k stage')
    (hjoins : stage.Joins k s.posted s.mCondition.COREDUMP_COMPLETED →
      stage'.Joins k t.posted t.mCondition.COREDUMP_COMPLETED) : CallbackInv t := by
  obtain ⟨msg, hjoin⟩ := h.active k (hk ▸ hactive)
  constructor
  · intro k' hk'
    rw [hcallback] at hk'
    rw [hworker]
    rcases update_eq_cases (rfl : Function.update s.callback k stage' k' = _) with
      ⟨rfl, -⟩ | ⟨-, hother⟩
    · exact ⟨msg, hjoin⟩
    · exact h.active k' (hother ▸ hk')
  · intro msg' k' hjoin'
    rw [hworker] at hjoin'
    obtain ⟨rfl, rfl⟩ := WorkerStage.join.inj (hjoin.symm.trans hjoin')
    rw [hcallback, Function.update_self]
    exact hjoins (hk ▸ h.joins msg k hjoin)
  · intro hnot
    exact absurd (hworker.trans hjoin) (hnot msg k)

theorem CallbackInv.start (h : CallbackInv s) {k : K} {msg : ℕ}
    (hjoin : ∀ msg k, s.worker ≠ .join msg k) (hworker : t.worker = .join msg k)
    (hcallback : t.callback = Function.update s.callback k .doCompleted)
    (hposted : t.posted = s.posted) : CallbackInv t := by
  constructor
  · intro k' hk'
    rw [hcallback] at hk'
    rcases update_eq_cases (rfl : Function.update s.callback k .doCompleted k' = _) with
      ⟨rfl, -⟩ | ⟨-, hother⟩
    · exact ⟨msg, hworker⟩
    · obtain ⟨msg', hbusy⟩ := h.active k' (hother ▸ hk')
      exact absurd hbusy (hjoin msg' k')
  · intro msg' k' hjoin'
    obtain ⟨rfl, rfl⟩ := WorkerStage.join.inj (hworker.symm.trans hjoin')
    rw [hcallback, Function.update_self]
    exact hposted.trans (h.rest hjoin)
  · intro hnot
    exact absurd hworker (hnot msg k)

variable [DecidableEq T] {onCompleted : L → K → List (Method L)}

/-- A message stays with `opencore-post` up to its end. -/
theorem Step.posted {e : Event T L K} (hstep : Step onCompleted s e t)
    (hsend : ∀ k, e ≠ .sendCompleted k) (hnotify : e ≠ .notifyCompleted) :
    t.posted = s.posted := by
  cases hstep with
  | sendCompleted _ => exact absurd rfl (hsend _)
  | handleCompleted hpost hwork _ => simp [State.posted, hpost, hwork, PostStage.callbacks]
  | handleNoListener hpost hwork _ => simp [State.posted, hpost, hwork, PostStage.callbacks]
  | callListener hpost _ => simp [State.posted, hpost, PostStage.callbacks]
  | nullListener hpost _ => simp [State.posted, hpost, PostStage.callbacks]
  | listenerCalls hpost _ _ => simp [State.posted, hpost, PostStage.callbacks]
  | listenerEnters hpost _ _ => simp [State.posted, hpost, PostStage.callbacks, State.setStage]
  | listenerReturns hpost _ => simp [State.posted, hpost, PostStage.callbacks]
  | lockCompleted hpost _ => simp [State.posted, hpost, PostStage.callbacks]
  | notifyCompleted _ => exact absurd rfl hnotify
  | _ => rfl

end Callbacks

section Calls

variable {s t : State T L K}

theorem CalmInv.guards (h : CalmInv s) : Guards s.monitor CallStage.holdsMonitor s.stage :=
  h.acknowledge.guards

theorem not_pending_iff : ¬ Pending s ↔ s.worker = .idle ∧ s.coredumpWork = [] := by
  rw [Pending, not_or, not_not, not_not]

theorem posted_eq_nil (h : s.posted = []) : s.post = .idle ∧ s.coredumpPostWork = [] := by
  obtain ⟨hpost, hwork⟩ := List.append_eq_nil_iff.mp h
  refine ⟨?_, hwork⟩
  cases hstage : s.post with
  | idle => rfl
  | _ =>
    rw [hstage] at hpost
    cases hpost

/-- `opencore-post` has nothing to do while `opencore-bg` has not. -/
theorem CalmInv.post_idle (h : CalmInv s) (hidle : s.worker = .idle) :
    s.post = .idle ∧ s.coredumpPostWork = [] :=
  posted_eq_nil (h.callbacks.rest fun _ _ hjoin => nomatch hidle.symm.trans hjoin)

variable [DecidableEq T] [DecidableEq K] {onCompleted : L → K → List (Method L)}
  {e : Event T L K}

section Fields

variable (h : CalmInv s) (hstep : Step onCompleted s e t)
include h hstep

theorem CalmInv.sends {a : Caller T} (ha : s.stage a = .cleared) :
    CoreClear t ∧ s.coredumpWork = [] ∧ s.worker = .idle := by
  obtain ⟨hcore, hempty, hidle⟩ := h.acknowledge.cleared a ha
  have he : e ≠ .notifyCore :=
    hstep.ne_notifyCore fun _ _ hworker => nomatch hidle.symm.trans hworker
  exact ⟨coreClear_step hstep he hcore, hempty, hidle⟩

theorem CalmInv.results_step (hcalm : e.calm = true) : ∀ r ∈ t.results, r.2 = true := by
  cases hstep.results_moves with
  | stay hsame =>
    rw [hsame]
    exact h.results
  | coreSeen a msg _ _ hresults =>
    rw [hresults]
    exact List.forall_mem_cons.mpr ⟨rfl, h.results⟩
  | coreInterrupted a msg he _ =>
    subst he
    cases hcalm

end Fields

end Calls

section Progress

/-! How many steps of the SDK a call is away from its return at most, each message and each
callback counted from where it is. -/

def CallStage.left : CallStage L → ℕ
  | doCoredump => 17
  | read _ => 16
  | cleared => 15
  | _ => 0

def CallbackStage.left : CallbackStage → ℕ
  | doCompleted => 9
  | listened => 8
  | read _ => 7
  | cleared => 6
  | waitCompleted => 1
  | _ => 0

def State.workerLeft (s : State T L K) : ℕ :=
  match s.worker with
  | .idle => 0
  | .nativeCoredump _ => 13
  | .join _ k => 3 + (s.callback k).left
  | .returned _ => 2
  | .notifyCore _ _ => 1

def PostStage.left : PostStage L K → ℕ
  | idle | thrown _ => 0
  | checked _ => 3
  | onCompleted _ _ | returned _ => 2
  | notifyCompleted _ _ => 1

def State.left (s : State T L K) (a : Caller T) : ℕ :=
  (s.stage a).left + 14 * s.coredumpWork.length + s.workerLeft +
    4 * s.coredumpPostWork.length + s.post.left

variable {s t : State T L K}

variable [DecidableEq T] [DecidableEq K] {onCompleted : L → K → List (Method L)}

def CanStep (onCompleted : L → K → List (Method L)) (s : State T L K) : Prop :=
  ∃ e t, e.own = true ∧ e.calm = true ∧ Step onCompleted s e t

/-- While `opencore-bg` waits for a callback and `opencore-post` has nothing to do, the callback
can go on. -/
theorem canStep_of_join (h : CalmInv s) {msg : ℕ} {k : K} (hworker : s.worker = .join msg k)
    (hpost : s.post = .idle) (hposted : s.posted = []) : CanStep onCompleted s := by
  have hlock : s.LockFree := ⟨by rw [hworker]; rfl, by rw [hpost]; rfl⟩
  have hjoins := h.callbacks.joins msg k hworker
  cases hstage : s.callback k with
  | unborn =>
    rw [hstage] at hjoins
    exact hjoins.elim
  | doCompleted =>
    cases hlistener : s.mListener with
    | none => exact ⟨_, _, rfl, rfl, .noListener hstage hlistener⟩
    | some l => exact ⟨_, _, rfl, rfl, .listener hstage hlistener⟩
  | listened => exact ⟨_, _, rfl, rfl, .readCompleted hstage⟩
  | read c => exact ⟨_, _, rfl, rfl, .clearCompleted hstage⟩
  | cleared => exact ⟨_, _, rfl, rfl, .sendCompleted hstage⟩
  | waitCompleted =>
    rw [hstage] at hjoins
    rcases hjoins with ⟨hone, -⟩ | ⟨-, hset⟩
    · cases hposted.symm.trans hone
    · exact ⟨_, _, rfl, rfl, .completedSeen hstage hlock hset⟩
  | finished result => exact ⟨_, _, rfl, rfl, .joined hworker hstage⟩

theorem canStep_of_call (h : CalmInv s) {a : Caller T} (ha : s.monitor = some a)
    (hnot : ¬ Pending s) : CanStep onCompleted s := by
  have hholds := h.guards.of_owner ha
  have hidle := (not_pending_iff.mp hnot).1
  have hlock : s.LockFree := ⟨by rw [hidle]; rfl, by rw [(h.post_idle hidle).1]; rfl⟩
  cases hstage : s.stage a with
  | outside =>
    rw [hstage] at hholds
    cases hholds
  | calling method =>
    rw [hstage] at hholds
    cases hholds
  | inside => exact ⟨_, _, rfl, rfl, .leave hstage⟩
  | doCoredump => exact ⟨_, _, rfl, rfl, .readCore hstage⟩
  | read c => exact ⟨_, _, rfl, rfl, .clearCore hstage⟩
  | cleared => exact ⟨_, _, rfl, rfl, .sendCore hstage⟩
  | waitCore msg => exact ⟨_, _, rfl, rfl, .coreSeen hstage hlock (h.woken a msg hstage hnot)⟩

theorem CalmInv.progress (h : CalmInv s) {a : Caller T} (ha : s.monitor = some a) :
    CanStep onCompleted s ∨ (∃ k todo, s.post = .onCompleted k todo) ∨
      ∃ k, s.post = .thrown k := by
  cases hpost : s.post with
  | onCompleted k todo => exact Or.inr (Or.inl ⟨k, todo, rfl⟩)
  | thrown k => exact Or.inr (Or.inr ⟨k, rfl⟩)
  | notifyCompleted k c => exact Or.inl ⟨_, _, rfl, rfl, .notifyCompleted hpost⟩
  | checked k =>
    cases hlistener : s.mListener with
    | none => exact Or.inl ⟨_, _, rfl, rfl, .nullListener hpost hlistener⟩
    | some l => exact Or.inl ⟨_, _, rfl, rfl, .callListener hpost hlistener⟩
  | returned k =>
    have hmem : k ∈ s.posted := by
      rw [State.posted, hpost]
      exact List.mem_cons_self
    obtain ⟨msg, hworker, -⟩ := h.callbacks.of_posted hmem
    exact Or.inl ⟨_, _, rfl, rfl, .lockCompleted hpost
      ⟨by rw [hworker]; rfl, by rw [hpost]; rfl⟩⟩
  | idle =>
    left
    cases hwork : s.coredumpPostWork with
    | cons k rest =>
      cases hlistener : s.mListener with
      | none => exact ⟨_, _, rfl, rfl, .handleNoListener hpost hwork hlistener⟩
      | some l => exact ⟨_, _, rfl, rfl, .handleCompleted hpost hwork hlistener⟩
    | nil =>
      have hposted : s.posted = [] := by
        rw [State.posted, hpost, hwork]
        rfl
      cases hworker : s.worker with
      | nativeCoredump msg => exact ⟨_, _, rfl, rfl, .noCallback hworker⟩
      | join msg k => exact canStep_of_join h hworker hpost hposted
      | returned msg =>
        exact ⟨_, _, rfl, rfl, .lockCore hworker ⟨by rw [hworker]; rfl, by rw [hpost]; rfl⟩⟩
      | notifyCore msg c => exact ⟨_, _, rfl, rfl, .notifyCore hworker⟩
      | idle =>
        cases hqueue : s.coredumpWork with
        | cons msg rest => exact ⟨_, _, rfl, rfl, .handleCore hworker hqueue⟩
        | nil => exact canStep_of_call h ha (not_pending_iff.mpr ⟨hworker, hqueue⟩)

end Progress

section Return

variable [DecidableEq T] [DecidableEq K] {onCompleted : L → K → List (Method L)}

end Return

end Opencore.Sdk
