import Opencore.Machine.Mutex
import Opencore.Sdk.Coredump

/-! What a step does to each thread and to what the threads share, each on its own. -/
namespace Opencore.Sdk
open Machine

variable {T L K : Type*}

/-- The thread of the application that makes a step, or the listener. -/
def Event.user : Event T L K → Option (Caller T)
  | call t _ => some (.app t)
  | listenerCalls | listenerEnters | listenerReturns => some .post
  | _ => none

/-- How a step can move the call of thread `a`. -/
inductive CallStage.Moves (s : State T L K) (e : Event T L K) (t : State T L K) (a : Caller T) :
    CallStage L → CallStage L → Prop
  | stay stage : Moves s e t a stage stage
  | call method : e.user = some a → method.synchronized = true →
      (a = .post → ∃ k todo, s.post = .onCompleted k (method :: todo)) →
      Moves s e t a .outside (.calling method)
  | enter method : Moves s e t a (.calling method) method.entered
  | leave : Moves s e t a .inside .outside
  | readCore : Moves s e t a .doCoredump (.read s.mCondition)
  | clearCore c : e = .clearCore a → Moves s e t a (.read c) .cleared
  | sendCore : e = .sendCore a → t.coredumpWork = s.coredumpWork ++ [s.next] →
      Moves s e t a .cleared (.waitCore s.next)
  | coreSeen msg : s.mCondition.COREDUMPED = true → (msg, true) ∈ t.results →
      Moves s e t a (.waitCore msg) .outside
  | coreInterrupted msg : e = .coreInterrupted a → Moves s e t a (.waitCore msg) .outside

inductive WorkerStage.Moves (s t : State T L K) : WorkerStage K → WorkerStage K → Prop
  | stay stage : Moves s t stage stage
  | handleCore msg : s.coredumpWork = msg :: t.coredumpWork → Moves s t .idle (.nativeCoredump msg)
  | startCallback msg k : Moves s t (.nativeCoredump msg) (.join msg k)
  | noCallback msg : t.nativeReturned = msg :: s.nativeReturned →
      Moves s t (.nativeCoredump msg) (.returned msg)
  | joined msg k : t.nativeReturned = msg :: s.nativeReturned →
      Moves s t (.join msg k) (.returned msg)
  | lockCore msg : Moves s t (.returned msg) (.notifyCore msg s.mCondition)
  | notifyCore msg c : t.mCondition.COREDUMPED = true → Moves s t (.notifyCore msg c) .idle

/-- How a step can move callback `k`. -/
inductive CallbackStage.Moves (s : State T L K) (e : Event T L K) (t : State T L K) (k : K) :
    CallbackStage → CallbackStage → Prop
  | stay stage : Moves s e t k stage stage
  | start : Moves s e t k .unborn .doCompleted
  | noListener : s.mListener = none → Moves s e t k .doCompleted (.finished true)
  | listener : Moves s e t k .doCompleted .listened
  | readCompleted : Moves s e t k .listened (.read s.mCondition)
  | clearCompleted c : e = .clearCompleted k → Moves s e t k (.read c) .cleared
  | sendCompleted : t.coredumpPostWork = s.coredumpPostWork ++ [k] →
      Moves s e t k .cleared .waitCompleted
  | completedSeen : s.mCondition.COREDUMP_COMPLETED = true →
      Moves s e t k .waitCompleted (.finished true)
  | completedInterrupted : Moves s e t k .waitCompleted (.finished false)

inductive PostStage.Moves (onCompleted : L → K → List (Method L)) (s t : State T L K) :
    PostStage L K → PostStage L K → Prop
  | stay stage : Moves onCompleted s t stage stage
  | handleCompleted k : s.coredumpPostWork = k :: t.coredumpPostWork →
      Moves onCompleted s t .idle (.checked k)
  | handleNoListener k : s.mListener = none → s.coredumpPostWork = k :: t.coredumpPostWork →
      Moves onCompleted s t .idle (.returned k)
  | callListener k l : Moves onCompleted s t (.checked k) (.onCompleted k (onCompleted l k))
  | nullListener k : s.mListener = none → Moves onCompleted s t (.checked k) (.thrown k)
  | listenerCalls k method todo :
      Moves onCompleted s t (.onCompleted k (method :: todo)) (.onCompleted k todo)
  | listenerReturns k : t.delivered = k :: s.delivered →
      Moves onCompleted s t (.onCompleted k []) (.returned k)
  | lockCompleted k : Moves onCompleted s t (.returned k) (.notifyCompleted k s.mCondition)
  | notifyCompleted k c : Moves onCompleted s t (.notifyCompleted k c) .idle

/-- How a step can write `mCondition`: four threads write back what they have read. -/
inductive Condition.Moves (s : State T L K) (e : Event T L K) : Condition → Prop
  | stay : Moves s e s.mCondition
  | clearCore a c : s.stage a = .read c → Moves s e { c with COREDUMPED := false }
  | notifyCore msg c : e = .notifyCore → s.worker = .notifyCore msg c →
      Moves s e { c with COREDUMPED := true }
  | clearCompleted k c : s.callback k = .read c → Moves s e { c with COREDUMP_COMPLETED := false }
  | notifyCompleted k c : e = .notifyCompleted → s.post = .notifyCompleted k c →
      Moves s e { c with COREDUMP_COMPLETED := true }

/-- How a step can move the queue of `opencore-bg`. -/
inductive CoredumpWorkMoves (s t : State T L K) : Prop
  | stay : t.coredumpWork = s.coredumpWork → CoredumpWorkMoves s t
  | sendCore a : s.stage a = .cleared → t.stage a = .waitCore s.next →
      t.coredumpWork = s.coredumpWork ++ [s.next] → CoredumpWorkMoves s t
  | handleCore msg : s.worker = .idle → t.worker = .nativeCoredump msg →
      s.coredumpWork = msg :: t.coredumpWork → CoredumpWorkMoves s t

/-- How a step can move the queue of `opencore-post`. -/
inductive CoredumpPostWorkMoves (s t : State T L K) : Prop
  | stay : t.coredumpPostWork = s.coredumpPostWork → CoredumpPostWorkMoves s t
  | sendCompleted k : s.callback k = .cleared → t.callback k = .waitCompleted →
      t.coredumpPostWork = s.coredumpPostWork ++ [k] → CoredumpPostWorkMoves s t
  | handleCompleted k : s.post = .idle → t.post ≠ .idle →
      s.coredumpPostWork = k :: t.coredumpPostWork → CoredumpPostWorkMoves s t

/-- What a step can add to the results of `doCoredump`. -/
inductive ResultsMoves (s : State T L K) (e : Event T L K) (t : State T L K) : Prop
  | stay : t.results = s.results → ResultsMoves s e t
  | coreSeen a msg : s.stage a = .waitCore msg → s.mCondition.COREDUMPED = true →
      t.results = (msg, true) :: s.results → ResultsMoves s e t
  | coreInterrupted a msg : e = .coreInterrupted a → t.results = (msg, false) :: s.results →
      ResultsMoves s e t

section Steps

variable [DecidableEq T] [DecidableEq K] {onCompleted : L → K → List (Method L)}
  {s t : State T L K} {e : Event T L K}

theorem Step.stage_moves (hstep : Step onCompleted s e t) (a : Caller T) :
    CallStage.Moves s e t a (s.stage a) (t.stage a) := by
  have hupdate {b : Caller T} {stage stage' : CallStage L} (hb : s.stage b = stage)
      (h : CallStage.Moves s e t b stage stage') :
      CallStage.Moves s e t a (s.stage a) (Function.update s.stage b stage' a) := by
    by_cases hab : a = b
    · subst hab
      rw [Function.update_self, hb]
      exact h
    · rw [Function.update_of_ne hab]
      exact .stay _
  cases hstep with
  | call hb hsync => exact hupdate hb (.call _ rfl hsync nofun)
  | enter hb _ => exact hupdate hb (.enter _)
  | leave hb => exact hupdate hb .leave
  | readCore hb => exact hupdate hb .readCore
  | clearCore hb => exact hupdate hb (.clearCore _ rfl)
  | sendCore hb => exact hupdate hb (.sendCore rfl rfl)
  | coreSeen hb _ hset => exact hupdate hb (.coreSeen _ hset List.mem_cons_self)
  | coreInterrupted hb _ => exact hupdate hb (.coreInterrupted _ rfl)
  | listenerEnters hpost hb hsync =>
    exact hupdate hb (.call _ rfl hsync fun _ => ⟨_, _, hpost⟩)
  | _ => exact .stay _

theorem Step.worker_moves (hstep : Step onCompleted s e t) :
    WorkerStage.Moves s t s.worker t.worker := by
  cases hstep with
  | handleCore hworker hwork => exact hworker ▸ .handleCore _ hwork
  | startCallback hworker _ => exact hworker ▸ .startCallback _ _
  | noCallback hworker => exact hworker ▸ .noCallback _ rfl
  | joined hworker _ => exact hworker ▸ .joined _ _ rfl
  | lockCore hworker _ => exact hworker ▸ .lockCore _
  | notifyCore hworker => exact hworker ▸ .notifyCore _ _ rfl
  | _ => exact .stay _

theorem Step.callback_moves (hstep : Step onCompleted s e t) (k : K) :
    CallbackStage.Moves s e t k (s.callback k) (t.callback k) := by
  have hupdate {k' : K} {stage stage' : CallbackStage} (hk : s.callback k' = stage)
      (h : CallbackStage.Moves s e t k' stage stage') :
      CallbackStage.Moves s e t k (s.callback k) (Function.update s.callback k' stage' k) := by
    by_cases hkk : k = k'
    · subst hkk
      rw [Function.update_self, hk]
      exact h
    · rw [Function.update_of_ne hkk]
      exact .stay _
  cases hstep with
  | startCallback _ hk => exact hupdate hk .start
  | crash hk => exact hupdate hk .start
  | noListener hk hnone => exact hupdate hk (.noListener hnone)
  | listener hk _ => exact hupdate hk .listener
  | readCompleted hk => exact hupdate hk .readCompleted
  | clearCompleted hk => exact hupdate hk (.clearCompleted _ rfl)
  | sendCompleted hk => exact hupdate hk (.sendCompleted rfl)
  | completedSeen hk _ hset => exact hupdate hk (.completedSeen hset)
  | completedInterrupted hk _ => exact hupdate hk .completedInterrupted
  | _ => exact .stay _

theorem Step.post_moves (hstep : Step onCompleted s e t) :
    PostStage.Moves onCompleted s t s.post t.post := by
  cases hstep with
  | handleCompleted hpost hwork _ => exact hpost ▸ .handleCompleted _ hwork
  | handleNoListener hpost hwork hnone => exact hpost ▸ .handleNoListener _ hnone hwork
  | callListener hpost _ => exact hpost ▸ .callListener _ _
  | nullListener hpost hnone => exact hpost ▸ .nullListener _ hnone
  | listenerCalls hpost _ _ => exact hpost ▸ .listenerCalls _ _ _
  | listenerEnters hpost _ _ => exact hpost ▸ .listenerCalls _ _ _
  | listenerReturns hpost _ => exact hpost ▸ .listenerReturns _ rfl
  | lockCompleted hpost _ => exact hpost ▸ .lockCompleted _
  | notifyCompleted hpost => exact hpost ▸ .notifyCompleted _ _
  | _ => exact .stay _

theorem Step.mCondition_moves (hstep : Step onCompleted s e t) :
    Condition.Moves s e t.mCondition := by
  cases hstep with
  | clearCore ha => exact .clearCore _ _ ha
  | notifyCore hworker => exact .notifyCore _ _ rfl hworker
  | clearCompleted hk => exact .clearCompleted _ _ hk
  | notifyCompleted hpost => exact .notifyCompleted _ _ rfl hpost
  | _ => exact .stay

theorem Step.coredumpWork_moves (hstep : Step onCompleted s e t) : CoredumpWorkMoves s t := by
  cases hstep with
  | sendCore ha => exact .sendCore _ ha (Function.update_self ..) rfl
  | handleCore hworker hwork => exact .handleCore _ hworker rfl hwork
  | _ => exact .stay rfl

theorem Step.coredumpPostWork_moves (hstep : Step onCompleted s e t) :
    CoredumpPostWorkMoves s t := by
  cases hstep with
  | sendCompleted hk => exact .sendCompleted _ hk (Function.update_self ..) rfl
  | handleCompleted hpost hwork _ => exact .handleCompleted _ hpost nofun hwork
  | handleNoListener hpost hwork _ => exact .handleCompleted _ hpost nofun hwork
  | _ => exact .stay rfl

theorem Step.results_moves (hstep : Step onCompleted s e t) : ResultsMoves s e t := by
  cases hstep with
  | coreSeen ha _ hset => exact .coreSeen _ _ ha hset rfl
  | coreInterrupted _ _ => exact .coreInterrupted _ _ rfl rfl
  | _ => exact .stay rfl

theorem Step.results_subset (hstep : Step onCompleted s e t) : s.results ⊆ t.results := by
  cases hstep.results_moves with
  | stay h => exact h ▸ List.Subset.refl _
  | coreSeen _ _ _ _ h => exact h ▸ List.subset_cons_self _ _
  | coreInterrupted _ _ _ h => exact h ▸ List.subset_cons_self _ _

theorem Step.nativeReturned_subset (hstep : Step onCompleted s e t) :
    s.nativeReturned ⊆ t.nativeReturned := by
  cases hstep with
  | noCallback _ => exact List.subset_cons_self _ _
  | joined _ _ => exact List.subset_cons_self _ _
  | _ => exact List.Subset.refl _

theorem Step.delivered_subset (hstep : Step onCompleted s e t) : s.delivered ⊆ t.delivered := by
  cases hstep with
  | listenerReturns _ _ => exact List.subset_cons_self _ _
  | _ => exact List.Subset.refl _

theorem Step.ne_notifyCore (hstep : Step onCompleted s e t)
    (h : ∀ msg c, s.worker ≠ .notifyCore msg c) : e ≠ .notifyCore := by
  rintro rfl
  cases hstep with
  | notifyCore hworker => exact h _ _ hworker

theorem Step.ne_notifyCompleted (hstep : Step onCompleted s e t)
    (h : ∀ k c, s.post ≠ .notifyCompleted k c) : e ≠ .notifyCompleted := by
  rintro rfl
  cases hstep with
  | notifyCompleted hpost => exact h _ _ hpost

/-- The monitor is with the thread whose call says so. -/
theorem Step.guards (hstep : Step onCompleted s e t)
    (h : Guards s.monitor CallStage.holdsMonitor s.stage) :
    Guards t.monitor CallStage.holdsMonitor t.stage := by
  cases hstep with
  | call hb _ => exact h.keep (by rw [hb]; rfl)
  | @enter a method hb hfree =>
    have hholds : method.entered.holdsMonitor = true := by
      cases method <;> rfl
    exact (hfree ▸ h).acquire hholds
  | leave hb => exact h.release (by rw [hb]; rfl) rfl
  | readCore hb => exact h.keep (by rw [hb]; rfl)
  | clearCore hb => exact h.keep (by rw [hb]; rfl)
  | sendCore hb => exact h.keep (by rw [hb]; rfl)
  | coreSeen hb _ _ => exact h.release (by rw [hb]; rfl) rfl
  | coreInterrupted hb _ => exact h.release (by rw [hb]; rfl) rfl
  | listenerEnters _ hb _ => exact h.keep (by rw [hb]; rfl)
  | _ => exact h

end Steps

theorem guards_initial (listener : Option L) :
    Guards ({ mListener := listener } : State T L K).monitor CallStage.holdsMonitor
      ({ mListener := listener } : State T L K).stage :=
  fun _ => iff_of_false nofun Bool.false_ne_true

section Inversion

variable {onCompleted : L → K → List (Method L)} {s t : State T L K} {e : Event T L K}

theorem CallStage.Moves.of_outside {a : Caller T} {stage stage' : CallStage L}
    (h : Moves s e t a stage stage') (hfrom : stage = .outside) :
    stage' = .outside ∨ ∃ method, e.user = some a ∧ method.synchronized = true ∧
      (a = .post → ∃ k todo, s.post = .onCompleted k (method :: todo)) := by
  cases h with
  | stay _ => exact Or.inl hfrom
  | call method huser hsync hpost => exact Or.inr ⟨method, huser, hsync, hpost⟩
  | _ => cases hfrom

theorem CallStage.Moves.to_read {a : Caller T} {stage stage' : CallStage L} {c : Condition}
    (h : Moves s e t a stage stage') (hto : stage' = .read c) :
    stage = .read c ∨ c = s.mCondition := by
  cases h with
  | stay _ => exact Or.inl hto
  | enter method => cases method <;> cases hto
  | readCore => exact Or.inr (CallStage.read.inj hto).symm
  | _ => cases hto

theorem CallStage.Moves.to_cleared {a : Caller T} {stage stage' : CallStage L}
    (h : Moves s e t a stage stage') (hto : stage' = .cleared) :
    stage = .cleared ∨ e = .clearCore a := by
  cases h with
  | stay _ => exact Or.inl hto
  | enter method => cases method <;> cases hto
  | clearCore _ he => exact Or.inr he
  | _ => cases hto

theorem CallStage.Moves.to_waitCore {a : Caller T} {stage stage' : CallStage L} {msg : ℕ}
    (h : Moves s e t a stage stage') (hto : stage' = .waitCore msg) :
    stage = .waitCore msg ∨
      stage = .cleared ∧ msg = s.next ∧ e = .sendCore a ∧
        t.coredumpWork = s.coredumpWork ++ [s.next] := by
  cases h with
  | stay _ => exact Or.inl hto
  | enter method => cases method <;> cases hto
  | sendCore he hwork => exact Or.inr ⟨rfl, (CallStage.waitCore.inj hto).symm, he, hwork⟩
  | _ => cases hto

theorem CallStage.Moves.of_waitCore {a : Caller T} {stage stage' : CallStage L} {msg : ℕ}
    (h : Moves s e t a stage stage') (hfrom : stage = .waitCore msg) :
    stage' = .waitCore msg ∨ s.mCondition.COREDUMPED = true ∨ e = .coreInterrupted a := by
  cases h with
  | stay _ => exact Or.inl hfrom
  | coreSeen _ hset _ => exact Or.inr (Or.inl hset)
  | coreInterrupted _ he => exact Or.inr (Or.inr he)
  | _ => cases hfrom

theorem WorkerStage.Moves.to_notifyCore {stage stage' : WorkerStage K} {msg : ℕ} {c : Condition}
    (h : Moves s t stage stage') (hto : stage' = .notifyCore msg c) :
    stage = .notifyCore msg c ∨ c = s.mCondition := by
  cases h with
  | stay _ => exact Or.inl hto
  | lockCore _ => exact Or.inr (WorkerStage.notifyCore.inj hto).2.symm
  | _ => cases hto

theorem WorkerStage.Moves.of_idle {stage stage' : WorkerStage K} (h : Moves s t stage stage')
    (hfrom : stage = .idle) : stage' = .idle ∨
      ∃ msg, stage' = .nativeCoredump msg ∧ s.coredumpWork = msg :: t.coredumpWork := by
  cases h with
  | stay _ => exact Or.inl hfrom
  | handleCore msg hwork => exact Or.inr ⟨msg, rfl, hwork⟩
  | _ => cases hfrom

theorem CallbackStage.Moves.to_read {k : K} {stage stage' : CallbackStage} {c : Condition}
    (h : Moves s e t k stage stage') (hto : stage' = .read c) :
    stage = .read c ∨ c = s.mCondition := by
  cases h with
  | stay _ => exact Or.inl hto
  | readCompleted => exact Or.inr (CallbackStage.read.inj hto).symm
  | _ => cases hto

theorem CallbackStage.Moves.to_cleared {k : K} {stage stage' : CallbackStage}
    (h : Moves s e t k stage stage') (hto : stage' = .cleared) :
    stage = .cleared ∨ e = .clearCompleted k := by
  cases h with
  | stay _ => exact Or.inl hto
  | clearCompleted _ he => exact Or.inr he
  | _ => cases hto

theorem CallbackStage.Moves.to_waitCompleted {k : K} {stage stage' : CallbackStage}
    (h : Moves s e t k stage stage') (hto : stage' = .waitCompleted) :
    stage = .waitCompleted ∨
      stage = .cleared ∧ t.coredumpPostWork = s.coredumpPostWork ++ [k] := by
  cases h with
  | stay _ => exact Or.inl hto
  | sendCompleted hwork => exact Or.inr ⟨rfl, hwork⟩
  | _ => cases hto

theorem CallbackStage.Moves.to_finished {k : K} {stage stage' : CallbackStage}
    (h : Moves s e t k stage stage') (hto : stage' = .finished true) :
    stage = .finished true ∨ s.mListener = none ∨
      stage = .waitCompleted ∧ s.mCondition.COREDUMP_COMPLETED = true := by
  cases h with
  | stay _ => exact Or.inl hto
  | noListener hnone => exact Or.inr (Or.inl hnone)
  | completedSeen hset => exact Or.inr (Or.inr ⟨rfl, hset⟩)
  | _ => cases hto

theorem PostStage.Moves.to_notifyCompleted {stage stage' : PostStage L K} {k : K} {c : Condition}
    (h : Moves onCompleted s t stage stage') (hto : stage' = .notifyCompleted k c) :
    stage = .notifyCompleted k c ∨ c = s.mCondition := by
  cases h with
  | stay _ => exact Or.inl hto
  | lockCompleted _ => exact Or.inr (PostStage.notifyCompleted.inj hto).2.symm
  | _ => cases hto

/-- A listener goes on with its calls, or has just been called. -/
theorem PostStage.Moves.to_onCompleted {stage stage' : PostStage L K} {k : K}
    {todo : List (Method L)} (h : Moves onCompleted s t stage stage')
    (hto : stage' = .onCompleted k todo) : stage = .onCompleted k todo ∨
      (∃ l, stage = .checked k ∧ todo = onCompleted l k) ∨
      ∃ method, stage = .onCompleted k (method :: todo) := by
  cases h with
  | stay _ => exact Or.inl hto
  | callListener k' l =>
    obtain ⟨rfl, rfl⟩ := PostStage.onCompleted.inj hto
    exact Or.inr (Or.inl ⟨l, rfl, rfl⟩)
  | listenerCalls k' method todo' =>
    obtain ⟨rfl, rfl⟩ := PostStage.onCompleted.inj hto
    exact Or.inr (Or.inr ⟨method, rfl⟩)
  | _ => cases hto

theorem PostStage.Moves.of_idle {stage stage' : PostStage L K}
    (h : Moves onCompleted s t stage stage') (hfrom : stage = .idle) : stage' = .idle ∨
      ∃ k, s.coredumpPostWork = k :: t.coredumpPostWork ∧
        (stage' = .checked k ∨ s.mListener = none ∧ stage' = .returned k) := by
  cases h with
  | stay _ => exact Or.inl hfrom
  | handleCompleted k hwork => exact Or.inr ⟨k, hwork, Or.inl rfl⟩
  | handleNoListener k hnone hwork => exact Or.inr ⟨k, hwork, Or.inr ⟨hnone, rfl⟩⟩
  | _ => cases hfrom

end Inversion

end Opencore.Sdk
