import Opencore.Sdk.Moves

/-! Whether the acknowledgement that ends a `doCoredump` is the one of its own message. -/
namespace Opencore.Sdk
open Machine

variable {T L K : Type*}

/-- The calls that have returned true did so after the dump of their message. -/
def Acknowledged (s : State T L K) : Prop :=
  ∀ msg, (msg, true) ∈ s.results → msg ∈ s.nativeReturned

/-- No other thread is about to write back that `COREDUMPED` is set. -/
def NoStaleCore (s : State T L K) : Prop :=
  (∀ k c, s.callback k = .read c → c.COREDUMPED = false) ∧
    ∀ k c, s.post = .notifyCompleted k c → c.COREDUMPED = false

/-- `doCoredump` clears `COREDUMPED` when no earlier message is queued or handled, and no
thread is about to set it again by accident. -/
def ClearsLast (s : State T L K) : Event T L K → Prop
  | .clearCore _ => s.coredumpWork = [] ∧ s.worker = .idle ∧ NoStaleCore s
  | _ => True

/-- `COREDUMPED` is clear, and stays so until `notifyCore`. -/
def CoreClear (s : State T L K) : Prop := s.mCondition.COREDUMPED = false ∧ NoStaleCore s

/-- The worker is on the way to the end of `nativeCoredump`. -/
def WorkerStage.dumps (msg : ℕ) : WorkerStage K → Prop
  | nativeCoredump msg' => msg' = msg
  | join msg' _ => msg' = msg
  | _ => False

/-- This message is the only one that has not been dumped. -/
def OnlyPending (s : State T L K) (msg : ℕ) : Prop :=
  (s.coredumpWork = [msg] ∧ s.worker = .idle) ∨ (s.coredumpWork = [] ∧ s.worker.dumps msg)

structure AcknowledgeInv (s : State T L K) : Prop where
  guards : Guards s.monitor CallStage.holdsMonitor s.stage
  cleared : ∀ a, s.stage a = .cleared → CoreClear s ∧ s.coredumpWork = [] ∧ s.worker = .idle
  waitCore : ∀ a msg, s.stage a = .waitCore msg →
    msg ∈ s.nativeReturned ∨ CoreClear s ∧ OnlyPending s msg
  results : Acknowledged s

theorem Condition.Moves.coreClear {s : State T L K} {e : Event T L K} {c : Condition}
    (hmoves : Condition.Moves s e c) (he : e ≠ .notifyCore) (h : CoreClear s) :
    c.COREDUMPED = false := by
  cases hmoves with
  | stay => exact h.1
  | clearCore _ _ _ => rfl
  | notifyCore _ _ hnotify _ => exact absurd hnotify he
  | clearCompleted k c hk => exact h.2.1 k c hk
  | notifyCompleted k c _ hpost => exact h.2.2 k c hpost

theorem WorkerStage.Moves.of_dumps {s t : State T L K} {stage stage' : WorkerStage K} {msg : ℕ}
    (hmoves : WorkerStage.Moves s t stage stage') (h : stage.dumps msg) :
    stage'.dumps msg ∨ msg ∈ t.nativeReturned := by
  have hmem {msg' : ℕ} (hreturned : t.nativeReturned = msg' :: s.nativeReturned)
      (hmsg : msg' = msg) : msg ∈ t.nativeReturned := by
    rw [hreturned, hmsg]
    exact List.mem_cons_self
  cases hmoves with
  | stay _ => exact Or.inl h
  | startCallback _ _ => exact Or.inl h
  | noCallback msg' hreturned => exact Or.inr (hmem hreturned h)
  | joined msg' k hreturned => exact Or.inr (hmem hreturned h)
  | _ => exact h.elim

variable [DecidableEq T] [DecidableEq K] {onCompleted : L → K → List (Method L)}
  {s t : State T L K} {e : Event T L K}

/-- Only `notifyCore` sets `COREDUMPED` once it is clear. -/
theorem coreClear_step (hstep : Step onCompleted s e t) (he : e ≠ .notifyCore)
    (h : CoreClear s) : CoreClear t := by
  refine ⟨hstep.mCondition_moves.coreClear he h, fun k c hk => ?_, fun k c hpost => ?_⟩
  · rcases (hstep.callback_moves k).to_read hk with hold | rfl
    · exact h.2.1 k c hold
    · exact h.1
  · rcases hstep.post_moves.to_notifyCompleted hpost with hold | rfl
    · exact h.2.2 k c hold
    · exact h.1

/-- While another call is in the monitor, the queue gets no new message. -/
theorem coredumpWork_step (hguards : Guards s.monitor CallStage.holdsMonitor s.stage)
    (hstep : Step onCompleted s e t) {a : Caller T} (ha : (s.stage a).holdsMonitor = true)
    (hsame : s.stage a = t.stage a) : t.coredumpWork = s.coredumpWork ∨
      ∃ msg, s.worker = .idle ∧ t.worker = .nativeCoredump msg ∧
        s.coredumpWork = msg :: t.coredumpWork := by
  cases hstep.coredumpWork_moves with
  | stay hwork => exact Or.inl hwork
  | sendCore b hb hsent _ =>
    obtain rfl : b = a := hguards.exclusive (by rw [hb]; rfl) ha
    cases hb.symm.trans (hsame.trans hsent)
  | handleCore msg hidle hworker hwork => exact Or.inr ⟨msg, hidle, hworker, hwork⟩

/-- The only message that is under way stays so until its dump returns. -/
theorem OnlyPending.step {msg : ℕ} (h : OnlyPending s msg) (hstep : Step onCompleted s e t)
    (hwork : t.coredumpWork = s.coredumpWork ∨ ∃ msg, s.worker = .idle ∧
      t.worker = .nativeCoredump msg ∧ s.coredumpWork = msg :: t.coredumpWork) :
    OnlyPending t msg ∨ msg ∈ t.nativeReturned := by
  rcases h with ⟨hone, hidle⟩ | ⟨hempty, hdumps⟩
  · rcases hwork with hsame | ⟨msg', -, hworker, htaken⟩
    · rcases hstep.worker_moves.of_idle hidle with hidle' | ⟨msg', -, htaken⟩
      · exact Or.inl (Or.inl ⟨hsame.trans hone, hidle'⟩)
      · rw [hsame] at htaken
        exact absurd htaken.symm (List.cons_ne_self _ _)
    · obtain ⟨rfl, hnil⟩ := List.cons.inj (hone.symm.trans htaken)
      exact Or.inl (Or.inr ⟨hnil.symm, hworker ▸ rfl⟩)
  · rcases hwork with hsame | ⟨msg', -, -, htaken⟩
    · exact (hstep.worker_moves.of_dumps hdumps).imp_left
        fun hdumps' => Or.inr ⟨hsame.trans hempty, hdumps'⟩
    · cases hempty.symm.trans htaken

theorem OnlyPending.ne_notifyCore {msg : ℕ} (h : OnlyPending s msg)
    (hstep : Step onCompleted s e t) : e ≠ .notifyCore := by
  refine hstep.ne_notifyCore fun msg' c hworker => ?_
  rcases h with ⟨-, hidle⟩ | ⟨-, hdumps⟩
  · cases hidle.symm.trans hworker
  · rw [hworker] at hdumps
    exact hdumps

section Step

variable (h : AcknowledgeInv s) (hstep : Step onCompleted s e t)
include h hstep

theorem AcknowledgeInv.cleared_step (hlast : ClearsLast s e) {a : Caller T}
    (ha : t.stage a = .cleared) : CoreClear t ∧ t.coredumpWork = [] ∧ t.worker = .idle := by
  rcases (hstep.stage_moves a).to_cleared ha with hstay | rfl
  · obtain ⟨hcore, hempty, hidle⟩ := h.cleared a hstay
    have hwork := coredumpWork_step h.guards hstep (by rw [hstay]; rfl) (hstay.trans ha.symm)
    rw [hempty] at hwork
    have hempty' : t.coredumpWork = [] := by
      rcases hwork with hsame | ⟨msg, -, -, htaken⟩
      · exact hsame
      · cases htaken
    rcases hstep.worker_moves.of_idle hidle with hidle' | ⟨msg, -, htaken⟩
    · have he : e ≠ .notifyCore :=
        hstep.ne_notifyCore fun _ _ hworker => nomatch hidle.symm.trans hworker
      exact ⟨coreClear_step hstep he hcore, hempty', hidle'⟩
    · cases hempty.symm.trans htaken
  · obtain ⟨hempty, hidle, hstale⟩ := hlast
    cases hstep with
    | clearCore _ => exact ⟨⟨rfl, hstale⟩, hempty, hidle⟩

theorem AcknowledgeInv.waitCore_step {a : Caller T} {msg : ℕ} (ha : t.stage a = .waitCore msg) :
    msg ∈ t.nativeReturned ∨ CoreClear t ∧ OnlyPending t msg := by
  rcases (hstep.stage_moves a).to_waitCore ha with hstay | ⟨hcleared, rfl, -, hsent⟩
  · rcases h.waitCore a msg hstay with hreturned | ⟨hcore, hpending⟩
    · exact Or.inl (hstep.nativeReturned_subset hreturned)
    · have hwork := coredumpWork_step h.guards hstep (by rw [hstay]; rfl) (hstay.trans ha.symm)
      have hcore' := coreClear_step hstep (hpending.ne_notifyCore hstep) hcore
      exact (hpending.step hstep hwork).symm.imp_right fun hpending' => ⟨hcore', hpending'⟩
  · obtain ⟨hcore, hempty, hidle⟩ := h.cleared a hcleared
    have he : e ≠ .notifyCore :=
      hstep.ne_notifyCore fun _ _ hworker => nomatch hidle.symm.trans hworker
    rw [hempty, List.nil_append] at hsent
    rcases hstep.worker_moves.of_idle hidle with hidle' | ⟨msg', -, htaken⟩
    · exact Or.inr ⟨coreClear_step hstep he hcore, Or.inl ⟨hsent, hidle'⟩⟩
    · cases hempty.symm.trans htaken

theorem AcknowledgeInv.results_step : Acknowledged t := by
  have hkeep (msg : ℕ) (hmem : (msg, true) ∈ s.results) : msg ∈ t.nativeReturned :=
    hstep.nativeReturned_subset (h.results msg hmem)
  intro msg hmem
  cases hstep.results_moves with
  | stay hsame => exact hkeep msg (hsame ▸ hmem)
  | coreSeen a msg' ha hset hresults =>
    rcases List.mem_cons.mp (hresults ▸ hmem) with heq | hmem
    · obtain rfl : msg = msg' := (Prod.mk.inj heq).1
      rcases h.waitCore a msg ha with hreturned | ⟨hcore, -⟩
      · exact hstep.nativeReturned_subset hreturned
      · exact absurd (hcore.1.symm.trans hset) Bool.false_ne_true
    · exact hkeep msg hmem
  | coreInterrupted a msg' _ hresults =>
    rcases List.mem_cons.mp (hresults ▸ hmem) with heq | hmem
    · cases heq
    · exact hkeep msg hmem

theorem acknowledgeInv_step (hlast : ClearsLast s e) : AcknowledgeInv t where
  guards := hstep.guards h.guards
  cleared _ := h.cleared_step hstep hlast
  waitCore _ _ := h.waitCore_step hstep
  results := h.results_step hstep

end Step

omit [DecidableEq T] [DecidableEq K] in
theorem acknowledgeInv_initial (listener : Option L) :
    AcknowledgeInv ({ mListener := listener } : State T L K) where
  guards := guards_initial listener
  cleared _ h := nomatch h
  waitCore _ _ h := nomatch h
  results _ h := absurd h List.not_mem_nil

/-- In a run where `doCoredump` clears `COREDUMPED` only while no earlier message is under way,
a call returns true only after the dump of its own message. -/
theorem doCoredump_acknowledged {listener : Option L} {events : List (Event T L K)}
    {s : State T L K}
    (hrun : Run (fun s e t => Step onCompleted s e t ∧ ClearsLast s e)
      { mListener := listener } events s) : Acknowledged s := by
  have hstep (s : State T L K) (e : Event T L K) (t : State T L K) (h : AcknowledgeInv s)
      (hstep : Step onCompleted s e t ∧ ClearsLast s e) : AcknowledgeInv t :=
    acknowledgeInv_step h hstep.1 hstep.2
  exact (hrun.invariant hstep (acknowledgeInv_initial listener)).results

def requestEvents (t : T) : List (Event T Unit K) :=
  [.call t .doCoredump, .enter (.app t), .readCore (.app t), .clearCore (.app t),
    .sendCore (.app t)]

def workerEvents : List (Event T Unit K) :=
  [.handleCore, .noCallback, .lockCore, .notifyCore]

/-- Two threads, the second of which comes to the monitor during the first one's dump. -/
theorem doCoredump_acknowledged_both :
    ∃ s : State Bool Unit ℕ, Run (Step fun _ _ => []) {}
      (requestEvents false ++ [.call true .doCoredump] ++ workerEvents ++
        [.coreSeen (.app false)] ++ (requestEvents true).tail ++ workerEvents ++
        [.coreSeen (.app true)]) s ∧
      s.results = [(1, true), (0, true)] ∧ Acknowledged s := by
  have hrun : Run (fun s e t => Step (fun _ _ => []) s e t ∧ ClearsLast s e)
      ({} : State Bool Unit ℕ)
      (requestEvents false ++ [.call true .doCoredump] ++ workerEvents ++
        [.coreSeen (.app false)] ++ (requestEvents true).tail ++ workerEvents ++
        [.coreSeen (.app true)]) _ :=
    .cons ⟨.call rfl rfl, trivial⟩ <| .cons ⟨.enter rfl rfl, trivial⟩ <|
    .cons ⟨.readCore rfl, trivial⟩ <| .cons ⟨.clearCore rfl, rfl, rfl, nofun, nofun⟩ <|
    .cons ⟨.sendCore rfl, trivial⟩ <| .cons ⟨.call rfl rfl, trivial⟩ <|
    .cons ⟨.handleCore rfl rfl, trivial⟩ <| .cons ⟨.noCallback rfl, trivial⟩ <|
    .cons ⟨.lockCore rfl ⟨rfl, rfl⟩, trivial⟩ <| .cons ⟨.notifyCore rfl, trivial⟩ <|
    .cons ⟨.coreSeen rfl ⟨rfl, rfl⟩ rfl, trivial⟩ <| .cons ⟨.enter rfl rfl, trivial⟩ <|
    .cons ⟨.readCore rfl, trivial⟩ <| .cons ⟨.clearCore rfl, rfl, rfl, nofun, nofun⟩ <|
    .cons ⟨.sendCore rfl, trivial⟩ <| .cons ⟨.handleCore rfl rfl, trivial⟩ <|
    .cons ⟨.noCallback rfl, trivial⟩ <| .cons ⟨.lockCore rfl ⟨rfl, rfl⟩, trivial⟩ <|
    .cons ⟨.notifyCore rfl, trivial⟩ <| .cons ⟨.coreSeen rfl ⟨rfl, rfl⟩ rfl, trivial⟩ <| .nil _
  exact ⟨_, hrun.mono fun _ _ _ hstep => hstep.1, rfl, doCoredump_acknowledged hrun⟩

/-- A first call is interrupted. The dump of its message then ends the second call, whose own
message still is in the queue. -/
theorem doCoredump_not_acknowledged :
    ∃ s : State Unit Unit ℕ, Run (Step fun _ _ => []) {}
      (requestEvents () ++ [.coreInterrupted (.app ())] ++ requestEvents () ++ workerEvents ++
        [.coreSeen (.app ())]) s ∧
      s.results = [(1, true), (0, false)] ∧ s.coredumpWork = [1] ∧ s.nativeReturned = [0] ∧
      ¬ Acknowledged s := by
  refine ⟨_, .cons (.call rfl rfl) (.cons (.enter rfl rfl) (.cons (.readCore rfl)
    (.cons (.clearCore rfl) (.cons (.sendCore rfl) (.cons (.coreInterrupted rfl ⟨rfl, rfl⟩)
    (.cons (.call rfl rfl) (.cons (.enter rfl rfl) (.cons (.readCore rfl) (.cons (.clearCore rfl)
    (.cons (.sendCore rfl) (.cons (.handleCore rfl rfl) (.cons (.noCallback rfl)
    (.cons (.lockCore rfl ⟨rfl, rfl⟩) (.cons (.notifyCore rfl)
    (.cons (.coreSeen rfl ⟨rfl, rfl⟩ rfl) (.nil _)))))))))))))))), rfl, rfl, rfl, fun h => ?_⟩
  have hmem : 1 ∈ [0] := h 1 List.mem_cons_self
  exact absurd hmem (by decide)

section Lost

/-- A call waits, but its dump is over and `COREDUMPED` will not be set again. -/
structure Forgotten (a : Caller T) (msg : ℕ) (s : State T L K) : Prop where
  guards : Guards s.monitor CallStage.holdsMonitor s.stage
  waitCore : s.stage a = .waitCore msg
  clear : CoreClear s
  empty : s.coredumpWork = []
  idle : s.worker = .idle

theorem forgotten_step {a : Caller T} {msg : ℕ} (h : Forgotten a msg s)
    (hstep : Step onCompleted s e t) (he : e ≠ .coreInterrupted a) : Forgotten a msg t := by
  have hnotify : e ≠ .notifyCore :=
    hstep.ne_notifyCore fun _ _ hworker => nomatch h.idle.symm.trans hworker
  have hwait : t.stage a = .waitCore msg := by
    rcases (hstep.stage_moves a).of_waitCore h.waitCore with hstay | hset | hinterrupted
    · exact hstay
    · exact absurd (h.clear.1.symm.trans hset) Bool.false_ne_true
    · exact absurd hinterrupted he
  have hempty : t.coredumpWork = [] := by
    rcases coredumpWork_step h.guards hstep (by rw [h.waitCore]; rfl)
      (h.waitCore.trans hwait.symm) with hsame | ⟨msg', -, -, htaken⟩
    · exact hsame.trans h.empty
    · cases h.empty.symm.trans htaken
  refine ⟨hstep.guards h.guards, hwait, coreClear_step hstep hnotify h.clear, hempty, ?_⟩
  rcases hstep.worker_moves.of_idle h.idle with hidle | ⟨msg', -, htaken⟩
  · exact hidle
  · cases h.empty.symm.trans htaken

/-- Where a call waits while `opencore-bg` has nothing to do, and `COREDUMPED` is clear, it keeps
the monitor for ever unless it is interrupted: nobody is left to wake it. -/
theorem wakeup_lost {listener : Option L} {before : List (Event T L K)}
    (hbefore : Run (Step onCompleted) { mListener := listener } before s) {a : Caller T} {msg : ℕ}
    (hwait : s.stage a = .waitCore msg) (hclear : CoreClear s) (hempty : s.coredumpWork = [])
    (hidle : s.worker = .idle) {events : List (Event T L K)} {u : State T L K}
    (hrun : Run (fun s e t => Step onCompleted s e t ∧ e ≠ .coreInterrupted a) s events u) :
    u.stage a = .waitCore msg ∧ u.monitor = some a := by
  have hguards : Guards s.monitor CallStage.holdsMonitor s.stage :=
    hbefore.invariant (I := fun s => Guards s.monitor CallStage.holdsMonitor s.stage)
      (fun _ _ _ h hstep => hstep.guards h) (guards_initial listener)
  have hlost : Forgotten a msg u := hrun.invariant (I := Forgotten a msg)
    (fun _ _ _ h hstep => forgotten_step h hstep.1 hstep.2) ⟨hguards, hwait, hclear, hempty, hidle⟩
  exact ⟨hlost.waitCore, hlost.guards.owner (by rw [hlost.waitCore]; rfl)⟩

/-- The callback of a crash reads `mCondition` before `notifyCore` and writes it back behind. -/
theorem wakeup_lost_crash : ∃ s u : State Unit Unit Unit,
    Run (Step fun _ _ => []) { mListener := some () }
      (requestEvents () ++ [.crash (), .listener (), .readCompleted ()] ++ workerEvents ++
        [.clearCompleted ()]) s ∧
    s.nativeReturned = [0] ∧ s.results = [] ∧
    Run (fun s e t => Step (fun _ _ => []) s e t ∧ e ≠ .coreInterrupted (.app ())) s
      [.sendCompleted (), .handleCompleted, .callListener, .listenerReturns, .lockCompleted,
        .notifyCompleted, .completedSeen ()] u ∧
    u.stage (.app ()) = .waitCore 0 ∧ u.monitor = some (.app ()) := by
  obtain ⟨s, u, hbefore, hreturned, hresults, hwait, hclear, hempty, hidle, hrun⟩ :
      ∃ s u : State Unit Unit Unit, Run (Step fun _ _ => []) { mListener := some () }
        (requestEvents () ++ [.crash (), .listener (), .readCompleted ()] ++ workerEvents ++
          [.clearCompleted ()]) s ∧ s.nativeReturned = [0] ∧ s.results = [] ∧
      s.stage (.app ()) = .waitCore 0 ∧ CoreClear s ∧ s.coredumpWork = [] ∧ s.worker = .idle ∧
      Run (fun s e t => Step (fun _ _ => []) s e t ∧ e ≠ .coreInterrupted (.app ())) s
        [.sendCompleted (), .handleCompleted, .callListener, .listenerReturns, .lockCompleted,
          .notifyCompleted, .completedSeen ()] u := by
    exact ⟨_, _, .cons (.call rfl rfl) <| .cons (.enter rfl rfl) <| .cons (.readCore rfl) <|
      .cons (.clearCore rfl) <| .cons (.sendCore rfl) <| .cons (.crash rfl) <|
      .cons (.listener rfl rfl) <| .cons (.readCompleted rfl) <| .cons (.handleCore rfl rfl) <|
      .cons (.noCallback rfl) <| .cons (.lockCore rfl ⟨rfl, rfl⟩) <| .cons (.notifyCore rfl) <|
      .cons (.clearCompleted rfl) <| .nil _, rfl, rfl, rfl, ⟨rfl, nofun, nofun⟩, rfl, rfl,
      .cons ⟨.sendCompleted rfl, nofun⟩ <| .cons ⟨.handleCompleted rfl rfl rfl, nofun⟩ <|
      .cons ⟨.callListener rfl rfl, nofun⟩ <| .cons ⟨.listenerReturns rfl rfl, nofun⟩ <|
      .cons ⟨.lockCompleted rfl ⟨rfl, rfl⟩, nofun⟩ <| .cons ⟨.notifyCompleted rfl, nofun⟩ <|
      .cons ⟨.completedSeen rfl ⟨rfl, rfl⟩ rfl, nofun⟩ <| .nil _⟩
  exact ⟨s, u, hbefore, hreturned, hresults, hrun,
    wakeup_lost hbefore hwait hclear hempty hidle hrun⟩

end Lost

end Opencore.Sdk
