import Opencore.Sdk.Moves

/-! Whether the wakeup that ends a `doCompleted` comes after the listener has had its own path. -/
namespace Opencore.Sdk
open Machine

variable {T L K : Type*}

/-- The callbacks that have returned true did so after the listener had their path. -/
def Delivered (s : State T L K) : Prop :=
  ∀ k, s.callback k = .finished true → k ∈ s.delivered

/-- No other thread is about to write back that `COREDUMP_COMPLETED` is set. -/
def NoStaleCompleted (s : State T L K) : Prop :=
  (∀ a c, s.stage a = .read c → c.COREDUMP_COMPLETED = false) ∧
    ∀ msg c, s.worker = .notifyCore msg c → c.COREDUMP_COMPLETED = false

/-- No callback has cleared `COREDUMP_COMPLETED` whose message has not been handled to its end,
and no thread is about to set it again by accident. -/
def NoneUnderWay (s : State T L K) : Prop :=
  (∀ k, s.callback k ≠ .cleared) ∧ s.coredumpPostWork = [] ∧ s.post = .idle ∧ NoStaleCompleted s

/-- A listener is set, and callbacks clear `COREDUMP_COMPLETED` one after the other. -/
def ClearsAlone (s : State T L K) : Event T L K → Prop
  | .clearCompleted _ => s.mListener ≠ none ∧ NoneUnderWay s
  | _ => s.mListener ≠ none

theorem ClearsAlone.hasListener {s : State T L K} {e : Event T L K} (h : ClearsAlone s e) :
    s.mListener ≠ none := by
  cases e with
  | clearCompleted k => exact h.1
  | _ => exact h

/-- `COREDUMP_COMPLETED` is clear, and stays so until `notifyCompleted`. -/
def CompletedClear (s : State T L K) : Prop :=
  s.mCondition.COREDUMP_COMPLETED = false ∧ NoStaleCompleted s

/-- The path of this callback is on its way to the listener. -/
def PostStage.delivers (k : K) : PostStage L K → Prop
  | checked k' => k' = k
  | onCompleted k' _ => k' = k
  | _ => False

/-- The path of this callback is the only one that has not been delivered. -/
def OnlyPosted (s : State T L K) (k : K) : Prop :=
  (s.coredumpPostWork = [k] ∧ s.post = .idle) ∨ (s.coredumpPostWork = [] ∧ s.post.delivers k)

structure DeliveryInv (s : State T L K) : Prop where
  cleared : ∀ k, s.callback k = .cleared →
    CompletedClear s ∧ s.coredumpPostWork = [] ∧ s.post = .idle ∧
      ∀ k', s.callback k' = .cleared → k' = k
  waitCompleted : ∀ k, s.callback k = .waitCompleted →
    k ∈ s.delivered ∨ CompletedClear s ∧ OnlyPosted s k
  finished : Delivered s

theorem PostStage.Moves.of_delivers {onCompleted : L → K → List (Method L)} {s t : State T L K}
    {stage stage' : PostStage L K} {k : K} (hmoves : PostStage.Moves onCompleted s t stage stage')
    (hlistener : s.mListener ≠ none) (h : stage.delivers k) :
    stage'.delivers k ∨ k ∈ t.delivered := by
  cases hmoves with
  | stay _ => exact Or.inl h
  | callListener _ _ => exact Or.inl h
  | nullListener _ hnone => exact absurd hnone hlistener
  | listenerCalls _ _ _ => exact Or.inl h
  | listenerReturns k' hdelivered =>
    obtain rfl : k' = k := h
    exact Or.inr (hdelivered ▸ List.mem_cons_self)
  | _ => exact h.elim

theorem Condition.Moves.completedClear {s : State T L K} {e : Event T L K} {c : Condition}
    (hmoves : Condition.Moves s e c) (he : e ≠ .notifyCompleted) (h : CompletedClear s) :
    c.COREDUMP_COMPLETED = false := by
  cases hmoves with
  | stay => exact h.1
  | clearCore a c ha => exact h.2.1 a c ha
  | notifyCore msg c _ hworker => exact h.2.2 msg c hworker
  | clearCompleted _ _ _ => rfl
  | notifyCompleted _ _ hnotify _ => exact absurd hnotify he

variable [DecidableEq T] [DecidableEq K] {onCompleted : L → K → List (Method L)}
  {s t : State T L K} {e : Event T L K}

/-- Only `notifyCompleted` sets `COREDUMP_COMPLETED` once it is clear. -/
theorem completedClear_step (hstep : Step onCompleted s e t) (he : e ≠ .notifyCompleted)
    (h : CompletedClear s) : CompletedClear t := by
  refine ⟨hstep.mCondition_moves.completedClear he h, fun a c ha => ?_, fun msg c hworker => ?_⟩
  · rcases (hstep.stage_moves a).to_read ha with hold | rfl
    · exact h.2.1 a c hold
    · exact h.1
  · rcases hstep.worker_moves.to_notifyCore hworker with hold | rfl
    · exact h.2.2 msg c hold
    · exact h.1

theorem OnlyPosted.ne_notifyCompleted {k : K} (h : OnlyPosted s k)
    (hstep : Step onCompleted s e t) : e ≠ .notifyCompleted := by
  refine hstep.ne_notifyCompleted fun k' c hpost => ?_
  rcases h with ⟨-, hidle⟩ | ⟨-, hdelivers⟩
  · cases hidle.symm.trans hpost
  · rw [hpost] at hdelivers
    exact hdelivers

/-- The only path that is on its way stays so until the listener has had it. -/
theorem OnlyPosted.step {k : K} (h : OnlyPosted s k) (hstep : Step onCompleted s e t)
    (hlistener : s.mListener ≠ none) (hnone : ∀ k', s.callback k' ≠ .cleared) :
    OnlyPosted t k ∨ k ∈ t.delivered := by
  rcases h with ⟨hone, hidle⟩ | ⟨hempty, hdelivers⟩
  · rcases hstep.post_moves.of_idle hidle with hidle' | ⟨k', htaken, hnext⟩
    · cases hstep.coredumpPostWork_moves with
      | stay hsame => exact Or.inl (Or.inl ⟨hsame.trans hone, hidle'⟩)
      | sendCompleted k' hk' _ _ => exact absurd hk' (hnone k')
      | handleCompleted k' _ hbusy _ => exact absurd hidle' hbusy
    · obtain ⟨rfl, hnil⟩ := List.cons.inj (hone.symm.trans htaken)
      rcases hnext with hchecked | ⟨hnull, -⟩
      · exact Or.inl (Or.inr ⟨hnil.symm, hchecked ▸ rfl⟩)
      · exact absurd hnull hlistener
  · have hempty' : t.coredumpPostWork = [] := by
      cases hstep.coredumpPostWork_moves with
      | stay hsame => exact hsame.trans hempty
      | sendCompleted k' hk' _ _ => exact absurd hk' (hnone k')
      | handleCompleted k' _ _ htaken => cases hempty.symm.trans htaken
    exact (hstep.post_moves.of_delivers hlistener hdelivers).imp_left
      fun hdelivers' => Or.inr ⟨hempty', hdelivers'⟩

section Step

variable (h : DeliveryInv s)
include h

omit [DecidableEq T] [DecidableEq K] in
theorem DeliveryInv.not_cleared {k : K} (hposted : OnlyPosted s k) (k' : K) :
    s.callback k' ≠ .cleared := by
  intro hk'
  obtain ⟨-, hempty, hidle, -⟩ := h.cleared k' hk'
  rcases hposted with ⟨hone, -⟩ | ⟨-, hdelivers⟩
  · cases hempty.symm.trans hone
  · rw [hidle] at hdelivers
    exact hdelivers

variable (hstep : Step onCompleted s e t) (halone : ClearsAlone s e)
include hstep halone

theorem DeliveryInv.cleared_step {k : K} (hk : t.callback k = .cleared) :
    CompletedClear t ∧ t.coredumpPostWork = [] ∧ t.post = .idle ∧
      ∀ k', t.callback k' = .cleared → k' = k := by
  rcases (hstep.callback_moves k).to_cleared hk with hstay | rfl
  · obtain ⟨hcompleted, hempty, hidle, hsole⟩ := h.cleared k hstay
    have he : e ≠ .notifyCompleted :=
      hstep.ne_notifyCompleted fun _ _ hpost => nomatch hidle.symm.trans hpost
    have hempty' : t.coredumpPostWork = [] := by
      cases hstep.coredumpPostWork_moves with
      | stay hsame => exact hsame.trans hempty
      | sendCompleted k' hk' hsent _ =>
        obtain rfl := hsole k' hk'
        cases hk.symm.trans hsent
      | handleCompleted k' _ _ htaken => cases hempty.symm.trans htaken
    refine ⟨completedClear_step hstep he hcompleted, hempty', ?_, fun k' hk' => ?_⟩
    · rcases hstep.post_moves.of_idle hidle with hidle' | ⟨k', htaken, -⟩
      · exact hidle'
      · cases hempty.symm.trans htaken
    · rcases (hstep.callback_moves k').to_cleared hk' with hstay' | rfl
      · exact hsole k' hstay'
      · exact absurd hstay (halone.2.1 k)
  · obtain ⟨-, hnone, hempty, hidle, hstale⟩ := halone
    cases hstep with
    | clearCompleted _ =>
      refine ⟨⟨rfl, hstale⟩, hempty, hidle, fun k' hk' => ?_⟩
      rcases update_eq_cases hk' with ⟨heq, -⟩ | ⟨-, hother⟩
      · exact heq
      · exact absurd hother (hnone k')

theorem DeliveryInv.waitCompleted_step {k : K} (hk : t.callback k = .waitCompleted) :
    k ∈ t.delivered ∨ CompletedClear t ∧ OnlyPosted t k := by
  rcases (hstep.callback_moves k).to_waitCompleted hk with hstay | ⟨hcleared, hsent⟩
  · rcases h.waitCompleted k hstay with hdelivered | ⟨hcompleted, hposted⟩
    · exact Or.inl (hstep.delivered_subset hdelivered)
    · have hcompleted' := completedClear_step hstep (hposted.ne_notifyCompleted hstep) hcompleted
      exact (hposted.step hstep halone.hasListener (h.not_cleared hposted)).symm.imp_right
        fun hposted' => ⟨hcompleted', hposted'⟩
  · obtain ⟨hcompleted, hempty, hidle, -⟩ := h.cleared k hcleared
    have he : e ≠ .notifyCompleted :=
      hstep.ne_notifyCompleted fun _ _ hpost => nomatch hidle.symm.trans hpost
    rw [hempty, List.nil_append] at hsent
    rcases hstep.post_moves.of_idle hidle with hidle' | ⟨k', htaken, -⟩
    · exact Or.inr ⟨completedClear_step hstep he hcompleted, Or.inl ⟨hsent, hidle'⟩⟩
    · cases hempty.symm.trans htaken

theorem DeliveryInv.finished_step : Delivered t := by
  intro k hk
  rcases (hstep.callback_moves k).to_finished hk with hstay | hnone | ⟨hwait, hset⟩
  · exact hstep.delivered_subset (h.finished k hstay)
  · exact absurd hnone halone.hasListener
  · rcases h.waitCompleted k hwait with hdelivered | ⟨hcompleted, -⟩
    · exact hstep.delivered_subset hdelivered
    · exact absurd (hcompleted.1.symm.trans hset) Bool.false_ne_true

theorem deliveryInv_step : DeliveryInv t where
  cleared _ := h.cleared_step hstep halone
  waitCompleted _ := h.waitCompleted_step hstep halone
  finished := h.finished_step hstep halone

end Step

omit [DecidableEq T] [DecidableEq K] in
theorem deliveryInv_initial (listener : Option L) :
    DeliveryInv ({ mListener := listener } : State T L K) where
  cleared _ h := nomatch h
  waitCompleted _ h := nomatch h
  finished _ h := nomatch h

/-- In a run with a listener where a callback clears `COREDUMP_COMPLETED` only while no other is
under way, a callback returns true only after the listener has had its path. -/
theorem doCompleted_delivered {listener : Option L} {events : List (Event T L K)}
    {s : State T L K}
    (hrun : Run (fun s e t => Step onCompleted s e t ∧ ClearsAlone s e)
      { mListener := listener } events s) : Delivered s := by
  have hstep (s : State T L K) (e : Event T L K) (t : State T L K) (h : DeliveryInv s)
      (hstep : Step onCompleted s e t ∧ ClearsAlone s e) : DeliveryInv t :=
    deliveryInv_step h hstep.1 hstep.2
  exact (hrun.invariant hstep (deliveryInv_initial listener)).finished

def postEvents (k : K) : List (Event Unit Unit K) :=
  [.crash k, .listener k, .readCompleted k, .clearCompleted k, .sendCompleted k]

def handlerEvents : List (Event Unit Unit K) :=
  [.handleCompleted, .callListener, .listenerReturns, .lockCompleted, .notifyCompleted]

/-- The second callback clears when the first one's message has been handled. -/
theorem doCompleted_delivered_both :
    ∃ s : State Unit Unit Bool, Run (Step fun _ _ => []) { mListener := some () }
      (postEvents false ++ [.crash true, .listener true] ++ handlerEvents ++
        [.readCompleted true, .completedSeen false, .clearCompleted true, .sendCompleted true] ++
        handlerEvents ++ [.completedSeen true]) s ∧
      s.callback false = .finished true ∧ s.callback true = .finished true ∧ Delivered s := by
  have hsome : some () ≠ none := nofun
  have hrun : Run (fun s e t => Step (fun _ _ => []) s e t ∧ ClearsAlone s e)
      ({ mListener := some () } : State Unit Unit Bool)
      (postEvents false ++ [.crash true, .listener true] ++ handlerEvents ++
        [.readCompleted true, .completedSeen false, .clearCompleted true, .sendCompleted true] ++
        handlerEvents ++ [.completedSeen true]) _ :=
    .cons ⟨.crash rfl, hsome⟩ <| .cons ⟨.listener rfl rfl, hsome⟩ <|
    .cons ⟨.readCompleted rfl, hsome⟩ <|
    .cons ⟨.clearCompleted rfl, hsome, by rintro (_ | _) <;> nofun, rfl, rfl, nofun, nofun⟩ <|
    .cons ⟨.sendCompleted rfl, hsome⟩ <| .cons ⟨.crash rfl, hsome⟩ <|
    .cons ⟨.listener rfl rfl, hsome⟩ <| .cons ⟨.handleCompleted rfl rfl rfl, hsome⟩ <|
    .cons ⟨.callListener rfl rfl, hsome⟩ <| .cons ⟨.listenerReturns rfl rfl, hsome⟩ <|
    .cons ⟨.lockCompleted rfl ⟨rfl, rfl⟩, hsome⟩ <| .cons ⟨.notifyCompleted rfl, hsome⟩ <|
    .cons ⟨.readCompleted rfl, hsome⟩ <| .cons ⟨.completedSeen rfl ⟨rfl, rfl⟩ rfl, hsome⟩ <|
    .cons ⟨.clearCompleted rfl, hsome, by rintro (_ | _) <;> nofun, rfl, rfl, nofun, nofun⟩ <|
    .cons ⟨.sendCompleted rfl, hsome⟩ <| .cons ⟨.handleCompleted rfl rfl rfl, hsome⟩ <|
    .cons ⟨.callListener rfl rfl, hsome⟩ <| .cons ⟨.listenerReturns rfl rfl, hsome⟩ <|
    .cons ⟨.lockCompleted rfl ⟨rfl, rfl⟩, hsome⟩ <| .cons ⟨.notifyCompleted rfl, hsome⟩ <|
    .cons ⟨.completedSeen rfl ⟨rfl, rfl⟩ rfl, hsome⟩ <| .nil _
  exact ⟨_, hrun.mono fun _ _ _ hstep => hstep.1, rfl, rfl, doCompleted_delivered hrun⟩

/-- Two callbacks clear, then post. The end of the first message wakes both, and the second one
returns while its own path still is in the queue. -/
theorem doCompleted_not_delivered :
    ∃ s : State Unit Unit ℕ, Run (Step fun _ _ => []) { mListener := some () }
      (postEvents 0 ++ postEvents 1 ++ handlerEvents ++ [.completedSeen 1]) s ∧
      s.callback 1 = .finished true ∧ s.coredumpPostWork = [1] ∧ s.delivered = [0] ∧
      ¬ Delivered s := by
  refine ⟨_, .cons (.crash rfl) (.cons (.listener rfl rfl) (.cons (.readCompleted rfl)
    (.cons (.clearCompleted rfl) (.cons (.sendCompleted rfl)
    (.cons (.crash rfl) (.cons (.listener rfl rfl) (.cons (.readCompleted rfl)
    (.cons (.clearCompleted rfl) (.cons (.sendCompleted rfl)
    (.cons (.handleCompleted rfl rfl rfl) (.cons (.callListener rfl rfl)
    (.cons (.listenerReturns rfl rfl) (.cons (.lockCompleted rfl ⟨rfl, rfl⟩)
    (.cons (.notifyCompleted rfl) (.cons (.completedSeen rfl ⟨rfl, rfl⟩ rfl)
    (.nil _)))))))))))))))),
    rfl, rfl, rfl, fun h => ?_⟩
  have hmem : 1 ∈ [0] := h 1 rfl
  exact absurd hmem (by decide)

end Opencore.Sdk
