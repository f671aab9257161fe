import Opencore.Sdk.Moves

/-! The two message queues: no request of `doCoredump` and no path of `doCompleted` is lost,
handled twice or overtaken. -/
namespace Opencore.Sdk
open Machine

variable {T L K : Type*}

/-- The message whose dump has not returned yet. -/
def WorkerStage.current : WorkerStage K → Option ℕ
  | nativeCoredump msg | join msg _ => some msg
  | _ => none

/-- The callback whose path the listener has at the moment, or is about to have. -/
def PostStage.current : PostStage L K → Option K
  | checked k | onCompleted k _ => some k
  | _ => none

def Event.sent : Event T L K → Option K
  | sendCompleted k => some k
  | _ => none

def sends (events : List (Event T L K)) : List K := events.filterMap Event.sent

def CallbackStage.HasSent (stage : CallbackStage) : Prop :=
  stage = .waitCompleted ∨ ∃ result, stage = .finished result

/-- Dumped, being dumped or in the queue: all the messages, in their order. -/
def RequestsInOrder (s : State T L K) : Prop :=
  s.nativeReturned.reverse ++ s.worker.current.toList ++ s.coredumpWork = List.range s.next

/-- The paths that listeners have had, or will have, with those that were sent. -/
structure PathsInOrder (sent : List K) (s : State T L K) : Prop where
  order : (s.delivered.reverse ++ s.post.current.toList ++ s.coredumpPostWork).Sublist sent
  nodup : sent.Nodup
  stages : ∀ k ∈ sent, (s.callback k).HasSent

variable [DecidableEq T] [DecidableEq K] {onCompleted : L → K → List (Method L)}
  {s t : State T L K}

theorem requestsInOrder_step {e : Event T L K} (h : RequestsInOrder s)
    (hstep : Step onCompleted s e t) : RequestsInOrder t := by
  unfold RequestsInOrder at h ⊢
  cases hstep with
  | sendCore _ =>
    rw [List.range_succ, ← h]
    exact (List.append_assoc _ _ _).symm
  | @handleCore msg rest hidle hwork =>
    rw [hidle, hwork] at h
    simpa [WorkerStage.current] using h
  | startCallback hworker _ =>
    rw [hworker] at h
    exact h
  | noCallback hworker =>
    rw [hworker] at h
    simpa [WorkerStage.current] using h
  | joined hworker _ =>
    rw [hworker] at h
    simpa [WorkerStage.current] using h
  | lockCore hworker _ =>
    rw [hworker] at h
    exact h
  | notifyCore hworker =>
    rw [hworker] at h
    exact h
  | _ => exact h

omit [DecidableEq T] [DecidableEq K] in
/-- A callback that has sent its path does not send it again. -/
theorem CallbackStage.Moves.hasSent {e : Event T L K} {k : K} {stage stage' : CallbackStage}
    (h : Moves s e t k stage stage') (hsent : stage.HasSent) : stage'.HasSent := by
  cases h with
  | stay _ => exact hsent
  | completedSeen _ => exact Or.inr ⟨true, rfl⟩
  | completedInterrupted => exact Or.inr ⟨false, rfl⟩
  | _ => rcases hsent with hwait | ⟨_, hfinished⟩ <;> contradiction

/-- The handler takes a path, gives it to the listener, or drops it. -/
theorem paths_step {e : Event T L K} (hstep : Step onCompleted s e t) (he : e.sent = none) :
    (t.delivered.reverse ++ t.post.current.toList ++ t.coredumpPostWork).Sublist
      (s.delivered.reverse ++ s.post.current.toList ++ s.coredumpPostWork) := by
  cases hstep with
  | sendCompleted _ => cases he
  | handleCompleted hidle hwork _ =>
    rw [hidle, hwork]
    simp [PostStage.current]
  | handleNoListener hidle hwork _ =>
    rw [hidle, hwork]
    simp [PostStage.current]
  | callListener hpost _ =>
    rw [hpost]
    exact List.Sublist.refl _
  | nullListener hpost _ =>
    rw [hpost]
    simp [PostStage.current]
  | listenerCalls hpost _ _ =>
    rw [hpost]
    exact List.Sublist.refl _
  | listenerEnters hpost _ _ =>
    rw [hpost]
    exact List.Sublist.refl _
  | listenerReturns hpost _ =>
    rw [hpost]
    simp [PostStage.current]
  | lockCompleted hpost _ =>
    rw [hpost]
    exact List.Sublist.refl _
  | notifyCompleted hpost =>
    rw [hpost]
    exact List.Sublist.refl _
  | _ => exact List.Sublist.refl _

theorem pathsInOrder_step {sent : List K} {e : Event T L K} (h : PathsInOrder sent s)
    (hstep : Step onCompleted s e t) : PathsInOrder (sent ++ e.sent.toList) t := by
  have hstages (k : K) (hk : k ∈ sent) : (t.callback k).HasSent :=
    (hstep.callback_moves k).hasSent (h.stages k hk)
  cases hsent : e.sent with
  | none =>
    rw [Option.toList_none, List.append_nil]
    exact ⟨(paths_step hstep hsent).trans h.order, h.nodup, hstages⟩
  | some k =>
    cases hstep with
    | sendCompleted hk =>
      obtain rfl := Option.some.inj hsent
      constructor
      · dsimp only
        rw [← List.append_assoc]
        exact h.order.append (List.Sublist.refl _)
      · refine List.nodup_append.mpr ⟨h.nodup, List.nodup_singleton _, ?_⟩
        rintro x hx y hy rfl
        obtain rfl := List.mem_singleton.mp hy
        have hcleared := h.stages x hx
        rw [hk] at hcleared
        rcases hcleared with hwait | ⟨_, hfinished⟩ <;> contradiction
      · intro x hx
        rcases List.mem_append.mp hx with hx | hx
        · exact hstages x hx
        · obtain rfl := List.mem_singleton.mp hx
          exact Or.inl (Function.update_self ..)
    | _ => cases hsent

theorem inOrder_run {sent : List K} {events : List (Event T L K)}
    (hrun : Run (Step onCompleted) s events t) (hrequests : RequestsInOrder s)
    (hpaths : PathsInOrder sent s) :
    RequestsInOrder t ∧ PathsInOrder (sent ++ sends events) t := by
  induction hrun generalizing sent with
  | nil s =>
    rw [sends, List.filterMap_nil, List.append_nil]
    exact ⟨hrequests, hpaths⟩
  | @cons s t u e events hstep _ ih =>
    have hsends : sent ++ sends (e :: events) = (sent ++ e.sent.toList) ++ sends events := by
      rw [List.append_assoc, sends, sends, List.filterMap_cons]
      cases e.sent <;> rfl
    rw [hsends]
    exact ih (requestsInOrder_step hrequests hstep) (pathsInOrder_step hpaths hstep)

/-- Whatever the threads do, the requests of `doCoredump` are dumped one by one in the order in
which they were sent, each of them once, and the listeners have the paths of `doCompleted` in the
order in which those were sent, none of them twice. -/
theorem requests_in_order {listener : Option L} {events : List (Event T L K)} {s : State T L K}
    (hrun : Run (Step onCompleted) { mListener := listener } events s) :
    s.nativeReturned.reverse ++ s.worker.current.toList ++ s.coredumpWork = List.range s.next ∧
      (s.delivered.reverse ++ s.post.current.toList ++ s.coredumpPostWork).Sublist
        (sends events) ∧ (sends events).Nodup := by
  have hpaths : PathsInOrder [] ({ mListener := listener } : State T L K) :=
    ⟨List.Sublist.refl [], List.nodup_nil, nofun⟩
  obtain ⟨hrequests, hsent⟩ := inOrder_run hrun rfl hpaths
  rw [List.nil_append] at hsent
  exact ⟨hrequests, hsent.order, hsent.nodup⟩

/-- A request whose dump has callback `k`. -/
def dumpedEvents (k : K) : List (Event Unit Unit K) :=
  [.call () .doCoredump, .enter (.app ()), .readCore (.app ()), .clearCore (.app ()),
    .sendCore (.app ()), .handleCore, .startCallback k, .listener k, .readCompleted k,
    .clearCompleted k, .sendCompleted k]

/-- The first call is interrupted, so that the second one sends its request behind it. -/
def twoDumpsEvents : List (Event Unit Unit Bool) :=
  dumpedEvents false ++ [.coreInterrupted (.app ()), .call () .doCoredump, .enter (.app ()),
    .readCore (.app ()), .clearCore (.app ()), .sendCore (.app ()), .handleCompleted,
    .callListener, .listenerReturns, .completedInterrupted false, .joined, .lockCore, .notifyCore,
    .handleCore, .startCallback true, .listener true, .readCompleted true, .clearCompleted true,
    .sendCompleted true]

theorem requests_in_order_two : ∃ s : State Unit Unit Bool,
    Run (Step fun _ _ => []) { mListener := some () } twoDumpsEvents s ∧
    s.nativeReturned = [0] ∧ s.worker = .join 1 true ∧ s.delivered = [false] ∧
    s.coredumpPostWork = [true] ∧
    s.nativeReturned.reverse ++ s.worker.current.toList ++ s.coredumpWork = List.range s.next ∧
    (s.delivered.reverse ++ s.post.current.toList ++ s.coredumpPostWork).Sublist
      (sends twoDumpsEvents) ∧ (sends twoDumpsEvents).Nodup := by
  obtain ⟨s, hrun, hreturned, hworker, hdelivered, hposted⟩ : ∃ s : State Unit Unit Bool,
      Run (Step fun _ _ => []) { mListener := some () } twoDumpsEvents s ∧
      s.nativeReturned = [0] ∧ s.worker = .join 1 true ∧ s.delivered = [false] ∧
      s.coredumpPostWork = [true] :=
    ⟨_, .cons (.call rfl rfl) <| .cons (.enter rfl rfl) <| .cons (.readCore rfl) <|
      .cons (.clearCore rfl) <| .cons (.sendCore rfl) <| .cons (.handleCore rfl rfl) <|
      .cons (.startCallback rfl rfl) <| .cons (.listener rfl rfl) <| .cons (.readCompleted rfl) <|
      .cons (.clearCompleted rfl) <| .cons (.sendCompleted rfl) <|
      .cons (.coreInterrupted rfl ⟨rfl, rfl⟩) <| .cons (.call rfl rfl) <|
      .cons (.enter rfl rfl) <| .cons (.readCore rfl) <| .cons (.clearCore rfl) <|
      .cons (.sendCore rfl) <| .cons (.handleCompleted rfl rfl rfl) <|
      .cons (.callListener rfl rfl) <| .cons (.listenerReturns rfl rfl) <|
      .cons (.completedInterrupted rfl ⟨rfl, rfl⟩) <| .cons (.joined rfl rfl) <|
      .cons (.lockCore rfl ⟨rfl, rfl⟩) <| .cons (.notifyCore rfl) <|
      .cons (.handleCore rfl rfl) <| .cons (.startCallback rfl rfl) <|
      .cons (.listener rfl rfl) <| .cons (.readCompleted rfl) <| .cons (.clearCompleted rfl) <|
      .cons (.sendCompleted rfl) <| .nil _, rfl, rfl, rfl, rfl⟩
  exact ⟨s, hrun, hreturned, hworker, hdelivered, hposted, requests_in_order hrun⟩

end Opencore.Sdk
