import Opencore.Sdk.Moves

/-! A listener that calls `Coredump` back while a dump waits for it. -/
namespace Opencore.Sdk
open Machine

variable {T L K : Type*}

/-- Every thread waits for the next one: a call in `waitCore` for `opencore-bg`, that for the
callback thread, this one in `waitCompleted` for `opencore-post`, and that for the monitor of
the call, unless it made the call itself. -/
def Deadlock (s : State T L K) : Prop :=
  ∃ a msg msg' k, s.stage a = .waitCore msg ∧ s.mCondition.COREDUMPED = false ∧
    s.monitor = some a ∧ s.worker = .join msg' k ∧ s.callback k = .waitCompleted ∧
    s.mCondition.COREDUMP_COMPLETED = false ∧
    (a = .post ∨ ∃ method, s.stage .post = .calling method)

/-- `opencore-post` is in no synchronized method and will call none. -/
structure PostFree (s : State T L K) : Prop where
  outside : s.stage .post = .outside
  todo : ∀ k todo, s.post = .onCompleted k todo → ∀ method ∈ todo, method.synchronized = false

theorem PostFree.not_deadlock {s : State T L K} (h : PostFree s) : ¬ Deadlock s := by
  rintro ⟨a, msg, msg', k, ha, -, -, -, -, -, hpost⟩
  rcases hpost with rfl | ⟨method, hcall⟩
  · exact absurd (h.outside.symm.trans ha) nofun
  · exact absurd (h.outside.symm.trans hcall) nofun

variable [DecidableEq T] [DecidableEq K] {onCompleted : L → K → List (Method L)}

theorem postFree_step (hsync : ∀ l k, ∀ method ∈ onCompleted l k, method.synchronized = false)
    {s t : State T L K} {e : Event T L K} (h : PostFree s) (hstep : Step onCompleted s e t) :
    PostFree t := by
  constructor
  · rcases (hstep.stage_moves .post).of_outside h.outside with hstay | ⟨method, -, hmethod, hpost⟩
    · exact hstay
    · obtain ⟨k, todo, hpost⟩ := hpost rfl
      have hfree := h.todo k _ hpost method List.mem_cons_self
      exact absurd (hfree.symm.trans hmethod) Bool.false_ne_true
  · intro k todo hpost
    rcases hstep.post_moves.to_onCompleted hpost with hstay | ⟨l, -, rfl⟩ | ⟨method, hstay⟩
    · exact h.todo k todo hstay
    · exact hsync l k
    · exact fun method' hmem => h.todo k _ hstay method' (List.mem_cons_of_mem method hmem)

variable (onCompleted) in
theorem run_to_synchronized {k : K} {todo : List (Method L)}
    (hsync : ∃ method ∈ todo, method.synchronized = true) {s : State T L K}
    (hpost : s.post = .onCompleted k todo) (hout : s.stage .post = .outside) :
    ∃ events u, Run (Step onCompleted) s events u ∧
      (∃ method, u.stage .post = .calling method) ∧
      (∀ t, u.stage (.app t) = s.stage (.app t)) ∧ u.mCondition = s.mCondition ∧
      u.monitor = s.monitor ∧ u.worker = s.worker ∧ u.callback = s.callback := by
  induction todo generalizing s with
  | nil =>
    obtain ⟨method, hmem, -⟩ := hsync
    exact absurd hmem List.not_mem_nil
  | cons method todo ih =>
    cases hmethod : method.synchronized with
    | true =>
      refine ⟨_, _, .cons (.listenerEnters hpost hout hmethod) (.nil _), ⟨method, ?_⟩, fun t => ?_,
        rfl, rfl, rfl, rfl⟩
      · show Function.update s.stage .post (.calling method) .post = _
        rw [Function.update_self]
      · have hne : Caller.app t ≠ .post := nofun
        show Function.update s.stage .post (.calling method) (.app t) = _
        rw [Function.update_of_ne hne]
    | false =>
      have hsync' : ∃ method ∈ todo, method.synchronized = true := by
        obtain ⟨method', hmem, hmethod'⟩ := hsync
        rcases List.mem_cons.mp hmem with rfl | hmem
        · exact absurd (hmethod.symm.trans hmethod') Bool.false_ne_true
        · exact ⟨method', hmem, hmethod'⟩
      have hstep : Step onCompleted s .listenerCalls _ := .listenerCalls hpost hout hmethod
      obtain ⟨events, u, hrun, hrest⟩ := ih hsync' (s := { s with
        post := .onCompleted k todo, mListener := method.listener s.mListener }) rfl hout
      exact ⟨_, u, .cons hstep hrun, hrest⟩

variable (onCompleted) in
/-- A thread calls `doCoredump`, and its callback gets to the listener. -/
theorem run_to_listener (t : T) (l : L) (k : K) :
    ∃ events, ∃ s : State T L K, Run (Step onCompleted) { mListener := some l } events s ∧
      s.stage (.app t) = .waitCore 0 ∧ s.mCondition = {} ∧ s.monitor = some (.app t) ∧
      s.worker = .join 0 k ∧ s.callback k = .waitCompleted ∧
      s.post = .onCompleted k (onCompleted l k) ∧ s.stage .post = .outside := by
  have hrun : Run (Step onCompleted) ({ mListener := some l } : State T L K)
      [.call t .doCoredump, .enter (.app t), .readCore (.app t), .clearCore (.app t),
        .sendCore (.app t), .handleCore, .startCallback k, .listener k, .readCompleted k,
        .clearCompleted k, .sendCompleted k, .handleCompleted, .callListener] _ :=
    .cons (.call rfl rfl) (.cons (.enter (Function.update_self ..) rfl)
      (.cons (.readCore (Function.update_self ..)) (.cons (.clearCore (Function.update_self ..))
      (.cons (.sendCore (Function.update_self ..)) (.cons (.handleCore rfl rfl)
      (.cons (.startCallback rfl rfl) (.cons (.listener (Function.update_self ..) rfl)
      (.cons (.readCompleted (Function.update_self ..))
      (.cons (.clearCompleted (Function.update_self ..))
      (.cons (.sendCompleted (Function.update_self ..))
      (.cons (.handleCompleted rfl rfl rfl) (.cons (.callListener rfl rfl) (.nil _)))))))))))))
  refine ⟨_, _, hrun, ?_, rfl, rfl, rfl, ?_, rfl, rfl⟩
  · exact Function.update_self ..
  · exact Function.update_self ..

/-- No run reaches a deadlock exactly when no listener calls a synchronized method. -/
theorem deadlock_free_iff (t : T) (onCompleted : L → K → List (Method L)) :
    (∀ (listener : Option L) (events : List (Event T L K)) (s : State T L K),
      Run (Step onCompleted) { mListener := listener } events s → ¬ Deadlock s) ↔
    ∀ l k, ∀ method ∈ onCompleted l k, method.synchronized = false := by
  constructor
  · intro h l k method hmem
    by_contra hmethod
    have hsync : ∃ method ∈ onCompleted l k, method.synchronized = true :=
      ⟨method, hmem, Bool.eq_true_of_not_eq_false hmethod⟩
    obtain ⟨events, s, hrun, hcall, hcond, hmon, hworker, hcb, hpost, hout⟩ :=
      run_to_listener onCompleted t l k
    obtain ⟨events', u, hrun', hpost', hstage', hcond', hmon', hworker', hcb'⟩ :=
      run_to_synchronized onCompleted hsync hpost hout
    apply h (some l) _ u (hrun.append hrun')
    refine ⟨.app t, 0, 0, k, ?_, ?_, ?_, ?_, ?_, ?_, Or.inr hpost'⟩
    · rw [hstage', hcall]
    · rw [hcond', hcond]
    · rw [hmon', hmon]
    · rw [hworker', hworker]
    · rw [hcb', hcb]
    · rw [hcond', hcond]
  · intro hsync listener events s hrun
    have hstep (s : State T L K) (e : Event T L K) (u : State T L K) (h : PostFree s)
        (hstep : Step onCompleted s e u) : PostFree u := postFree_step hsync h hstep
    exact (hrun.invariant hstep ⟨rfl, nofun⟩).not_deadlock

/-- A listener asks `isEnabled`, while the thread that called `doCoredump` has the monitor. -/
theorem deadlock_isEnabled :
    ∃ s : State Unit Unit Unit, Run (Step fun _ _ => [.isEnabled]) { mListener := some () }
      [.call () .doCoredump, .enter (.app ()), .readCore (.app ()), .clearCore (.app ()),
        .sendCore (.app ()), .handleCore, .startCallback (), .listener (), .readCompleted (),
        .clearCompleted (), .sendCompleted (), .handleCompleted, .callListener,
        .listenerEnters] s ∧
      Deadlock s := by
  refine ⟨_, .cons (.call rfl rfl) (.cons (.enter rfl rfl) (.cons (.readCore rfl)
    (.cons (.clearCore rfl) (.cons (.sendCore rfl) (.cons (.handleCore rfl rfl)
    (.cons (.startCallback rfl rfl) (.cons (.listener rfl rfl) (.cons (.readCompleted rfl)
    (.cons (.clearCompleted rfl) (.cons (.sendCompleted rfl) (.cons (.handleCompleted rfl rfl rfl)
    (.cons (.callListener rfl rfl) (.cons (.listenerEnters rfl rfl rfl) (.nil _)))))))))))))),
    ?_⟩
  exact ⟨.app (), 0, 0, (), rfl, rfl, rfl, rfl, rfl, rfl, Or.inr ⟨.isEnabled, rfl⟩⟩

end Opencore.Sdk
