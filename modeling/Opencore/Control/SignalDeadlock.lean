import Opencore.Control.SignalHandling

/-! When the handler can always go on, and when it waits for ever. -/
namespace Opencore
open Machine

variable {H T : Type*} [DecidableEq T]

section Deadlock

/-- No signal has interrupted a critical section of `g_switch_lock`. -/
def HandlerThread.Undisturbed (th : HandlerThread) : Prop := th.call.isInside = true → th.Runs

variable {original : OriginalActions H} {s s' : SignalState H T} {t : T} {th : HandlerThread}
  {i : SignalIndex}

theorem HandlerThread.not_runs_of_frame {f : SignalIndex × HandlerPc} (h : th.frame = some f) :
    ¬ th.Runs := fun hruns => nomatch h.symm.trans hruns.1

theorem HandlerThread.Undisturbed.outside (h : th.Undisturbed) (hruns : ¬ th.Runs) :
    th.call.isInside = false := by
  by_contra hinside
  exact hruns (h (Bool.eq_true_of_not_eq_false hinside))

end Deadlock

section Interrupted

variable {original : OriginalActions H} {s s' : SignalState H T} {t : T} {th : HandlerThread}
  {i : SignalIndex}

/-- The handler is on its way to a mutex that the thread itself has locked. -/
def HandlerThread.Lost (th : HandlerThread) (i : SignalIndex) : Prop :=
  th.call.isInside = true ∧ (th.frame = some (i, .lockHandle) ∨ th.frame = some (i, .lockSwitch))

theorem HandlerThread.Lost.not_runs (h : th.Lost i) : th.frame ≠ none := by
  rintro hnone
  rcases h.2 with hframe | hframe
  · cases hnone.symm.trans hframe
  · cases hnone.symm.trans hframe

theorem HandlerThread.Lost.holdsSwitch (h : th.Lost i) : th.holdsSwitch = true :=
  Bool.or_eq_true_iff.mpr (Or.inl h.1)

structure StaysLost (s : SignalState H T) (t : T) (i : SignalIndex) (s' : SignalState H T) :
    Prop where
  lost : (s'.thread t).Lost i
  switch : s'.switch = s.switch
  log : s'.logOf t = s.logOf t

theorem staysLost_other {u : T} (h : (s.thread t).Lost i) (hu : u ≠ t)
    (hthread : s'.thread = Function.update s.thread u th) (hswitch : s'.switch = s.switch)
    (hlog : s'.log = s.log ∨ ∃ m, s'.log = s.log ++ [(u, m)]) : StaysLost s t i s' where
  lost := by
    rw [hthread, Function.update_of_ne hu.symm]
    exact h
  switch := hswitch
  log := by
    rcases hlog with hlog | ⟨m, hlog⟩
    · rw [SignalState.logOf, SignalState.logOf, hlog]
    · have hother : [(u, m)].filter (fun m => decide (m.1 = t)) = [] := by simp [hu]
      rw [SignalState.logOf, SignalState.logOf, hlog, List.filter_append, hother, List.append_nil]

theorem staysLost_handle {u : T} (hinv : SignalInv original s) (h : (s.thread t).Lost i)
    (hstep : HandleStep s u s') : StaysLost s t i s' := by
  have howner : s.g_switch_lock = some t := hinv.lock.owner h.holdsSwitch
  by_cases hu : u = t
  · subst hu
    -- the thread takes the handler mutex at most, and then waits for itself
    have hpcs {j : SignalIndex} {pc : HandlerPc} (hframe : (s.thread u).frame = some (j, pc)) :
        j = i ∧ (pc = .lockHandle ∨ pc = .lockSwitch) := by
      rcases h.2 with hlost | hlost
      · obtain ⟨rfl, rfl⟩ := Prod.mk.inj (Option.some.inj (hframe.symm.trans hlost))
        exact ⟨rfl, Or.inl rfl⟩
      · obtain ⟨rfl, rfl⟩ := Prod.mk.inj (Option.some.inj (hframe.symm.trans hlost))
        exact ⟨rfl, Or.inr rfl⟩
    have hpast {j : SignalIndex} {pc : HandlerPc} (hframe : (s.thread u).frame = some (j, pc))
        (hhandle : pc ≠ .lockHandle) (hswitch : pc ≠ .lockSwitch) : StaysLost s u i s' :=
      ((hpcs hframe).2.elim hhandle hswitch).elim
    cases hstep with
    | @lockHandle j hframe _ =>
      obtain rfl := (hpcs hframe).1
      refine ⟨?_, rfl, rfl⟩
      change (Function.update s.thread u ((s.thread u).goTo j .lockSwitch) u).Lost j
      rw [Function.update_self]
      exact ⟨h.1, Or.inr rfl⟩
    | lockSwitch hframe hfree => cases howner.symm.trans hfree
    | disable hframe => exact hpast hframe (by decide) (by decide)
    | dump hframe => exact hpast hframe (by decide) (by decide)
    | dumping hframe => exact hpast hframe (by decide) (by decide)
    | raise hframe => exact hpast hframe (by decide) (by decide)
    | unlockHandle hframe => exact hpast hframe (by decide) (by decide)
    | sigreturn hframe => exact hpast hframe (by decide) (by decide)
  · have hsame : s'.switch = s.switch := by
      cases hstep with
      | disable hframe =>
        have hholds := (HandlerThread.holds_frame hframe).2.trans (Bool.or_true _)
        exact absurd (hinv.lock.exclusive hholds h.holdsSwitch) hu
      | _ => rfl
    cases hstep with
    | lockHandle _ _ => exact staysLost_other h hu rfl hsame (Or.inl rfl)
    | lockSwitch _ _ => exact staysLost_other h hu rfl hsame (Or.inl rfl)
    | disable _ => exact staysLost_other h hu rfl hsame (Or.inl rfl)
    | dump _ => exact staysLost_other h hu rfl hsame (Or.inr ⟨_, rfl⟩)
    | dumping _ => exact staysLost_other h hu rfl hsame (Or.inr ⟨_, rfl⟩)
    | raise _ => exact staysLost_other h hu rfl hsame (Or.inr ⟨_, rfl⟩)
    | unlockHandle _ => exact staysLost_other h hu rfl hsame (Or.inl rfl)
    | sigreturn _ => exact staysLost_other h hu rfl hsame (Or.inl rfl)

theorem staysLost_move {e : SignalEvent T} (hinv : SignalInv original s) (h : (s.thread t).Lost i)
    (hstep : SignalMove s e s') : StaysLost s t i s' := by
  have hother {u : T} (hnone : (s.thread u).frame = none) : u ≠ t := by
    rintro rfl
    exact h.not_runs hnone
  cases hstep with
  | caught hruns _ => exact staysLost_other h (hother hruns.1) rfl rfl (Or.inr ⟨_, rfl⟩)
  | passed _ _ => exact ⟨h, rfl, rfl⟩
  | @blocked u j f _ =>
    refine ⟨?_, rfl, rfl⟩
    change (Function.update s.thread u ((s.thread u).withPending j true) t).Lost i
    by_cases hu : t = u
    · subst hu
      rw [Function.update_self]
      exact h
    · rw [Function.update_of_ne hu]
      exact h
  | caughtAgain hframe _ _ =>
    exact staysLost_other h (hother hframe) rfl rfl (Or.inr ⟨_, rfl⟩)
  | handedOver hframe _ _ => exact staysLost_other h (hother hframe) rfl rfl (Or.inl rfl)
  | handle hhandle => exact staysLost_handle hinv h hhandle
  | call hruns _ => exact staysLost_other h (hother hruns.1) rfl rfl (Or.inl rfl)
  | enter hruns _ _ => exact staysLost_other h (hother hruns.1) rfl rfl (Or.inl rfl)
  | leave hruns hcall =>
    have hholds := (HandlerThread.holds_running hruns.1).2
    rw [hcall] at hholds
    exact absurd (hinv.lock.exclusive hholds h.holdsSwitch) (hother hruns.1)

end Interrupted

/-- A signal for the handler that interrupts a critical section of `g_switch_lock` is never
dumped, and the switch can never be used again: whatever else happens, its mutex stays locked. -/
theorem interrupted_forever {original : OriginalActions H} {es es' : List (SignalEvent T)}
    {s s' u : SignalState H T} {t : T} {i : SignalIndex}
    (hrun : Run SignalStep (SignalState.initial T original) es s)
    (hinside : (s.thread t).call.isInside = true) (hruns : (s.thread t).Runs)
    (hhandler : s.handler i = .HandleSignal) (hsignal : SignalStep s (.signal t i) s')
    (hrest : Run SignalStep s' es' u) :
    u.g_switch_lock = some t ∧ u.switch = s.switch ∧
      u.logOf t = s.logOf t ++ [(i, .entered)] := by
  have hinv : SignalInv original s' := by
    refine signalInv_step (Run.invariant (fun _ _ _ h hstep => signalInv_step h hstep) hrun ?_)
      hsignal
    exact signalInv_initial original
  obtain ⟨hlost, hswitch, hlog⟩ : (s'.thread t).Lost i ∧ s'.switch = s.switch ∧
      s'.logOf t = s.logOf t ++ [(i, .entered)] := by
    cases hsignal.2 with
    | caught _ _ =>
      refine ⟨?_, rfl, ?_⟩
      · change (Function.update s.thread t ((s.thread t).goTo i .lockHandle) t).Lost i
        rw [Function.update_self]
        exact ⟨hinside, Or.inl rfl⟩
      · simp [SignalState.logOf, SignalState.mark, SignalState.setThread]
    | passed _ hnot => exact absurd hhandler hnot
    | blocked hframe => exact absurd hruns (HandlerThread.not_runs_of_frame hframe)
  have hstays : SignalInv original u ∧ StaysLost s' t i u := by
    refine Run.invariant (I := fun v => SignalInv original v ∧ StaysLost s' t i v) ?_ hrest ?_
    · rintro v e w ⟨hv, hlost⟩ hstep
      have hnext := staysLost_move hv hlost.lost hstep.2
      exact ⟨signalInv_step hv hstep, hnext.lost, hnext.switch.trans hlost.switch,
        hnext.log.trans hlost.log⟩
    · exact ⟨hinv, hlost, rfl, rfl⟩
  obtain ⟨hinv', hstays⟩ := hstays
  exact ⟨hinv'.lock.owner hstays.lost.holdsSwitch, hstays.switch.trans hswitch,
    hstays.log.trans hlog⟩

/-- A thread that gets a signal in `IsEnabled`. -/
theorem interrupted_forever_query : ∃ s s' u : SignalState Unit Unit,
    Run SignalStep (SignalState.initial Unit defaultActions)
      [.call () (.Enable fun _ => true), .enter (), .leave (), .call () .IsEnabled, .enter ()] s ∧
    SignalStep s (.signal () 0) s' ∧ Run SignalStep s' [.handle ()] u ∧
    u.g_switch_lock = some () ∧ u.switch = s.switch ∧
    u.logOf () = s.logOf () ++ [(0, .entered)] := by
  obtain ⟨s, hrun, hinside, hruns, hhandler, halive, hlock⟩ : ∃ s : SignalState Unit Unit,
      Run SignalStep (SignalState.initial Unit defaultActions)
        [.call () (.Enable fun _ => true), .enter (), .leave (), .call () .IsEnabled, .enter ()]
        s ∧ (s.thread ()).call.isInside = true ∧ (s.thread ()).Runs ∧
      s.handler 0 = .HandleSignal ∧ s.killed = false ∧ s.g_handle_lock = none :=
    ⟨_, .cons ⟨rfl, .call ⟨rfl, fun _ => rfl⟩ rfl⟩ <|
      .cons ⟨rfl, .enter ⟨rfl, fun _ => rfl⟩ rfl rfl⟩ <|
      .cons ⟨rfl, .leave ⟨rfl, fun _ => rfl⟩ rfl⟩ <|
      .cons ⟨rfl, .call ⟨rfl, fun _ => rfl⟩ rfl⟩ <|
      .cons ⟨rfl, .enter ⟨rfl, fun _ => rfl⟩ rfl rfl⟩ (.nil _), rfl, ⟨rfl, fun _ => rfl⟩, rfl, rfl,
      rfl⟩
  let s' := (s.setThread () ((s.thread ()).goTo 0 .lockHandle)).mark () 0 .entered
  have hsignal : SignalStep s (.signal () 0) s' := ⟨halive, .caught hruns hhandler⟩
  have hrest : Run SignalStep s' [.handle ()] _ :=
    .cons ⟨halive, .handle (.lockHandle (i := 0) rfl hlock)⟩ (.nil _)
  exact ⟨s, s', _, hrun, hsignal, hrest,
    interrupted_forever hrun hinside hruns hhandler hsignal hrest⟩

end Opencore
