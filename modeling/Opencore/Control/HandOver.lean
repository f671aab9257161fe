import Opencore.Control.SignalHandling

/-! Who gets a signal that `HandleSignal` has raised again. -/
namespace Opencore
open Machine

variable {H T : Type*} [DecidableEq T]

section HandOver

def HandlerPc.isDisabled : HandlerPc → Bool
  | lockHandle | lockSwitch | disable => false
  | _ => true

/-- `HandleSignal` has run `Disable` for this signal, or for one that came before it, and the
action that gets the signal afterwards is still to come. -/
def HandlerThread.Owes (th : HandlerThread) (i : SignalIndex) : Prop :=
  match th.frame with
  | none => th.pending i = true
  | some (j, pc) => pc.isDisabled = true ∧ (i = j ∨ th.pending i = true)

/-- What will get the signals is what had them before `Enable`. -/
def HandedToOriginal (original : OriginalActions H) (s : SignalState H T) : Prop :=
  ∀ t i, (s.thread t).Owes i →
    s.switch.disposition (kExceptionSignals i) = original.action (kExceptionSignals i)

/-- The handler is not switched on again while a signal is on its way to its action. -/
def EnablesApart (s : SignalState H T) : SignalEvent T → Prop
  | .leave t => ∀ query, (s.thread t).call = .inside (.Enable query) →
      s.switch.handlers_installed = false → (∀ i, query i = true) →
      ∀ u i, ¬ (s.thread u).Owes i
  | _ => True

variable {original : OriginalActions H} {s s' : SignalState H T} {t : T}

theorem HandlerThread.owes_of_frame {th : HandlerThread} {i : SignalIndex} {pc : HandlerPc}
    (h : th.frame = some (i, pc)) (hpc : pc.isDisabled = true) : th.Owes i := by
  rw [HandlerThread.Owes, h]
  exact ⟨hpc, Or.inl rfl⟩

theorem HandlerThread.not_owes_goTo {th : HandlerThread} {i : SignalIndex} {pc : HandlerPc}
    (hpc : pc.isDisabled = false) (j : SignalIndex) : ¬ (th.goTo i pc).Owes j := by
  rintro ⟨hdisabled, -⟩
  exact absurd (hpc.symm.trans hdisabled) Bool.false_ne_true

omit [DecidableEq T] in
theorem handedToOriginal_of_off (h : SignalInv original s)
    (hoff : s.switch.handlers_installed = false) : HandedToOriginal original s := by
  intro t i _
  rw [h.switch.off hoff]

omit [DecidableEq T] in
theorem handedToOriginal_iff (h : SignalInv original s)
    (hon : s.switch.handlers_installed = true) :
    HandedToOriginal original s ↔ ∀ t i, ¬ (s.thread t).Owes i := by
  constructor
  · intro hhanded t i howes
    have haction := hhanded t i howes
    rw [h.switch.dispatched hon i] at haction
    exact original.foreign (kExceptionSignals i) (congrArg Sigaction.handler haction).symm
  · intro hnone t i howes
    exact absurd howes (hnone t i)

theorem disable_installed (s : HandlerSwitch H) : s.Disable.1.handlers_installed = false := by
  unfold HandlerSwitch.Disable
  split_ifs with hon
  · rfl
  · exact Bool.eq_false_of_not_eq_true hon

/-- As long as the switch is on, no step of the handler leaves a signal behind. -/
theorem owes_handle (hstep : HandleStep s t s') (hon : s'.switch.handlers_installed = true)
    (h : ∀ u i, ¬ (s.thread u).Owes i) (u : T) (i : SignalIndex) : ¬ (s'.thread u).Owes i := by
  have hnone : ∀ {th}, (∀ i, ¬ HandlerThread.Owes th i) →
      ∀ u i, ¬ (Function.update s.thread t th u).Owes i :=
    fun hth u => forall_update (p := fun th => ∀ i, ¬ HandlerThread.Owes th i) h t hth u
  cases hstep with
  | lockHandle _ _ => exact hnone (HandlerThread.not_owes_goTo rfl) u i
  | lockSwitch _ _ => exact hnone (HandlerThread.not_owes_goTo rfl) u i
  | disable _ => exact absurd ((disable_installed s.switch).symm.trans hon) Bool.false_ne_true
  | dump hframe => exact absurd (HandlerThread.owes_of_frame hframe rfl) (h t _)
  | dumping hframe => exact absurd (HandlerThread.owes_of_frame hframe rfl) (h t _)
  | raise hframe => exact absurd (HandlerThread.owes_of_frame hframe rfl) (h t _)
  | unlockHandle hframe => exact absurd (HandlerThread.owes_of_frame hframe rfl) (h t _)
  | sigreturn hframe => exact absurd (HandlerThread.owes_of_frame hframe rfl) (h t _)

theorem owes_move {e : SignalEvent T} (hstep : SignalMove s e s')
    (hon : s'.switch.handlers_installed = true) (h : ∀ u i, ¬ (s.thread u).Owes i) (u : T)
    (i : SignalIndex) : ¬ (s'.thread u).Owes i := by
  have hnone (t : T) (th : HandlerThread) (hth : ∀ i, ¬ th.Owes i) (u : T) :
      ∀ i, ¬ (Function.update s.thread t th u).Owes i :=
    forall_update (p := fun th => ∀ i, ¬ HandlerThread.Owes th i) h t hth u
  have hpends (t : T) (j : SignalIndex) (hframe : (s.thread t).frame = none)
      (hpending : (s.thread t).pending j = true) : False := by
    refine h t j ?_
    rw [HandlerThread.Owes, hframe]
    exact hpending
  cases hstep with
  | caught _ _ => exact hnone _ _ (HandlerThread.not_owes_goTo rfl) u i
  | passed _ _ => exact h u i
  | @blocked t j f hframe =>
    obtain ⟨k, pc⟩ := f
    cases hpc : pc.isDisabled with
    | true => exact absurd (HandlerThread.owes_of_frame hframe hpc) (h t k)
    | false =>
      refine hnone t _ (fun i howes => ?_) u i
      rw [HandlerThread.Owes, HandlerThread.withPending, hframe] at howes
      exact absurd (hpc.symm.trans howes.1) Bool.false_ne_true
  | caughtAgain hframe hpending _ => exact (hpends _ _ hframe hpending).elim
  | handedOver hframe hpending _ => exact (hpends _ _ hframe hpending).elim
  | handle hhandle => exact owes_handle hhandle hon h u i
  | @call t c _ _ => exact hnone t { s.thread t with call := .waiting c } (h t) u i
  | @enter t c _ _ _ => exact hnone t { s.thread t with call := .inside c } (h t) u i
  | @leave t c _ _ => exact hnone t { s.thread t with call := .outside } (h t) u i

/-- Only an `Enable` that succeeds turns the switch on. -/
theorem switchedOn {e : SignalEvent T} (hstep : SignalMove s e s')
    (hoff : s.switch.handlers_installed = false) (hon : s'.switch.handlers_installed = true) :
    ∃ t query, e = .leave t ∧ (s.thread t).call = .inside (.Enable query) ∧
      (∀ i, query i = true) ∧ ∀ u i, (s'.thread u).Owes i ↔ (s.thread u).Owes i := by
  have hsame : s.switch.handlers_installed ≠ true := ne_true_of_eq_false hoff
  have hdisabled : s.switch.Disable.1.handlers_installed ≠ true :=
    ne_true_of_eq_false (disable_installed s.switch)
  cases hstep with
  | caught _ _ => exact absurd hon hsame
  | passed _ _ => exact absurd hon hsame
  | blocked _ => exact absurd hon hsame
  | caughtAgain _ _ _ => exact absurd hon hsame
  | handedOver _ _ _ => exact absurd hon hsame
  | handle hhandle =>
    cases hhandle with
    | disable _ => exact absurd hon hdisabled
    | _ => exact absurd hon hsame
  | call _ _ => exact absurd hon hsame
  | enter _ _ _ => exact absurd hon hsame
  | @leave t c _ hcall =>
    cases c with
    | Disable => exact absurd hon hdisabled
    | HandleSignal => exact absurd hon hdisabled
    | IsEnabled => exact absurd hon hsame
    | Enable query =>
      have hrun : (s.switch.Enable query).1.handlers_installed = true := hon
      rcases s.switch.Enable_cases query with ⟨hon', -⟩ | ⟨-, -, table, heq⟩ | ⟨-, hall, -⟩
      · exact absurd hon' hsame
      · rw [heq] at hrun
        exact absurd hrun hsame
      · refine ⟨t, query, rfl, hcall, hall, fun u i => ?_⟩
        change (Function.update s.thread t { s.thread t with call := .outside } u).Owes i ↔ _
        by_cases hu : u = t
        · subst hu
          rw [Function.update_self]
          exact Iff.rfl
        · rw [Function.update_of_ne hu]

theorem enable_installed {query : Fin kNumHandledSignals → Bool} {s : HandlerSwitch H}
    (hall : ∀ i, query i = true) : (s.Enable query).1.handlers_installed = true := by
  rcases s.Enable_cases query with ⟨hon, heq⟩ | ⟨-, ⟨i, hi⟩, -⟩ | ⟨-, -, table, -, heq⟩
  · rw [heq]
    exact hon
  · exact absurd (hi.symm.trans (hall i)) Bool.false_ne_true
  · rw [heq]

/-- A step keeps the signals for their original actions exactly when it does not switch the
handler on too early. -/
theorem handedToOriginal_step {e : SignalEvent T} (h : SignalInv original s)
    (hhanded : HandedToOriginal original s) (hstep : SignalStep s e s') :
    HandedToOriginal original s' ↔ EnablesApart s e := by
  have h' := signalInv_step h hstep
  -- an `Enable` that succeeds from off leaves the switch on
  have hapart : (s.switch.handlers_installed = false → s'.switch.handlers_installed = true →
      ∀ u i, ¬ (s.thread u).Owes i) → EnablesApart s e := by
    intro hnone
    cases e with
    | leave t =>
      intro query hcall hoff hall
      refine hnone hoff ?_
      cases hstep.2 with
      | @leave _ c _ hcall' =>
        obtain rfl := SwitchPc.inside.inj (hcall'.symm.trans hcall)
        exact enable_installed hall
    | _ => trivial
  cases hon' : s'.switch.handlers_installed with
  | false =>
    refine iff_of_true (handedToOriginal_of_off h' hon') (hapart fun _ hon => ?_)
    exact absurd (hon'.symm.trans hon) Bool.false_ne_true
  | true =>
    rw [handedToOriginal_iff h' hon']
    cases hon : s.switch.handlers_installed with
    | true =>
      have hnone := (handedToOriginal_iff h hon).mp hhanded
      exact iff_of_true (owes_move hstep.2 hon' hnone) (hapart fun _ _ => hnone)
    | false =>
      obtain ⟨t, query, rfl, hcall, hall, howes⟩ := switchedOn hstep.2 hon hon'
      constructor
      · intro hnone
        exact hapart fun _ _ u i => (howes u i).not.mp (hnone u i)
      · intro hapart' u i
        exact (howes u i).not.mpr (hapart' query hcall hon hall u i)

end HandOver

/-- A pending signal goes to the action from before `Enable`. -/
def DeliveredToOriginal (original : OriginalActions H) (s : SignalState H T) :
    SignalEvent T → Prop
  | .deliver _ i => s.switch.disposition (kExceptionSignals i) =
      original.action (kExceptionSignals i)
  | _ => True

/-- A pending signal is delivered while the handler is switched off. -/
def DeliversOff (s : SignalState H T) : SignalEvent T → Prop
  | .deliver _ _ => s.switch.handlers_installed = false
  | _ => True

omit [DecidableEq T] in
theorem deliveredToOriginal_iff {original : OriginalActions H} {s : SignalState H T}
    (h : SignalInv original s) (e : SignalEvent T) :
    DeliveredToOriginal original s e ↔ DeliversOff s e := by
  cases e with
  | deliver t i =>
    constructor
    · intro haction
      refine Bool.eq_false_of_not_eq_true fun hon => ?_
      rw [DeliveredToOriginal, h.switch.dispatched hon i] at haction
      exact original.foreign (kExceptionSignals i) (congrArg Sigaction.handler haction).symm
    · intro hoff
      rw [DeliveredToOriginal, h.switch.off hoff]
  | _ => exact Iff.rfl

theorem HandedToOriginal.delivered {original : OriginalActions H} {s s' : SignalState H T}
    {e : SignalEvent T} (h : HandedToOriginal original s) (hstep : SignalStep s e s') :
    DeliveredToOriginal original s e := by
  have howes {t : T} {i : SignalIndex} (hframe : (s.thread t).frame = none)
      (hpending : (s.thread t).pending i = true) : (s.thread t).Owes i := by
    rw [HandlerThread.Owes, hframe]
    exact hpending
  cases hstep.2 with
  | caughtAgain hframe hpending _ => exact h _ _ (howes hframe hpending)
  | handedOver hframe hpending _ => exact h _ _ (howes hframe hpending)
  | _ => trivial

/-- In a run of crashes and calls on any number of threads, the signals that `HandleSignal` has
raised again, and those that it has blocked, are delivered to the actions from before `Enable`
exactly when the handler is switched off at each delivery. Those are their actions at every moment
from the `Disable` of a handler on exactly when no `Enable` succeeds between that and the delivery,
and then all are delivered so. -/
theorem handedOver_iff (original : OriginalActions H) (es : List (SignalEvent T))
    (u : SignalState H T) :
    (Run (fun s e t => SignalStep s e t ∧ DeliveredToOriginal original s e)
        (SignalState.initial T original) es u ↔
      Run (fun s e t => SignalStep s e t ∧ DeliversOff s e)
        (SignalState.initial T original) es u) ∧
    (Run (fun s e t => SignalStep s e t ∧ HandedToOriginal original t)
        (SignalState.initial T original) es u ↔
      Run (fun s e t => SignalStep s e t ∧ EnablesApart s e)
        (SignalState.initial T original) es u) ∧
    (Run (fun s e t => SignalStep s e t ∧ EnablesApart s e)
        (SignalState.initial T original) es u →
      Run (fun s e t => SignalStep s e t ∧ DeliveredToOriginal original s e)
        (SignalState.initial T original) es u) := by
  have hinv (s : SignalState H T) (e : SignalEvent T) (t : SignalState H T)
      (h : SignalInv original s) (hstep : SignalStep s e t) : SignalInv original t :=
    signalInv_step h hstep
  have hinitial : HandedToOriginal original (SignalState.initial T original) :=
    handedToOriginal_of_off (signalInv_initial original) rfl
  refine ⟨?_, ?_, fun hrun => ?_⟩
  · exact Run.side_iff hinv (fun _ e _ h _ => deliveredToOriginal_iff h e)
      (signalInv_initial original)
  · exact Run.keeps_iff (P := EnablesApart) hinv
      (fun _ _ _ h hhanded hstep => handedToOriginal_step h hhanded hstep)
      (signalInv_initial original) hinitial
  · have hdelivered := hrun.restrict
      (I := fun s => SignalInv original s ∧ HandedToOriginal original s)
      (P := DeliveredToOriginal original)
      (fun _ _ _ h hstep => ⟨signalInv_step h.1 hstep.1,
        (handedToOriginal_step h.1 h.2 hstep.1).mpr hstep.2⟩)
      (fun _ _ _ h hstep => h.2.delivered hstep.1) ⟨signalInv_initial original, hinitial⟩
    exact hdelivered.mono fun _ _ _ hstep => ⟨hstep.1.1, hstep.2⟩

end Opencore
