import Opencore.Control.Handlers
import Opencore.Machine.Mutex

/-! `HandleSignal` on any number of threads, between the calls that switch the handler on and
off: the two mutexes, the blocked signals, and the action that gets the signal in the end. -/
namespace Opencore
open Machine

variable {H T : Type*}

/-- A thread between its calls, before `pthread_mutex_lock(&g_switch_lock)`, or behind it. -/
inductive SwitchPc
  | outside
  | waiting (call : SwitchCall)
  | inside (call : SwitchCall)

/-- What `HandleSignal` does next. -/
inductive HandlerPc
  | lockHandle
  | lockSwitch
  | disable
  | dump
  /-- `Dump` has started. -/
  | dumping
  | raise
  | unlockHandle
  /-- The return to what the signal has interrupted. -/
  | sigreturn
  deriving DecidableEq

abbrev SignalIndex := Fin kNumHandledSignals

/-- A thread of the process. While the handler runs, `sa_mask` keeps all six signals pending. -/
structure HandlerThread where
  call : SwitchPc := .outside
  frame : Option (SignalIndex × HandlerPc) := none
  pending : SignalIndex → Bool := fun _ => false

/-- What becomes of a signal that `HandleSignal` gets. -/
inductive CrashMark
  | entered
  | started
  | finished
  | raised
  deriving DecidableEq

structure SignalState (H T : Type*) where
  switch : HandlerSwitch H
  g_handle_lock : Option T := none
  g_switch_lock : Option T := none
  thread : T → HandlerThread := fun _ => {}
  log : List (T × SignalIndex × CrashMark) := []
  /-- A default action has ended the process. -/
  killed : Bool := false

def SignalState.initial (T : Type*) (original : OriginalActions H) : SignalState H T :=
  { switch := original.switch }

inductive SignalEvent (T : Type*)
  /-- The kernel has a signal for a thread. -/
  | signal (t : T) (i : SignalIndex)
  /-- A pending signal reaches its thread once it is no longer blocked. -/
  | deliver (t : T) (i : SignalIndex)
  /-- The next step of `HandleSignal`. -/
  | handle (t : T)
  | call (t : T) (call : SwitchCall)
  /-- `pthread_mutex_lock(&g_switch_lock)` of a call. -/
  | enter (t : T)
  /-- The rest of the call, with all its calls of `sigaction`. -/
  | leave (t : T)

/-- No handler runs on the thread, and none is about to. -/
def HandlerThread.Runs (th : HandlerThread) : Prop :=
  th.frame = none ∧ ∀ i, th.pending i = false

def SignalHandler.isDefault : SignalHandler H → Bool
  | SIG_DFL => true
  | _ => false

def HandlerThread.goTo (th : HandlerThread) (i : SignalIndex) (pc : HandlerPc) : HandlerThread :=
  { th with frame := some (i, pc) }

def HandlerThread.withPending (th : HandlerThread) (i : SignalIndex) (b : Bool) : HandlerThread :=
  { th with pending := Function.update th.pending i b }

def SignalState.handler (s : SignalState H T) (i : SignalIndex) : SignalHandler H :=
  (s.switch.disposition (kExceptionSignals i)).handler

variable [DecidableEq T]

def SignalState.setThread (s : SignalState H T) (t : T) (th : HandlerThread) : SignalState H T :=
  { s with thread := Function.update s.thread t th }

def SignalState.mark (s : SignalState H T) (t : T) (i : SignalIndex) (m : CrashMark) :
    SignalState H T :=
  { s with log := s.log ++ [(t, i, m)] }

def SignalState.logOf (s : SignalState H T) (t : T) : List (SignalIndex × CrashMark) :=
  (s.log.filter fun m => m.1 = t).map Prod.snd

inductive HandleStep (s : SignalState H T) (t : T) : SignalState H T → Prop
  | lockHandle {i} : (s.thread t).frame = some (i, .lockHandle) → s.g_handle_lock = none →
      HandleStep s t { s.setThread t ((s.thread t).goTo i .lockSwitch) with
        g_handle_lock := some t }
  | lockSwitch {i} : (s.thread t).frame = some (i, .lockSwitch) → s.g_switch_lock = none →
      HandleStep s t { s.setThread t ((s.thread t).goTo i .disable) with g_switch_lock := some t }
  | disable {i} : (s.thread t).frame = some (i, .disable) →
      HandleStep s t { s.setThread t ((s.thread t).goTo i .dump) with
        switch := SwitchCall.HandleSignal.run s.switch, g_switch_lock := none }
  | dump {i} : (s.thread t).frame = some (i, .dump) →
      HandleStep s t ((s.setThread t ((s.thread t).goTo i .dumping)).mark t i .started)
  | dumping {i} : (s.thread t).frame = some (i, .dumping) →
      HandleStep s t ((s.setThread t ((s.thread t).goTo i .raise)).mark t i .finished)
  -- the signal is blocked, so that `raise` leaves it pending
  | raise {i} : (s.thread t).frame = some (i, .raise) →
      HandleStep s t ((s.setThread t
        (((s.thread t).goTo i .unlockHandle).withPending i true)).mark t i .raised)
  | unlockHandle {i} : (s.thread t).frame = some (i, .unlockHandle) →
      HandleStep s t { s.setThread t ((s.thread t).goTo i .sigreturn) with g_handle_lock := none }
  | sigreturn {i} : (s.thread t).frame = some (i, .sigreturn) →
      HandleStep s t (s.setThread t { s.thread t with frame := none })

inductive SignalMove : SignalState H T → SignalEvent T → SignalState H T → Prop
  | caught {s t i} : (s.thread t).Runs → s.handler i = .HandleSignal →
      SignalMove s (.signal t i)
        ((s.setThread t ((s.thread t).goTo i .lockHandle)).mark t i .entered)
  | passed {s t i} : (s.thread t).Runs → s.handler i ≠ .HandleSignal →
      SignalMove s (.signal t i) { s with killed := (s.handler i).isDefault }
  | blocked {s t i f} : (s.thread t).frame = some f →
      SignalMove s (.signal t i) (s.setThread t ((s.thread t).withPending i true))
  | caughtAgain {s t i} : (s.thread t).frame = none → (s.thread t).pending i = true →
      s.handler i = .HandleSignal →
      SignalMove s (.deliver t i)
        ((s.setThread t (((s.thread t).withPending i false).goTo i .lockHandle)).mark t i .entered)
  | handedOver {s t i} : (s.thread t).frame = none → (s.thread t).pending i = true →
      s.handler i ≠ .HandleSignal →
      SignalMove s (.deliver t i) { s.setThread t ((s.thread t).withPending i false) with
        killed := (s.handler i).isDefault }
  | handle {s t s'} : HandleStep s t s' → SignalMove s (.handle t) s'
  | call {s t c} : (s.thread t).Runs → (s.thread t).call = .outside →
      SignalMove s (.call t c) (s.setThread t { s.thread t with call := .waiting c })
  | enter {s t c} : (s.thread t).Runs → (s.thread t).call = .waiting c → s.g_switch_lock = none →
      SignalMove s (.enter t) { s.setThread t { s.thread t with call := .inside c } with
        g_switch_lock := some t }
  | leave {s t c} : (s.thread t).Runs → (s.thread t).call = .inside c →
      SignalMove s (.leave t) { s.setThread t { s.thread t with call := .outside } with
        switch := c.run s.switch, g_switch_lock := none }

/-- A step of a process that still runs. -/
def SignalStep (s : SignalState H T) (e : SignalEvent T) (s' : SignalState H T) : Prop :=
  s.killed = false ∧ SignalMove s e s'

section Locks

/-- Between the first line of `HandleSignal` and the last. -/
def HandlerPc.holdsHandle : HandlerPc → Bool
  | lockHandle | sigreturn => false
  | _ => true

def HandlerThread.holdsHandle (th : HandlerThread) : Bool :=
  th.frame.any fun f => f.2.holdsHandle

def SwitchPc.isInside : SwitchPc → Bool
  | inside _ => true
  | _ => false

def HandlerThread.holdsSwitch (th : HandlerThread) : Bool :=
  th.call.isInside || th.frame.any fun f => f.2 = .disable

/-- The two critical sections of a thread exclude each other. -/
def HandlerThread.Apart (th : HandlerThread) : Prop :=
  ∀ i, th.frame = some (i, .disable) → th.call.isInside = false

structure SignalInv (original : OriginalActions H) (s : SignalState H T) : Prop where
  switch : SwitchInv original s.switch
  handle : Guards s.g_handle_lock HandlerThread.holdsHandle s.thread
  lock : Guards s.g_switch_lock HandlerThread.holdsSwitch s.thread
  apart : ∀ t, (s.thread t).Apart

variable {original : OriginalActions H} {s s' : SignalState H T} {t : T}

omit [DecidableEq T] in
theorem signalInv_initial (original : OriginalActions H) :
    SignalInv original (SignalState.initial T original) where
  switch := switchInv_initial original
  handle _ := iff_of_false nofun Bool.false_ne_true
  lock _ := iff_of_false nofun Bool.false_ne_true
  apart _ _ _ := rfl

theorem HandlerThread.holds_frame {th : HandlerThread} {i : SignalIndex} {pc : HandlerPc}
    (h : th.frame = some (i, pc)) : th.holdsHandle = pc.holdsHandle ∧
      th.holdsSwitch = (th.call.isInside || decide (pc = .disable)) := by
  rw [HandlerThread.holdsHandle, HandlerThread.holdsSwitch, h]
  exact ⟨rfl, rfl⟩

theorem HandlerThread.holds_running {th : HandlerThread} (h : th.frame = none) :
    th.holdsHandle = false ∧ th.holdsSwitch = th.call.isInside := by
  rw [HandlerThread.holdsHandle, HandlerThread.holdsSwitch, h]
  exact ⟨rfl, Bool.or_false _⟩

theorem HandlerThread.holdsSwitch_withCall {th : HandlerThread} (h : th.frame = none)
    (call : SwitchPc) : ({ th with call := call } : HandlerThread).holdsSwitch = call.isInside := by
  rw [HandlerThread.holdsSwitch, h]
  exact Bool.or_false _

theorem apart_of_ne {th : HandlerThread} {i : SignalIndex} {pc : HandlerPc} (hpc : pc ≠ .disable) :
    (th.goTo i pc).Apart := by
  intro j hj
  exact absurd (Prod.mk.inj (Option.some.inj hj)).2 hpc

theorem apart_of_none {th : HandlerThread} (h : th.frame = none) : th.Apart := by
  intro i hi
  exact nomatch h.symm.trans hi

theorem signalInv_handle (h : SignalInv original s) (hstep : HandleStep s t s') :
    SignalInv original s' := by
  cases hstep with
  | lockHandle hframe hfree =>
    obtain ⟨-, hswitch⟩ := HandlerThread.holds_frame hframe
    exact ⟨h.switch, (hfree ▸ h.handle).acquire rfl, h.lock.keep hswitch.symm,
      forall_update h.apart t (apart_of_ne (by decide))⟩
  | lockSwitch hframe hfree =>
    obtain ⟨hhandle, -⟩ := HandlerThread.holds_frame hframe
    have houtside : (s.thread t).call.isInside = false :=
      (Bool.or_eq_false_iff.mp ((hfree ▸ h.lock).not_holds t)).1
    exact ⟨h.switch, h.handle.keep hhandle.symm, (hfree ▸ h.lock).acquire (Bool.or_true _),
      forall_update h.apart t fun _ _ => houtside⟩
  | disable hframe =>
    obtain ⟨hhandle, hswitch⟩ := HandlerThread.holds_frame hframe
    have houtside := h.apart t _ hframe
    exact ⟨switchInv_call h.switch .HandleSignal, h.handle.keep hhandle.symm,
      h.lock.release (hswitch.trans (Bool.or_true _)) (Bool.or_eq_false_iff.mpr ⟨houtside, rfl⟩),
      forall_update h.apart t fun _ _ => houtside⟩
  | dump hframe =>
    obtain ⟨hhandle, hswitch⟩ := HandlerThread.holds_frame hframe
    exact ⟨h.switch, h.handle.keep hhandle.symm, h.lock.keep hswitch.symm,
      forall_update h.apart t (apart_of_ne (by decide))⟩
  | dumping hframe =>
    obtain ⟨hhandle, hswitch⟩ := HandlerThread.holds_frame hframe
    exact ⟨h.switch, h.handle.keep hhandle.symm, h.lock.keep hswitch.symm,
      forall_update h.apart t (apart_of_ne (by decide))⟩
  | raise hframe =>
    obtain ⟨hhandle, hswitch⟩ := HandlerThread.holds_frame hframe
    exact ⟨h.switch, h.handle.keep hhandle.symm, h.lock.keep hswitch.symm,
      forall_update h.apart t (apart_of_ne (by decide))⟩
  | unlockHandle hframe =>
    obtain ⟨hhandle, hswitch⟩ := HandlerThread.holds_frame hframe
    exact ⟨h.switch, h.handle.release hhandle rfl, h.lock.keep hswitch.symm,
      forall_update h.apart t (apart_of_ne (by decide))⟩
  | sigreturn hframe =>
    obtain ⟨hhandle, hswitch⟩ := HandlerThread.holds_frame hframe
    exact ⟨h.switch, h.handle.keep hhandle.symm, h.lock.keep hswitch.symm,
      forall_update h.apart t (apart_of_none rfl)⟩

theorem signalInv_move {e : SignalEvent T} (h : SignalInv original s) (hstep : SignalMove s e s') :
    SignalInv original s' := by
  cases hstep with
  | @caught t i hruns _ =>
    obtain ⟨hhandle, hswitch⟩ := HandlerThread.holds_running hruns.1
    exact ⟨h.switch, h.handle.keep hhandle.symm,
      h.lock.keep (hswitch.trans (Bool.or_false _).symm).symm,
      forall_update h.apart t (apart_of_ne (by decide))⟩
  | passed _ _ => exact ⟨h.switch, h.handle, h.lock, h.apart⟩
  | @blocked t i f hframe =>
    exact ⟨h.switch, h.handle.keep rfl, h.lock.keep rfl,
      forall_update h.apart t fun i hi => h.apart t i hi⟩
  | @caughtAgain t i hframe _ _ =>
    obtain ⟨hhandle, hswitch⟩ := HandlerThread.holds_running hframe
    exact ⟨h.switch, h.handle.keep hhandle.symm,
      h.lock.keep (hswitch.trans (Bool.or_false _).symm).symm,
      forall_update h.apart t (apart_of_ne (by decide))⟩
  | @handedOver t i hframe _ _ =>
    exact ⟨h.switch, h.handle.keep rfl, h.lock.keep rfl,
      forall_update h.apart t (apart_of_none hframe)⟩
  | handle hhandle => exact signalInv_handle h hhandle
  | @call t c hruns hcall =>
    have hswitch : (s.thread t).holdsSwitch = false := by
      rw [(HandlerThread.holds_running hruns.1).2, hcall]
      rfl
    have hwaits := HandlerThread.holdsSwitch_withCall hruns.1 (.waiting c)
    exact ⟨h.switch, h.handle.keep rfl, h.lock.keep (hwaits.trans hswitch.symm),
      forall_update h.apart t (apart_of_none hruns.1)⟩
  | @enter t c hruns hcall hfree =>
    exact ⟨h.switch, h.handle.keep rfl, (hfree ▸ h.lock).acquire rfl,
      forall_update h.apart t (apart_of_none hruns.1)⟩
  | @leave t c hruns hcall =>
    have hswitch : (s.thread t).holdsSwitch = true := by
      rw [(HandlerThread.holds_running hruns.1).2, hcall]
      rfl
    have hleft := HandlerThread.holdsSwitch_withCall hruns.1 .outside
    exact ⟨switchInv_call h.switch c, h.handle.keep rfl, h.lock.release hswitch hleft,
      forall_update h.apart t (apart_of_none hruns.1)⟩

theorem signalInv_step {e : SignalEvent T} (h : SignalInv original s) (hstep : SignalStep s e s') :
    SignalInv original s' :=
  signalInv_move h hstep.2

end Locks

def defaultActions : OriginalActions Unit where
  action _ := {}
  foreign _ h := by cases h

end Opencore
