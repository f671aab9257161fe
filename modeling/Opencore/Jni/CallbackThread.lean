import Opencore.Machine.Transition

/-! The thread that `penguin_opencore_sdk_coredump_callback` creates to call Java, for any number
of callbacks at once and between the steps of `nativeInit`: who owns which block of memory, and
how often `callbackEvent` is called. -/
namespace Opencore.Jni
open Machine

/-- A block of memory, or the string whose `c_str` is handed over. -/
inductive Block
  | unallocated
  | live
  | freed
  deriving DecidableEq

/-- `penguin_opencore_sdk_coredump_callback`, with `createJavaThread`, `javaCreateThreadEtc` and
`androidCreateRawThreadEtc`. -/
inductive CallerPc
  | idle
  | malloc
  | strdup
  | pthread_create
  | pthread_join
  /-- Back to `Dump`, whose `output` ends. -/
  | returning
  | returned

/-- `javaThreadShell`, with `javaAttachThread` and `docallback`. -/
inductive ThreadPc
  | absent
  | loadArgs
  | freeArgs
  | attach
  | docallback
  | newStringUTF
  | callStaticVoidMethod
  /-- In `callbackEvent`. -/
  | called
  | detach
  | freeName
  | exited
  /-- `return -1` -/
  | unattached
  deriving DecidableEq

/-- The two ends of one callback, and what they share. -/
structure Callback where
  caller : CallerPc := .idle
  thread : ThreadPc := .absent
  path : Block := .unallocated
  args : Block := .unallocated
  name : Block := .unallocated
  /-- A block was used, or freed, that was not live. -/
  faulted : Bool := false

inductive CallbackEvent
  | enter
  | malloc
  | strdup
  | create
  | createFails
  | join
  | leave
  | loadArgs
  | freeArgs
  | attach
  | attachFails
  | found
  /-- `"coredump callback err!"` -/
  | err
  | newStringUTF
  | call
  | callReturns
  | detach
  | freeName
  deriving DecidableEq

/-- `gUser`: which of its members are set. -/
structure UserData where
  gCoredump : Bool := false
  gCallbackEvent : Bool := false

def Callback.touch (c : Callback) (b : Block) : Callback :=
  { c with faulted := c.faulted || b != .live }

/-- One step of the caller or of its thread. -/
inductive CallbackStep (gUser : UserData) (mCallback : Bool) :
    Callback → CallbackEvent → Callback → Prop
  | enter {c : Callback} : c.caller = .idle → mCallback = true →
      CallbackStep gUser mCallback c .enter { c with caller := .malloc, path := .live }
  | malloc {c : Callback} : c.caller = .malloc →
      CallbackStep gUser mCallback c .malloc { c with caller := .strdup, args := .live }
  -- the three members of `args` are stored
  | strdup {c : Callback} : c.caller = .strdup →
      CallbackStep gUser mCallback c .strdup
        { c.touch c.args with caller := .pthread_create, name := .live }
  | create {c : Callback} : c.caller = .pthread_create →
      CallbackStep gUser mCallback c .create
        { c with caller := .pthread_join, thread := .loadArgs }
  -- `thread_id` stays null
  | createFails {c : Callback} : c.caller = .pthread_create →
      CallbackStep gUser mCallback c .createFails { c with caller := .returning }
  | join {c : Callback} : c.caller = .pthread_join → c.thread = .exited ∨ c.thread = .unattached →
      CallbackStep gUser mCallback c .join { c with caller := .returning }
  | leave {c : Callback} : c.caller = .returning →
      CallbackStep gUser mCallback c .leave { c with caller := .returned, path := .freed }
  | loadArgs {c : Callback} : c.thread = .loadArgs →
      CallbackStep gUser mCallback c .loadArgs { c.touch c.args with thread := .freeArgs }
  | freeArgs {c : Callback} : c.thread = .freeArgs →
      CallbackStep gUser mCallback c .freeArgs
        { c.touch c.args with thread := .attach, args := .freed }
  | attach {c : Callback} : c.thread = .attach →
      CallbackStep gUser mCallback c .attach { c.touch c.name with thread := .docallback }
  | attachFails {c : Callback} : c.thread = .attach →
      CallbackStep gUser mCallback c .attachFails { c.touch c.name with thread := .unattached }
  | found {c : Callback} : c.thread = .docallback →
      gUser.gCoredump = true ∧ gUser.gCallbackEvent = true →
      CallbackStep gUser mCallback c .found { c with thread := .newStringUTF }
  | err {c : Callback} : c.thread = .docallback →
      ¬ (gUser.gCoredump = true ∧ gUser.gCallbackEvent = true) →
      CallbackStep gUser mCallback c .err { c with thread := .detach }
  | newStringUTF {c : Callback} : c.thread = .newStringUTF →
      CallbackStep gUser mCallback c .newStringUTF
        { c.touch c.path with thread := .callStaticVoidMethod }
  | call {c : Callback} : c.thread = .callStaticVoidMethod →
      CallbackStep gUser mCallback c .call { c with thread := .called }
  | callReturns {c : Callback} : c.thread = .called →
      CallbackStep gUser mCallback c .callReturns { c with thread := .detach }
  | detach {c : Callback} : c.thread = .detach →
      CallbackStep gUser mCallback c .detach { c with thread := .freeName }
  | freeName {c : Callback} : c.thread = .freeName →
      CallbackStep gUser mCallback c .freeName
        { c.touch c.name with thread := .exited, name := .freed }

/-- `nativeInit` between its calls. -/
inductive InitPc
  | outside
  | registerNatives
  | getStaticMethodID
  | setCallback

structure State (K : Type*) where
  gUser : UserData := {}
  mCallback : Bool := false
  init : InitPc := .outside
  callback : K → Callback := fun _ => {}

inductive Event (K : Type*)
  | callback (k : K) (e : CallbackEvent)
  | newGlobalRef
  | registerNatives
  | registerNativesFails
  | getStaticMethodID
  | getStaticMethodIDFails
  | setCallback
  deriving DecidableEq

/-- A step of one of the callbacks, or of `nativeInit`, which Java calls under a lock. -/
inductive Step {K : Type*} [DecidableEq K] : State K → Event K → State K → Prop
  | callback {s : State K} {k e c} : CallbackStep s.gUser s.mCallback (s.callback k) e c →
      Step s (.callback k e) { s with callback := Function.update s.callback k c }
  | newGlobalRef {s : State K} : s.init = .outside →
      Step s .newGlobalRef
        { s with gUser := { s.gUser with gCoredump := true }, init := .registerNatives }
  | registerNatives {s : State K} : s.init = .registerNatives →
      Step s .registerNatives { s with init := .getStaticMethodID }
  | registerNativesFails {s : State K} : s.init = .registerNatives →
      Step s .registerNativesFails { s with init := .outside }
  | getStaticMethodID {s : State K} : s.init = .getStaticMethodID →
      Step s .getStaticMethodID
        { s with gUser := { s.gUser with gCallbackEvent := true }, init := .setCallback }
  | getStaticMethodIDFails {s : State K} : s.init = .getStaticMethodID →
      Step s .getStaticMethodIDFails
        { s with gUser := { s.gUser with gCallbackEvent := false }, init := .setCallback }
  | setCallback {s : State K} : s.init = .setCallback →
      Step s .setCallback { s with mCallback := true, init := .outside }

section Blocks

/-- The thread is in `javaThreadShell`. -/
def ThreadPc.runs : ThreadPc → Bool
  | absent | exited | unattached => false
  | _ => true

def ThreadPc.checked : ThreadPc → Bool
  | newStringUTF | callStaticVoidMethod | called | detach | freeName | exited => true
  | _ => false

def ThreadPc.calling : ThreadPc → Bool
  | newStringUTF | callStaticVoidMethod => true
  | _ => false

def pathBlock : CallerPc → Block
  | .idle => .unallocated
  | .returned => .freed
  | _ => .live

def argsBlock : CallerPc → ThreadPc → Block
  | .idle, _ | .malloc, _ => .unallocated
  | _, .absent | _, .loadArgs | _, .freeArgs => .live
  | _, _ => .freed

def nameBlock : CallerPc → ThreadPc → Block
  | .idle, _ | .malloc, _ | .strdup, _ => .unallocated
  | _, .exited => .freed
  | _, _ => .live

/-- What the two ends have made of their blocks, wherever they are. -/
def owned (caller : CallerPc) (thread : ThreadPc) : Callback where
  caller := caller
  thread := thread
  path := pathBlock caller
  args := argsBlock caller thread
  name := nameBlock caller thread

/-- Where the thread can be: it runs only while the caller joins it. -/
def Paired : CallerPc → ThreadPc → Prop
  | .pthread_join, pc => pc ≠ .absent
  | .returning, pc | .returned, pc => pc.runs = false
  | _, pc => pc = .absent

def alone : CallerPc → ThreadPc → Bool
  | .returning, .absent | .returned, .absent => true
  | _, _ => false

/-- How often the events that decide about a callback have occurred. -/
structure Counted (n : CallbackEvent → ℕ) (caller : CallerPc) (thread : ThreadPc) : Prop where
  createFails : n .createFails = if alone caller thread then 1 else 0
  attachFails : n .attachFails = if thread = .unattached then 1 else 0
  checked : n .found + n .err = if thread.checked then 1 else 0
  called : n .call + (if thread.calling then 1 else 0) = n .found

/-- One callback after so many events of each kind. -/
structure CallbackInv (n : CallbackEvent → ℕ) (c : Callback) : Prop where
  blocks : c = owned c.caller c.thread
  paired : Paired c.caller c.thread
  counted : Counted n c.caller c.thread

def bump (n : CallbackEvent → ℕ) (e : CallbackEvent) : CallbackEvent → ℕ :=
  fun e' => n e' + if e = e' then 1 else 0

variable {n : CallbackEvent → ℕ} {c c' : Callback} {e : CallbackEvent}

/-- A step of one of the ends from one place to another. -/
theorem CallbackInv.move (h : CallbackInv n c) (caller' : CallerPc) (thread' : ThreadPc)
    {caller : CallerPc} {thread : ThreadPc} (hcaller : c.caller = caller)
    (hthread : c.thread = thread)
    (hnext : c = owned caller thread → c' = owned caller' thread')
    (hpaired : Paired caller thread → Paired caller' thread')
    (hcounted : Counted n caller thread → Counted (bump n e) caller' thread') :
    CallbackInv (bump n e) c' := by
  obtain ⟨hblocks, hpair, hcount⟩ := h
  rw [hcaller, hthread] at hblocks hpair hcount
  obtain rfl := hnext hblocks
  exact ⟨rfl, hpaired hpair, hcounted hcount⟩

theorem CallbackInv.joins (h : CallbackInv n c) {pc : ThreadPc} (hthread : c.thread = pc)
    (hruns : pc.runs = true) : c.caller = .pthread_join := by
  have hpaired := h.paired
  have hpresent : pc ≠ .absent := by
    rintro rfl
    cases hruns
  rw [hthread] at hpaired
  cases hcaller : c.caller with
  | pthread_join => rfl
  | returning =>
    rw [hcaller] at hpaired
    exact absurd (hruns.symm.trans hpaired) nofun
  | returned =>
    rw [hcaller] at hpaired
    exact absurd (hruns.symm.trans hpaired) nofun
  | _ =>
    rw [hcaller] at hpaired
    exact absurd hpaired hpresent

theorem CallbackInv.run (h : CallbackInv n c) (pc' : ThreadPc) {pc : ThreadPc}
    (hthread : c.thread = pc) (hruns : pc.runs = true) (hpresent : pc' ≠ .absent)
    (hnext : c = owned .pthread_join pc → c' = owned .pthread_join pc')
    (hcounted : Counted n .pthread_join pc → Counted (bump n e) .pthread_join pc') :
    CallbackInv (bump n e) c' :=
  h.move .pthread_join pc' (h.joins hthread hruns) hthread hnext (fun _ => hpresent) hcounted

def decisive : List CallbackEvent := [.createFails, .attachFails, .found, .err, .call]

theorem Counted.bump {caller caller' : CallerPc} {thread thread' : ThreadPc}
    (h : Counted n caller thread) (he : e ∉ decisive)
    (halone : alone caller' thread' = alone caller thread)
    (hunattached : thread' = .unattached ↔ thread = .unattached)
    (hchecked : thread'.checked = thread.checked) (hcalling : thread'.calling = thread.calling) :
    Counted (bump n e) caller' thread' := by
  have hn {e' : CallbackEvent} (he' : e' ∈ decisive) : Jni.bump n e e' = n e' := by
    have hne : e ≠ e' := fun heq => he (heq ▸ he')
    rw [Jni.bump, if_neg hne, Nat.add_zero]
  refine ⟨?_, ?_, ?_, ?_⟩
  · rw [hn (by decide), halone, h.createFails]
  · rw [hn (by decide), h.attachFails]
    simp only [hunattached]
  · rw [hn (by decide), hn (by decide), hchecked, h.checked]
  · rw [hn (by decide), hn (by decide), hcalling, h.called]

/-- A callback that has returned has had one of four outcomes, and this is what it leaves. -/
theorem CallbackInv.returned (h : CallbackInv n c) (hreturned : c.caller = .returned) :
    n .call + n .createFails + n .attachFails + n .err = 1 ∧ c.path = .freed ∧
      (c.args = .live ↔ 0 < n .createFails) ∧
      (c.name = .live ↔ 0 < n .createFails ∨ 0 < n .attachFails) := by
  obtain ⟨hblocks, hpaired, hcreate, hattach, hchecked, hcalled⟩ := h
  rw [hreturned] at hblocks hpaired hcreate
  have hpath : c.path = .freed := congrArg Callback.path hblocks
  have hargs : c.args = argsBlock .returned c.thread := congrArg Callback.args hblocks
  have hname : c.name = nameBlock .returned c.thread := congrArg Callback.name hblocks
  rw [hargs, hname]
  cases hthread : c.thread with
  | absent =>
    rw [hthread] at hcreate hattach hchecked hcalled
    change n .createFails = 1 at hcreate
    change n .attachFails = 0 at hattach
    change n .found + n .err = 0 at hchecked
    change n .call = n .found at hcalled
    exact ⟨by omega, hpath, iff_of_true rfl (by omega), iff_of_true rfl (by omega)⟩
  | exited =>
    rw [hthread] at hcreate hattach hchecked hcalled
    change n .createFails = 0 at hcreate
    change n .attachFails = 0 at hattach
    change n .found + n .err = 1 at hchecked
    change n .call = n .found at hcalled
    exact ⟨by omega, hpath, iff_of_false nofun (by omega), iff_of_false nofun (by omega)⟩
  | unattached =>
    rw [hthread] at hcreate hattach hchecked hcalled
    change n .createFails = 0 at hcreate
    change n .attachFails = 1 at hattach
    change n .found + n .err = 0 at hchecked
    change n .call = n .found at hcalled
    exact ⟨by omega, hpath, iff_of_false nofun (by omega), iff_of_true rfl (by omega)⟩
  | _ =>
    rw [hthread] at hpaired
    cases hpaired

end Blocks

section Callbacks

variable {K : Type*} [DecidableEq K] {s t : State K}

/-- How often a callback has made a step of each kind. -/
def countOf (events : List (Event K)) (k : K) (e : CallbackEvent) : ℕ :=
  events.count (.callback k e)

/-- All callbacks, and what `nativeInit` has set, after these events. -/
structure JniInv (past : List (Event K)) (s : State K) : Prop where
  callbacks : ∀ k, CallbackInv (countOf past k) (s.callback k)
  gCoredump : s.mCallback = true ∨ s.init ≠ .outside → s.gUser.gCoredump = true
  gCallbackEvent : s.mCallback = true ∨ s.init = .setCallback →
    s.gUser.gCallbackEvent = true ∨ .getStaticMethodIDFails ∈ past
  entered : ∀ k, (s.callback k).caller ≠ .idle → s.mCallback = true
  errs : ∀ k, .callback k .err ∈ past → .getStaticMethodIDFails ∈ past

theorem CallbackStep.entered {gUser : UserData} {mCallback : Bool} {c c' : Callback}
    {e : CallbackEvent} (hstep : CallbackStep gUser mCallback c e c') (h : c'.caller ≠ .idle) :
    c.caller ≠ .idle ∨ mCallback = true := by
  have hfrom {pc : CallerPc} (hs : c.caller = pc) (hpc : pc ≠ .idle) : c.caller ≠ .idle :=
    hs.trans_ne hpc
  cases hstep with
  | enter _ hset => exact Or.inr hset
  | malloc hs => exact Or.inl (hfrom hs nofun)
  | strdup hs => exact Or.inl (hfrom hs nofun)
  | create hs => exact Or.inl (hfrom hs nofun)
  | createFails hs => exact Or.inl (hfrom hs nofun)
  | join hs _ => exact Or.inl (hfrom hs nofun)
  | leave hs => exact Or.inl (hfrom hs nofun)
  | _ => exact Or.inl h

/-- `docallback` finds `gUser` incomplete only where the method has not been found. -/
theorem JniInv.err {past : List (Event K)} (h : JniInv past s) {k : K} {c : Callback}
    (hstep : CallbackStep s.gUser s.mCallback (s.callback k) .err c) :
    .getStaticMethodIDFails ∈ past := by
  cases hstep with
  | err hthread hset =>
    have hcaller := (h.callbacks k).joins hthread rfl
    have hcallback : s.mCallback = true := h.entered k (hcaller.trans_ne nofun)
    have hcoredump := h.gCoredump (Or.inl hcallback)
    exact (h.gCallbackEvent (Or.inl hcallback)).resolve_left fun hfound =>
      hset ⟨hcoredump, hfound⟩

end Callbacks

end Opencore.Jni
