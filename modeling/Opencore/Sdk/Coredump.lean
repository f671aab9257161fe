import Opencore.Machine.Transition

/-! `Coredump.java` after `init`: the threads that call it, `opencore-bg`, the `opencore-cb`
threads and `opencore-post`. A read and a write of `mCondition` are steps of their own. -/
namespace Opencore.Sdk
open Machine

/-- The public methods of `Coredump`; `L` are the listeners. -/
inductive Method (L : Type*)
  | getInstance
  | isReady
  | init
  | enable
  | disable
  | isEnabled
  | doCoredump
  | setCoreDir
  | setCoreFlag
  | setCoreTimeout
  | setCoreFilter
  | getCoreDir
  | getCoreFlag
  | getCoreTimeout
  | getCoreFilter
  | getVersion
  | setListener (listener : Option L)
  | coreFlagToString
  | coreFilterToString
  | toString

/-- `T` are the threads of the application. -/
inductive Caller (T : Type*)
  | app (t : T)
  | post
  deriving DecidableEq

/-- `mCondition`, which is `STANDBY` when neither bit is set. -/
structure Condition where
  COREDUMPED : Bool := false
  COREDUMP_COMPLETED : Bool := false
  deriving DecidableEq

/-- Where a thread is in a synchronized method. -/
inductive CallStage (L : Type*)
  | outside
  /-- At the monitor. -/
  | calling (method : Method L)
  /-- In a method other than `doCoredump`, with the monitor. -/
  | inside
  | doCoredump
  /-- It has read `mCondition`, to clear `COREDUMPED`. -/
  | read (c : Condition)
  | cleared
  /-- In `waitCore`, after its message. -/
  | waitCore (msg : ℕ)

/-- Where `opencore-bg` is with a message. -/
inductive WorkerStage (K : Type*)
  | idle
  | nativeCoredump (msg : ℕ)
  | join (msg : ℕ) (callback : K)
  | returned (msg : ℕ)
  /-- In `notifyCore`, with `mLock`. -/
  | notifyCore (msg : ℕ) (c : Condition)

/-- Where an `opencore-cb` thread is in `doCompleted`. -/
inductive CallbackStage
  | unborn
  | doCompleted
  | listened
  /-- It has read `mCondition`, to clear `COREDUMP_COMPLETED`. -/
  | read (c : Condition)
  | cleared
  | waitCompleted
  | finished (result : Bool)

/-- Where `opencore-post` is with the message of a callback. -/
inductive PostStage (L K : Type*)
  | idle
  /-- `onCompleted` has found a listener, and is about to read `mListener` again. -/
  | checked (callback : K)
  | onCompleted (callback : K) (todo : List (Method L))
  | returned (callback : K)
  /-- In `notifyCompleted`, with `mLock`. -/
  | notifyCompleted (callback : K) (c : Condition)
  /-- Gone, with the `NullPointerException` of the second read. -/
  | thrown (callback : K)

namespace Method

variable {L : Type*}

def synchronized : Method L → Bool
  | init => true
  | enable => true
  | disable => true
  | isEnabled => true
  | doCoredump => true
  | _ => false

/-- `mListener` after a method that is not synchronized. -/
def listener (mListener : Option L) : Method L → Option L
  | setListener listener => listener
  | _ => mListener

/-- Where a synchronized method is once it has the monitor. -/
def entered : Method L → CallStage L
  | doCoredump => .doCoredump
  | _ => .inside

end Method

def CallStage.holdsMonitor {L : Type*} : CallStage L → Bool
  | outside => false
  | calling _ => false
  | _ => true

def WorkerStage.holdsLock {K : Type*} : WorkerStage K → Bool
  | notifyCore _ _ => true
  | _ => false

def PostStage.holdsLock {L K : Type*} : PostStage L K → Bool
  | notifyCompleted _ _ => true
  | _ => false

/-- The instance, its handlers' queues and its threads. Messages of `doCoredump` are numbered,
and those of `doCompleted` named by the callback. -/
structure State (T L K : Type*) where
  mCondition : Condition := {}
  monitor : Option (Caller T) := none
  mListener : Option L := none
  stage : Caller T → CallStage L := fun _ => .outside
  next : ℕ := 0
  coredumpWork : List ℕ := []
  worker : WorkerStage K := .idle
  callback : K → CallbackStage := fun _ => .unborn
  coredumpPostWork : List K := []
  post : PostStage L K := .idle
  /-- The messages for which `nativeCoredump` has returned. -/
  nativeReturned : List ℕ := []
  /-- The callbacks for which `onCompleted` of a listener has returned. -/
  delivered : List K := []
  /-- What the calls of `doCoredump` have returned, by their messages. -/
  results : List (ℕ × Bool) := []

inductive Event (T L K : Type*)
  | call (t : T) (method : Method L)
  | setListener (listener : Option L)
  | enter (a : Caller T)
  | leave (a : Caller T)
  | readCore (a : Caller T)
  | clearCore (a : Caller T)
  | sendCore (a : Caller T)
  | coreSeen (a : Caller T)
  | coreInterrupted (a : Caller T)
  | handleCore
  | startCallback (k : K)
  | noCallback
  | joined
  | lockCore
  | notifyCore
  | crash (k : K)
  | noListener (k : K)
  | listener (k : K)
  | readCompleted (k : K)
  | clearCompleted (k : K)
  | sendCompleted (k : K)
  | completedSeen (k : K)
  | completedInterrupted (k : K)
  | handleCompleted
  | handleNoListener
  | callListener
  | nullListener
  | listenerCalls
  | listenerEnters
  | listenerReturns
  | lockCompleted
  | notifyCompleted

variable {T L K : Type*}

namespace State

/-- No thread is in a critical section of `mLock`; those in `wait` have released it. -/
def LockFree (s : State T L K) : Prop :=
  s.worker.holdsLock = false ∧ s.post.holdsLock = false

variable [DecidableEq T] [DecidableEq K]

def setStage (s : State T L K) (a : Caller T) (stage : CallStage L) : State T L K :=
  { s with stage := Function.update s.stage a stage }

def setCallback (s : State T L K) (k : K) (stage : CallbackStage) : State T L K :=
  { s with callback := Function.update s.callback k stage }

end State

variable [DecidableEq T] [DecidableEq K]

/-- `onCompleted` tells which methods a listener calls for a callback before it returns. -/
inductive Step (onCompleted : L → K → List (Method L)) :
    State T L K → Event T L K → State T L K → Prop
  | call {s t method} : s.stage (.app t) = .outside → method.synchronized = true →
      Step onCompleted s (.call t method) (s.setStage (.app t) (.calling method))
  | setListener {s listener} :
      Step onCompleted s (.setListener listener) { s with mListener := listener }
  -- the monitor of `Coredump`
  | enter {s a method} : s.stage a = .calling method → s.monitor = none →
      Step onCompleted s (.enter a) { s.setStage a method.entered with monitor := some a }
  | leave {s a} : s.stage a = .inside →
      Step onCompleted s (.leave a) { s.setStage a .outside with monitor := none }
  -- `doCoredump` and `waitCore`
  | readCore {s a} : s.stage a = .doCoredump →
      Step onCompleted s (.readCore a) (s.setStage a (.read s.mCondition))
  | clearCore {s a c} : s.stage a = .read c →
      Step onCompleted s (.clearCore a)
        { s.setStage a .cleared with mCondition := { c with COREDUMPED := false } }
  | sendCore {s a} : s.stage a = .cleared →
      Step onCompleted s (.sendCore a)
        { s.setStage a (.waitCore s.next) with
          next := s.next + 1
          coredumpWork := s.coredumpWork ++ [s.next] }
  | coreSeen {s a msg} : s.stage a = .waitCore msg → s.LockFree →
      s.mCondition.COREDUMPED = true →
      Step onCompleted s (.coreSeen a)
        { s.setStage a .outside with monitor := none, results := (msg, true) :: s.results }
  | coreInterrupted {s a msg} : s.stage a = .waitCore msg → s.LockFree →
      Step onCompleted s (.coreInterrupted a)
        { s.setStage a .outside with monitor := none, results := (msg, false) :: s.results }
  -- `OpencoreHandler.handleMessage`
  | handleCore {s msg rest} : s.worker = .idle → s.coredumpWork = msg :: rest →
      Step onCompleted s .handleCore
        { s with worker := .nativeCoredump msg, coredumpWork := rest }
  | startCallback {s msg k} : s.worker = .nativeCoredump msg → s.callback k = .unborn →
      Step onCompleted s (.startCallback k)
        { s.setCallback k .doCompleted with worker := .join msg k }
  | noCallback {s msg} : s.worker = .nativeCoredump msg →
      Step onCompleted s .noCallback
        { s with worker := .returned msg, nativeReturned := msg :: s.nativeReturned }
  | joined {s msg k result} : s.worker = .join msg k → s.callback k = .finished result →
      Step onCompleted s .joined
        { s with worker := .returned msg, nativeReturned := msg :: s.nativeReturned }
  | lockCore {s msg} : s.worker = .returned msg → s.LockFree →
      Step onCompleted s .lockCore { s with worker := .notifyCore msg s.mCondition }
  | notifyCore {s msg c} : s.worker = .notifyCore msg c →
      Step onCompleted s .notifyCore
        { s with worker := .idle, mCondition := { c with COREDUMPED := true } }
  -- `callbackEvent`, for the dump of a crash as well
  | crash {s k} : s.callback k = .unborn →
      Step onCompleted s (.crash k) (s.setCallback k .doCompleted)
  | noListener {s k} : s.callback k = .doCompleted → s.mListener = none →
      Step onCompleted s (.noListener k) (s.setCallback k (.finished true))
  | listener {s k l} : s.callback k = .doCompleted → s.mListener = some l →
      Step onCompleted s (.listener k) (s.setCallback k .listened)
  | readCompleted {s k} : s.callback k = .listened →
      Step onCompleted s (.readCompleted k) (s.setCallback k (.read s.mCondition))
  | clearCompleted {s k c} : s.callback k = .read c →
      Step onCompleted s (.clearCompleted k)
        { s.setCallback k .cleared with mCondition := { c with COREDUMP_COMPLETED := false } }
  | sendCompleted {s k} : s.callback k = .cleared →
      Step onCompleted s (.sendCompleted k)
        { s.setCallback k .waitCompleted with coredumpPostWork := s.coredumpPostWork ++ [k] }
  | completedSeen {s k} : s.callback k = .waitCompleted → s.LockFree →
      s.mCondition.COREDUMP_COMPLETED = true →
      Step onCompleted s (.completedSeen k) (s.setCallback k (.finished true))
  | completedInterrupted {s k} : s.callback k = .waitCompleted → s.LockFree →
      Step onCompleted s (.completedInterrupted k) (s.setCallback k (.finished false))
  -- `OpencorePostHandler.handleMessage`
  | handleCompleted {s k rest l} : s.post = .idle → s.coredumpPostWork = k :: rest →
      s.mListener = some l →
      Step onCompleted s .handleCompleted
        { s with post := .checked k, coredumpPostWork := rest }
  | handleNoListener {s k rest} : s.post = .idle → s.coredumpPostWork = k :: rest →
      s.mListener = none →
      Step onCompleted s .handleNoListener
        { s with post := .returned k, coredumpPostWork := rest }
  | callListener {s k l} : s.post = .checked k → s.mListener = some l →
      Step onCompleted s .callListener { s with post := .onCompleted k (onCompleted l k) }
  | nullListener {s k} : s.post = .checked k → s.mListener = none →
      Step onCompleted s .nullListener { s with post := .thrown k }
  | listenerCalls {s k method todo} : s.post = .onCompleted k (method :: todo) →
      s.stage .post = .outside → method.synchronized = false →
      Step onCompleted s .listenerCalls
        { s with post := .onCompleted k todo, mListener := method.listener s.mListener }
  | listenerEnters {s k method todo} : s.post = .onCompleted k (method :: todo) →
      s.stage .post = .outside → method.synchronized = true →
      Step onCompleted s .listenerEnters
        { s.setStage .post (.calling method) with post := .onCompleted k todo }
  | listenerReturns {s k} : s.post = .onCompleted k [] → s.stage .post = .outside →
      Step onCompleted s .listenerReturns
        { s with post := .returned k, delivered := k :: s.delivered }
  | lockCompleted {s k} : s.post = .returned k → s.LockFree →
      Step onCompleted s .lockCompleted { s with post := .notifyCompleted k s.mCondition }
  | notifyCompleted {s k c} : s.post = .notifyCompleted k c →
      Step onCompleted s .notifyCompleted
        { s with post := .idle, mCondition := { c with COREDUMP_COMPLETED := true } }

end Opencore.Sdk
