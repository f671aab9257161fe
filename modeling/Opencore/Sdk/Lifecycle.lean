import Opencore.Machine.Mutex
import Opencore.Machine.Transition
import Opencore.Control.Singleton

/-! `init` of `Coredump.java` on any number of threads, with the methods that look at `sReady`
before they use what `init` sets up. -/
namespace Opencore.Sdk
open Machine

variable {a : Arch} {T : Type*}

/-- An argument of a setter, or a result of a getter; a null directory is `none`. -/
inductive Setting
  | dir (dir : Option Bytes)
  | flag (flag : BitVec 32)
  | timeout (sec : BitVec 32)
  | filter (filter : BitVec 32)

inductive Getter
  | getCoreDir
  | getCoreFlag
  | getCoreTimeout
  | getCoreFilter

/-- A method that does nothing unless the SDK is ready. -/
inductive Request
  | set (setting : Setting)
  | get (getter : Getter)
  /-- `sendEvent` in `doCoredump`. -/
  | send
  /-- Another native: of the synchronized `enable`, `disable` and `isEnabled`, or of `getVersion`
  and `toString`. -/
  | other (synchronized : Bool)

def Request.synchronized : Request → Bool
  | set _ | get _ => false
  | send => true
  | other b => b

/-- The native call of a setter. -/
def Setting.call : Setting → Option (Call a)
  | .dir none => none
  | .dir (some d) => some (.SetDir d)
  | .flag f => some (.SetFlag f)
  | .timeout sec => some (.SetTimeout sec)
  | .filter f => some (.SetFilter f)

def Getter.native (d : Dumper a) : Getter → Setting
  | getCoreDir => .dir (some d.dir)
  | getCoreFlag => .flag d.flag
  | getCoreTimeout => .timeout d.timeout
  | getCoreFilter => .filter d.filter

def Getter.default : Getter → Setting
  | getCoreDir => .dir (some [])
  | getCoreFlag => .flag 0
  | getCoreTimeout => .timeout DEF_TIMEOUT
  | getCoreFilter => .filter FILTER_NONE

/-- Where a thread is in `init`, or behind `isReady()` of another method. -/
inductive SetupPc
  | outside
  | admitted (request : Request)
  | entered
  | nativeInit
  | core
  | post
  | ready

/-- With the monitor of the instance; `init` is synchronized as well. -/
def SetupPc.holds : SetupPc → Bool
  | outside => false
  | admitted request => request.synchronized
  | _ => true

structure SetupFlags where
  /-- `RegisterNatives` has succeeded. -/
  registered : Bool := false
  mCoredumpWork : Bool := false
  mCoredumpPostWork : Bool := false
  sReady : Bool := false

structure SetupState (a : Arch) (T : Type*) where
  flags : SetupFlags := {}
  dumper : Dumper a
  monitor : Option T := none
  thread : T → SetupPc := fun _ => .outside
  /-- A native was called that is not registered, or a message sent to a null handler. -/
  faulted : Bool := false

inductive SetupEvent
  | enter
  | alreadyDone (result : Bool)
  | begin
  /-- The library is missing, which `init` catches. -/
  | linkError (result : Bool)
  | nativeInitFails
  | nativeInit
  | newCore
  | keepCore
  /-- The handler thread cannot be started, which `init` does not catch. -/
  | coreThrows
  | newPost
  | keepPost
  | postThrows
  | ready
  | refuse (request : Request)
  | isReady (request : Request)
  | set (setting : Setting)
  | get (getter : Getter) (result : Setting)
  | send
  | other (synchronized : Bool)

variable [DecidableEq T]

def SetupState.goTo (s : SetupState a T) (t : T) (pc : SetupPc) : SetupState a T :=
  { s with thread := Function.update s.thread t pc }

def SetupState.leave (s : SetupState a T) (t : T) : SetupState a T :=
  { s.goTo t .outside with monitor := none }

def SetupState.runSetting (s : SetupState a T) (setting : Setting) : SetupState a T :=
  match setting.call with
  | none => s
  | some call =>
    { s with dumper := call.run s.dumper, faulted := s.faulted || !s.flags.registered }

inductive SetupStep : SetupState a T → SetupEvent → SetupState a T → Prop
  | enter {s : SetupState a T} {t} : s.thread t = .outside → s.monitor = none →
      SetupStep s .enter { s.goTo t .entered with monitor := some t }
  | alreadyDone {s : SetupState a T} {t} : s.thread t = .entered →
      s.flags.mCoredumpWork = true ∧ s.flags.mCoredumpPostWork = true →
      SetupStep s (.alreadyDone s.flags.sReady) (s.leave t)
  | begin {s : SetupState a T} {t} : s.thread t = .entered →
      ¬ (s.flags.mCoredumpWork = true ∧ s.flags.mCoredumpPostWork = true) →
      SetupStep s .begin (s.goTo t .nativeInit)
  | linkError {s : SetupState a T} {t} : s.thread t = .nativeInit →
      SetupStep s (.linkError s.flags.sReady) (s.leave t)
  | nativeInitFails {s : SetupState a T} {t} : s.thread t = .nativeInit →
      SetupStep s .nativeInitFails (s.leave t)
  | nativeInit {s : SetupState a T} {t} : s.thread t = .nativeInit →
      SetupStep s .nativeInit { s.goTo t .core with flags := { s.flags with registered := true } }
  | newCore {s : SetupState a T} {t} : s.thread t = .core → s.flags.mCoredumpWork = false →
      SetupStep s .newCore { s.goTo t .post with flags := { s.flags with mCoredumpWork := true } }
  | keepCore {s : SetupState a T} {t} : s.thread t = .core → s.flags.mCoredumpWork = true →
      SetupStep s .keepCore (s.goTo t .post)
  | coreThrows {s : SetupState a T} {t} : s.thread t = .core → s.flags.mCoredumpWork = false →
      SetupStep s .coreThrows (s.leave t)
  | newPost {s : SetupState a T} {t} : s.thread t = .post → s.flags.mCoredumpPostWork = false →
      SetupStep s .newPost
        { s.goTo t .ready with flags := { s.flags with mCoredumpPostWork := true } }
  | keepPost {s : SetupState a T} {t} : s.thread t = .post → s.flags.mCoredumpPostWork = true →
      SetupStep s .keepPost (s.goTo t .ready)
  | postThrows {s : SetupState a T} {t} : s.thread t = .post → s.flags.mCoredumpPostWork = false →
      SetupStep s .postThrows (s.leave t)
  | ready {s : SetupState a T} {t} : s.thread t = .ready →
      SetupStep s .ready { s.leave t with flags := { s.flags with sReady := true } }
  | refuse {s : SetupState a T} {t request} : s.thread t = .outside → s.flags.sReady = false →
      (request.synchronized = true → s.monitor = none) →
      SetupStep s (.refuse request) s
  | isReady {s : SetupState a T} {t request} : s.thread t = .outside → s.flags.sReady = true →
      request.synchronized = false →
      SetupStep s (.isReady request) (s.goTo t (.admitted request))
  | admitLocked {s : SetupState a T} {t request} : s.thread t = .outside →
      s.flags.sReady = true → request.synchronized = true → s.monitor = none →
      SetupStep s (.isReady request) { s.goTo t (.admitted request) with monitor := some t }
  | set {s : SetupState a T} {t setting} : s.thread t = .admitted (.set setting) →
      SetupStep s (.set setting) ((s.goTo t .outside).runSetting setting)
  | get {s : SetupState a T} {t getter} : s.thread t = .admitted (.get getter) →
      SetupStep s (.get getter (getter.native s.dumper))
        { s.goTo t .outside with faulted := s.faulted || !s.flags.registered }
  | send {s : SetupState a T} {t} : s.thread t = .admitted .send →
      SetupStep s .send { s.leave t with faulted := s.faulted || !s.flags.mCoredumpWork }
  | other {s : SetupState a T} {t} : s.thread t = .admitted (.other false) →
      SetupStep s (.other false)
        { s.goTo t .outside with faulted := s.faulted || !s.flags.registered }
  | otherLocked {s : SetupState a T} {t} : s.thread t = .admitted (.other true) →
      SetupStep s (.other true) { s.leave t with faulted := s.faulted || !s.flags.registered }

section Invariant

/-- What a thread can rely on at this place. -/
def SetupPc.Knows (flags : SetupFlags) : SetupPc → Prop
  | admitted _ => flags.sReady = true
  | nativeInit => flags.sReady = false
  | core => flags.sReady = false ∧ flags.registered = true
  | post => flags.sReady = false ∧ flags.registered = true ∧ flags.mCoredumpWork = true
  | ready => flags.sReady = false ∧ flags.registered = true ∧ flags.mCoredumpWork = true ∧
      flags.mCoredumpPostWork = true
  | _ => True

/-- Without the monitor it relies on nothing that can be lost. -/
theorem SetupPc.Knows.mono {pc : SetupPc} {flags flags' : SetupFlags} (h : pc.Knows flags)
    (hpc : pc.holds = false) (hready : flags.sReady = true → flags'.sReady = true) :
    pc.Knows flags' := by
  cases pc with
  | outside => trivial
  | admitted request => exact hready h
  | _ => cases hpc

/-- The order in which `init` sets things up. -/
structure SetupFlags.Ordered (flags : SetupFlags) : Prop where
  sReady : flags.sReady = true → flags.mCoredumpWork = true ∧ flags.mCoredumpPostWork = true
  mCoredumpPostWork : flags.mCoredumpPostWork = true → flags.mCoredumpWork = true
  mCoredumpWork : flags.mCoredumpWork = true → flags.registered = true

structure SetupInv (s : SetupState a T) : Prop where
  guards : Guards s.monitor SetupPc.holds s.thread
  knows : ∀ t, (s.thread t).Knows s.flags
  ordered : s.flags.Ordered
  both : s.flags.mCoredumpPostWork = true → s.flags.sReady = true ∨ ∃ t, s.thread t = .ready
  faulted : s.faulted = false
  timeout : 0 < s.dumper.timeout.toInt

variable {s s' : SetupState a T} {t : T} {e : SetupEvent}

theorem exists_ready {pc : SetupPc} (hready : s.thread t ≠ .ready)
    (h : ∃ u, s.thread u = .ready) : ∃ u, Function.update s.thread t pc u = .ready := by
  obtain ⟨u, hu⟩ := h
  have hut : u ≠ t := fun heq => hready (heq ▸ hu)
  exact ⟨u, (Function.update_of_ne hut _ _).trans hu⟩

theorem setupInv_update (pc' : SetupPc)
    (hguards : Guards s'.monitor SetupPc.holds (Function.update s.thread t pc'))
    (hknows : pc'.Knows s'.flags) (hothers : ∀ u, u ≠ t → (s.thread u).Knows s'.flags)
    (hordered : s'.flags.Ordered)
    (hboth : s'.flags.mCoredumpPostWork = true → s'.flags.sReady = true ∨
      ∃ u, Function.update s.thread t pc' u = .ready)
    (hthread : s'.thread = Function.update s.thread t pc') (hfaulted : s'.faulted = false)
    (htimeout : 0 < s'.dumper.timeout.toInt) : SetupInv s' where
  guards := hthread ▸ hguards
  knows := by
    intro u
    rw [hthread]
    rcases update_eq_cases (rfl : Function.update s.thread t pc' u = _) with
      ⟨-, hown⟩ | ⟨hut, hother⟩
    · exact hown ▸ hknows
    · exact hother ▸ hothers u hut
  ordered := hordered
  both := hthread ▸ hboth
  faulted := hfaulted
  timeout := htimeout

theorem SetupInv.sameFlags (h : SetupInv s) (pc' : SetupPc) {pc : SetupPc}
    (ht : s.thread t = pc) (hready : pc ≠ .ready)
    (hguards : Guards s'.monitor SetupPc.holds (Function.update s.thread t pc'))
    (hknows : pc'.Knows s.flags) (hthread : s'.thread = Function.update s.thread t pc')
    (hflags : s'.flags = s.flags) (hfaulted : s'.faulted = false)
    (htimeout : 0 < s'.dumper.timeout.toInt) : SetupInv s' := by
  have hboth (hpost : s.flags.mCoredumpPostWork = true) :
      s.flags.sReady = true ∨ ∃ u, Function.update s.thread t pc' u = .ready :=
    (h.both hpost).imp_right (exists_ready (ht ▸ hready))
  rw [← hflags] at hknows hboth
  exact setupInv_update pc' hguards hknows (fun u _ => hflags ▸ h.knows u) (hflags ▸ h.ordered)
    hboth hthread hfaulted htimeout

omit [DecidableEq T] in
theorem SetupInv.known (h : SetupInv s) {pc : SetupPc} (ht : s.thread t = pc) :
    pc.Knows s.flags :=
  ht ▸ h.knows t

omit [DecidableEq T] in
/-- What the other threads rely on outlasts a step of the one with the monitor. -/
theorem SetupInv.others (h : SetupInv s) {pc : SetupPc} (ht : s.thread t = pc)
    (hholds : pc.holds = true) {flags : SetupFlags}
    (hready : s.flags.sReady = true → flags.sReady = true) (u : T) (hut : u ≠ t) :
    (s.thread u).Knows flags := by
  refine (h.knows u).mono ?_ hready
  by_contra hu
  exact hut (h.guards.exclusive (Bool.eq_true_of_not_eq_false hu) (ht ▸ hholds))

theorem SetupInv.leave (h : SetupInv s) {pc : SetupPc} (ht : s.thread t = pc)
    (hholds : pc.holds = true) (hready : pc ≠ .ready) : SetupInv (s.leave t) :=
  h.sameFlags .outside ht hready (h.guards.release (ht ▸ hholds) rfl) trivial rfl rfl h.faulted
    h.timeout

omit [DecidableEq T] in
/-- A request that has been admitted finds what it needs. -/
theorem SetupInv.served (h : SetupInv s) {request : Request} (ht : s.thread t = .admitted request) :
    (s.faulted || !s.flags.registered) = false ∧
      (s.faulted || !s.flags.mCoredumpWork) = false := by
  have hready : s.flags.sReady = true := h.known ht
  have hwork := (h.ordered.sReady hready).1
  rw [h.faulted, hwork, h.ordered.mCoredumpWork hwork]
  exact ⟨rfl, rfl⟩

theorem timeout_call {d : Dumper a} (h : 0 < d.timeout.toInt) (call : Call a) :
    0 < (call.run d).timeout.toInt := by
  cases call with
  | SetDir dir => exact h
  | SetFlag flag => exact h
  | SetTimeout sec =>
    rw [Call.run]
    split_ifs with hsec
    · exact hsec
    · exact h
  | SetFilter filter => exact h
  | Dump option =>
    cases option with
    | none => exact h
    | some option =>
      rw [Call.run]
      split_ifs
      · exact h
      · rw [applyOption_eq]
        exact h

omit [DecidableEq T] in
theorem timeout_runSetting (h : 0 < s.dumper.timeout.toInt) (setting : Setting) :
    0 < (s.runSetting setting).dumper.timeout.toInt := by
  rw [SetupState.runSetting]
  cases setting.call with
  | none => exact h
  | some call => exact timeout_call h call

theorem setupInv_set (h : SetupInv s) {setting : Setting}
    (ht : s.thread t = .admitted (.set setting)) :
    SetupInv ((s.goTo t .outside).runSetting setting) := by
  have hserved := (h.served ht).1
  have htimeout : 0 < ((s.goTo t .outside).runSetting setting).dumper.timeout.toInt :=
    timeout_runSetting (s := s.goTo t .outside) h.timeout setting
  have hguards : Guards s.monitor SetupPc.holds (Function.update s.thread t .outside) :=
    h.guards.keep (by rw [ht]; rfl)
  rw [SetupState.runSetting] at htimeout ⊢
  cases hcall : (setting.call : Option (Call a)) with
  | none => exact h.sameFlags .outside ht nofun hguards trivial rfl rfl h.faulted h.timeout
  | some call =>
    rw [hcall] at htimeout
    exact h.sameFlags .outside ht nofun hguards trivial rfl rfl hserved htimeout

theorem setupInv_step (h : SetupInv s) (hstep : SetupStep s e s') : SetupInv s' := by
  cases hstep with
  | enter ht hfree =>
    have hguards := h.guards
    rw [hfree] at hguards
    exact h.sameFlags .entered ht nofun (hguards.acquire rfl) trivial rfl rfl h.faulted h.timeout
  | alreadyDone ht _ => exact h.leave ht rfl nofun
  | begin ht hnot =>
    have hready : s.flags.sReady = false :=
      Bool.eq_false_of_not_eq_true fun hready => hnot (h.ordered.sReady hready)
    exact h.sameFlags .nativeInit ht nofun (h.guards.keep (by rw [ht]; rfl)) hready rfl rfl
      h.faulted h.timeout
  | linkError ht => exact h.leave ht rfl nofun
  | nativeInitFails ht => exact h.leave ht rfl nofun
  | @nativeInit t ht =>
    have hknows := h.known ht
    exact setupInv_update .core (h.guards.keep (by rw [ht]; rfl)) ⟨hknows, rfl⟩
      (h.others ht rfl id) ⟨h.ordered.sReady, h.ordered.mCoredumpPostWork, fun _ => rfl⟩
      (fun hpost => (h.both hpost).imp_right (exists_ready (ht ▸ nofun))) rfl h.faulted h.timeout
  | @newCore t ht hnull =>
    have hknows := h.known ht
    exact setupInv_update .post (h.guards.keep (by rw [ht]; rfl)) ⟨hknows.1, hknows.2, rfl⟩
      (h.others ht rfl id)
      ⟨fun hready => absurd (hknows.1.symm.trans hready) nofun, fun _ => rfl, fun _ => hknows.2⟩
      (fun hpost => (h.both hpost).imp_right (exists_ready (ht ▸ nofun))) rfl h.faulted h.timeout
  | @keepCore t ht hset =>
    have hknows := h.known ht
    exact h.sameFlags .post ht nofun (h.guards.keep (by rw [ht]; rfl)) ⟨hknows.1, hknows.2, hset⟩
      rfl rfl h.faulted h.timeout
  | coreThrows ht _ => exact h.leave ht rfl nofun
  | @newPost t ht hnull =>
    have hknows := h.known ht
    obtain ⟨hready, hregistered, hwork⟩ := hknows
    exact setupInv_update .ready (h.guards.keep (by rw [ht]; rfl))
      ⟨hready, hregistered, hwork, rfl⟩ (h.others ht rfl id)
      ⟨fun hset => absurd (hready.symm.trans hset) nofun, fun _ => hwork, fun _ => hregistered⟩
      (fun _ => Or.inr ⟨t, Function.update_self _ _ _⟩) rfl h.faulted h.timeout
  | @keepPost t ht hset =>
    have hknows := h.known ht
    obtain ⟨hready, hregistered, hwork⟩ := hknows
    exact h.sameFlags .ready ht nofun (h.guards.keep (by rw [ht]; rfl))
      ⟨hready, hregistered, hwork, hset⟩ rfl rfl h.faulted h.timeout
  | postThrows ht _ => exact h.leave ht rfl nofun
  | @ready t ht =>
    have hknows := h.known ht
    obtain ⟨-, hregistered, hwork, hpost⟩ := hknows
    exact setupInv_update .outside (h.guards.release (by rw [ht]; rfl) rfl) trivial
      (h.others ht rfl fun _ => rfl) ⟨fun _ => ⟨hwork, hpost⟩, fun _ => hwork, fun _ => hregistered⟩
      (fun _ => Or.inl rfl) rfl h.faulted h.timeout
  | refuse _ _ _ => exact h
  | isReady ht hready hsync =>
    exact h.sameFlags (.admitted _) ht nofun (h.guards.keep (by rw [ht]; exact hsync)) hready rfl
      rfl h.faulted h.timeout
  | admitLocked ht hready hsync hfree =>
    have hguards := h.guards
    rw [hfree] at hguards
    exact h.sameFlags (.admitted _) ht nofun (hguards.acquire hsync) hready rfl rfl h.faulted
      h.timeout
  | set ht => exact setupInv_set h ht
  | get ht =>
    exact h.sameFlags .outside ht nofun (h.guards.keep (by rw [ht]; rfl)) trivial rfl rfl
      (h.served ht).1 h.timeout
  | send ht =>
    exact h.sameFlags .outside ht nofun (h.guards.release (by rw [ht]; rfl) rfl) trivial rfl rfl
      (h.served ht).2 h.timeout
  | other ht =>
    exact h.sameFlags .outside ht nofun (h.guards.keep (by rw [ht]; rfl)) trivial rfl rfl
      (h.served ht).1 h.timeout
  | otherLocked ht =>
    exact h.sameFlags .outside ht nofun (h.guards.release (by rw [ht]; rfl) rfl) trivial rfl rfl
      (h.served ht).1 h.timeout

end Invariant

section History

/-- The native of a setter that got through. -/
def SetupEvent.calls : SetupEvent → List (Call a)
  | set setting => setting.call.toList
  | _ => []

def nativeSettings (events : List SetupEvent) : List (Call a) := events.flatMap SetupEvent.calls

/-- What an event tells about the events before it, where `first` is the dumper as it was
constructed. -/
def SetupEvent.Answers (first : Dumper a) (past : List SetupEvent) : SetupEvent → Prop
  | alreadyDone result => result = true ∧ .ready ∈ past
  | linkError result => result = false ∧ .ready ∉ past
  | nativeInitFails | coreThrows | postThrows | ready => .ready ∉ past
  | newCore => .newCore ∉ past
  | newPost => .newPost ∉ past
  | refuse request => .ready ∉ past ∧ ∀ getter, request = .get getter →
      (getter.default = getter.native (runCalls first (nativeSettings past)) ↔
        getter ≠ .getCoreFlag)
  | isReady _ | set _ | send | other _ => .ready ∈ past
  | get getter result => .ready ∈ past ∧
      result = getter.native (runCalls first (nativeSettings past)) ∧
      ∀ sec, result = .timeout sec → 0 < sec.toInt
  | _ => True

structure SetupPast (first : Dumper a) (past : List SetupEvent) (s : SetupState a T) : Prop where
  inv : SetupInv s
  dumper : s.dumper = runCalls first (nativeSettings past)
  sReady : s.flags.sReady = true ↔ .ready ∈ past
  mCoredumpWork : s.flags.mCoredumpWork = true ↔ .newCore ∈ past
  mCoredumpPostWork : s.flags.mCoredumpPostWork = true ↔ .newPost ∈ past
  /-- No setter gets through before. -/
  settings : .ready ∉ past → (nativeSettings past : List (Call a)) = []

variable {pageSize : ℕ} {first : Dumper a} {past : List SetupEvent} {s s' : SetupState a T}
  {e : SetupEvent}

theorem nativeSettings_append (past : List SetupEvent) (e : SetupEvent) :
    (nativeSettings (past ++ [e]) : List (Call a)) = nativeSettings past ++ e.calls := by
  rw [nativeSettings, List.flatMap_append, List.flatMap_singleton, nativeSettings]

omit [DecidableEq T] in
theorem runSetting_flags (s : SetupState a T) (setting : Setting) :
    (s.runSetting setting).flags = s.flags := by
  rw [SetupState.runSetting]
  cases setting.call <;> rfl

omit [DecidableEq T] in
theorem runSetting_dumper (s : SetupState a T) (setting : Setting) :
    (s.runSetting setting).dumper = runCalls s.dumper setting.call.toList := by
  rw [SetupState.runSetting]
  cases setting.call <;> rfl

theorem SetupStep.sReady_iff (hstep : SetupStep s e s') :
    s'.flags.sReady = true ↔ s.flags.sReady = true ∨ e = .ready := by
  cases hstep with
  | set ht =>
    rw [runSetting_flags]
    simp [SetupState.goTo]
  | _ => simp [SetupState.goTo, SetupState.leave]

theorem SetupStep.mCoredumpWork_iff (hstep : SetupStep s e s') :
    s'.flags.mCoredumpWork = true ↔ s.flags.mCoredumpWork = true ∨ e = .newCore := by
  cases hstep with
  | set ht =>
    rw [runSetting_flags]
    simp [SetupState.goTo]
  | _ => simp [SetupState.goTo, SetupState.leave]

theorem SetupStep.mCoredumpPostWork_iff (hstep : SetupStep s e s') :
    s'.flags.mCoredumpPostWork = true ↔ s.flags.mCoredumpPostWork = true ∨ e = .newPost := by
  cases hstep with
  | set ht =>
    rw [runSetting_flags]
    simp [SetupState.goTo]
  | _ => simp [SetupState.goTo, SetupState.leave]

theorem SetupStep.dumper_eq (hstep : SetupStep s e s') :
    s'.dumper = runCalls s.dumper e.calls := by
  cases hstep with
  | set ht => exact runSetting_dumper _ _
  | _ => rfl

omit [DecidableEq T] in
/-- `init` finds both handlers only after it has set `sReady`. -/
theorem SetupInv.alreadyDone (h : SetupInv s) {t : T} (ht : s.thread t = .entered)
    (hpost : s.flags.mCoredumpPostWork = true) : s.flags.sReady = true := by
  rcases h.both hpost with hready | ⟨u, hu⟩
  · exact hready
  · have huser : u = t := h.guards.exclusive (by rw [hu]; rfl) (by rw [ht]; rfl)
    rw [huser, ht] at hu
    cases hu

/-- The Java defaults are those of the native side, the flag apart. -/
theorem default_eq_iff (a : Arch) (pageSize : ℕ) (getter : Getter) :
    getter.default = getter.native (Dumper.new a pageSize) ↔ getter ≠ .getCoreFlag := by
  cases getter with
  | getCoreFlag =>
    refine iff_of_false (fun h => absurd (Setting.flag.inj h) ?_) (· rfl)
    change (0 : BitVec 32) ≠ FLAG_CORE ||| FLAG_PID ||| FLAG_PROCESS_COMM ||| FLAG_TIMESTAMP
    decide
  | _ => exact iff_of_true rfl nofun

omit [DecidableEq T] in
theorem setupPast_new (a : Arch) (pageSize : ℕ) :
    SetupPast (Dumper.new a pageSize) []
      ({ dumper := Dumper.new a pageSize } : SetupState a T) where
  inv := by
    refine ⟨fun t => iff_of_false nofun Bool.false_ne_true, fun t => trivial, ⟨nofun, nofun, nofun⟩,
      nofun, rfl, ?_⟩
    change 0 < DEF_TIMEOUT.toInt
    decide
  dumper := rfl
  sReady := iff_of_false Bool.false_ne_true List.not_mem_nil
  mCoredumpWork := iff_of_false Bool.false_ne_true List.not_mem_nil
  mCoredumpPostWork := iff_of_false Bool.false_ne_true List.not_mem_nil
  settings := fun _ => rfl

theorem SetupPast.answers (hfirst : first = Dumper.new a pageSize) (h : SetupPast first past s)
    (hstep : SetupStep s e s') : e.Answers first past := by
  have hnot : s.flags.sReady = false → .ready ∉ past := fun hready hmem =>
    Bool.false_ne_true (hready.symm.trans (h.sReady.mpr hmem))
  cases hstep with
  | alreadyDone ht hboth =>
    have hready := h.inv.alreadyDone ht hboth.2
    exact ⟨hready, h.sReady.mp hready⟩
  | @linkError t ht =>
    have hready := h.inv.known ht
    exact ⟨hready, hnot hready⟩
  | @nativeInitFails t ht =>
    have hready := h.inv.known ht
    exact hnot hready
  | @newCore t ht hnull =>
    exact fun hmem => Bool.false_ne_true (hnull.symm.trans (h.mCoredumpWork.mpr hmem))
  | @coreThrows t ht _ =>
    have hready := h.inv.known ht
    exact hnot hready.1
  | @newPost t ht hnull =>
    exact fun hmem => Bool.false_ne_true (hnull.symm.trans (h.mCoredumpPostWork.mpr hmem))
  | @postThrows t ht _ =>
    have hready := h.inv.known ht
    exact hnot hready.1
  | @ready t ht =>
    have hready := h.inv.known ht
    exact hnot hready.1
  | refuse ht hready _ =>
    refine ⟨hnot hready, fun getter _ => ?_⟩
    rw [h.settings (hnot hready), hfirst]
    exact default_eq_iff a pageSize getter
  | isReady ht hready _ => exact h.sReady.mp hready
  | admitLocked ht hready _ _ => exact h.sReady.mp hready
  | @set t setting ht =>
    have hready := h.inv.known ht
    exact h.sReady.mp hready
  | @get t getter ht =>
    have hready := h.inv.known ht
    refine ⟨h.sReady.mp hready, h.dumper ▸ rfl, fun sec hsec => ?_⟩
    cases getter with
    | getCoreTimeout =>
      obtain rfl := Setting.timeout.inj hsec
      exact h.inv.timeout
    | _ => cases hsec
  | @send t ht =>
    have hready := h.inv.known ht
    exact h.sReady.mp hready
  | @other t ht =>
    have hready := h.inv.known ht
    exact h.sReady.mp hready
  | @otherLocked t ht =>
    have hready := h.inv.known ht
    exact h.sReady.mp hready
  | enter _ _ => trivial
  | begin _ _ => trivial
  | nativeInit _ => trivial
  | keepCore _ _ => trivial
  | keepPost _ _ => trivial

theorem SetupPast.step (hfirst : first = Dumper.new a pageSize) (h : SetupPast first past s)
    (hstep : SetupStep s e s') : SetupPast first (past ++ [e]) s' where
  inv := setupInv_step h.inv hstep
  dumper := by
    rw [hstep.dumper_eq, h.dumper, nativeSettings_append, runCalls, runCalls, runCalls,
      List.foldl_append]
  sReady := by
    rw [hstep.sReady_iff, h.sReady, List.mem_append, List.mem_singleton, eq_comm (a := e)]
  mCoredumpWork := by
    rw [hstep.mCoredumpWork_iff, h.mCoredumpWork, List.mem_append, List.mem_singleton,
      eq_comm (a := e)]
  mCoredumpPostWork := by
    rw [hstep.mCoredumpPostWork_iff, h.mCoredumpPostWork, List.mem_append, List.mem_singleton,
      eq_comm (a := e)]
  settings := by
    intro hready
    have hpast : .ready ∉ past := fun hmem => hready (List.mem_append_left _ hmem)
    have hanswers := h.answers hfirst hstep
    rw [nativeSettings_append, h.settings hpast]
    cases e with
    | set setting => exact absurd hanswers hpast
    | _ => rfl

/-- However many threads call `init`, and however often it fails in between, each handler is
created once and `sReady` is set once. No method reaches a native or a handler before that, and
from then on `init` returns true. A getter that is let through returns what the setters let
through before it have made of the constructed object, a positive timeout among them. -/
theorem init_contract {events : List SetupEvent}
    (hrun : Run SetupStep ({ dumper := Dumper.new a pageSize } : SetupState a T) events s) :
    s.faulted = false ∧ ∀ before e after, events = before ++ e :: after →
      e.Answers (Dumper.new a pageSize) before := by
  have hpast {events : List SetupEvent} {s : SetupState a T}
      (hrun : Run SetupStep { dumper := Dumper.new a pageSize } events s) :
      SetupPast (Dumper.new a pageSize) events s :=
    hrun.history (fun _ _ _ _ h hstep => h.step rfl hstep) (setupPast_new a pageSize)
  refine ⟨(hpast hrun).inv.faulted, ?_⟩
  intro before e after hsplit
  rw [hsplit] at hrun
  obtain ⟨t, hbefore, hrest⟩ := hrun.of_append
  cases hrest with
  | cons hstep _ => exact (hpast hbefore).answers rfl hstep

/-- The second handler thread cannot be started at first. -/
def retriedEvents : List SetupEvent :=
  [.refuse (.get .getCoreTimeout), .enter, .begin, .nativeInit, .newCore, .postThrows, .enter,
    .begin, .nativeInit, .keepCore, .newPost, .ready, .isReady (.set (.timeout 30)),
    .set (.timeout 30), .isReady (.set (.timeout 0)), .set (.timeout 0),
    .isReady (.get .getCoreTimeout)]

theorem init_contract_retried : ∃ s : SetupState .arm64 Unit,
    Run SetupStep { dumper := Dumper.new .arm64 4096 }
      (retriedEvents ++ [.get .getCoreTimeout (.timeout 30)]) s ∧ s.faulted = false ∧
    SetupEvent.Answers (Dumper.new .arm64 4096) retriedEvents
      (.get .getCoreTimeout (.timeout 30)) := by
  obtain ⟨s, hrun⟩ : ∃ s : SetupState .arm64 Unit, Run SetupStep
      { dumper := Dumper.new .arm64 4096 }
      (retriedEvents ++ [.get .getCoreTimeout (.timeout 30)]) s :=
    ⟨_, .cons (.refuse (t := ()) rfl rfl nofun) <| .cons (.enter (t := ()) rfl rfl) <|
      .cons (.begin (t := ()) rfl nofun) <| .cons (.nativeInit (t := ()) rfl) <|
      .cons (.newCore (t := ()) rfl rfl) <| .cons (.postThrows (t := ()) rfl rfl) <|
      .cons (.enter (t := ()) rfl rfl) <| .cons (.begin (t := ()) rfl nofun) <|
      .cons (.nativeInit (t := ()) rfl) <| .cons (.keepCore (t := ()) rfl rfl) <|
      .cons (.newPost (t := ()) rfl rfl) <| .cons (.ready (t := ()) rfl) <|
      .cons (.isReady (t := ()) rfl rfl rfl) <| .cons (.set (t := ()) rfl) <|
      .cons (.isReady (t := ()) rfl rfl rfl) <| .cons (.set (t := ()) rfl) <|
      .cons (.isReady (t := ()) rfl rfl rfl) <| .cons (.get (t := ()) rfl) <| .nil _⟩
  have hcontract := init_contract hrun
  exact ⟨s, hrun, hcontract.1, hcontract.2 retriedEvents _ [] rfl⟩

end History

end Opencore.Sdk
