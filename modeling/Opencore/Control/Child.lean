import Opencore.Machine.Transition
import Opencore.Dumper.Rounds

/-! The child that `Coredump` forks: the calls of `DoCoredump` and of `Finish` one by one, with
the alarm between any two of them. -/
namespace Opencore
open Machine Elf

variable {a : Arch}

/-- The calls of `DoCoredump` that stop no thread. -/
inductive MemberCall
  | Prepare
  | ParseProcessMapsVma
  | CreateCoreHeader
  | CreateCoreNoteHeader
  | CreateCorePrStatus
  | CreateCoreAUXV
  | SpecialCoreFilter
  | WriteCoreHeader
  | WriteCoreNoteHeader
  | WriteCoreProgramHeaders
  | WriteCorePrStatus
  | WriteCoreAUXV
  | WriteNtFile
  | AlignNoteSegment
  | WriteCoreLoadSegment

/-- The calls of `DoCoredump`, with those of `StopTheWorld` and `StopTheThread`. -/
inductive DumpCall
  | member (call : MemberCall)
  | fopen
  | opendir
  | readdir (entries : List Tid)
  | attach (tid : Tid)
  | push_back (ts : ThreadRecord)
  | waitpid (tid : Tid)
  | closedir
  | fflush
  | fsync
  | fclose

inductive ResetCall
  | prstatus
  | auxv
  | phdr
  | file
  /-- The scratch buffer, which is not part of the state. -/
  | zero
  | maps
  | setContext
  | setSignalInfo

/-- The calls of `Finish`, with those of `Continue`. -/
inductive FinishCall
  | reset (call : ResetCall)
  /-- The loop of `Continue` at an index. -/
  | detach (index : ℕ)
  | clearThreads

/-- The calls that are still ahead in the function that runs. -/
inductive ChildStage
  | doCoredump (calls : List DumpCall)
  | finish (calls : List FinishCall)
  | exited

structure ChildState (a : Arch) where
  d : Dumper a
  fp : FILE
  stage : ChildStage
  /-- `SIGALRM` has arrived; the alarm rings once. -/
  rung : Bool := false
  /-- The threads whose `PTRACE_ATTACH` succeeded, and those whose failed. -/
  attached : List Tid := []
  failed : List Tid := []
  /-- The threads for which `PTRACE_DETACH` has been issued. -/
  detached : List Tid := []

/-- `DoCoredump` behind `StopTheWorld`, up to the end of the last segment. -/
def memberCalls : List MemberCall :=
  [.ParseProcessMapsVma, .CreateCoreHeader, .CreateCoreNoteHeader, .CreateCorePrStatus,
    .CreateCoreAUXV, .SpecialCoreFilter, .WriteCoreHeader, .WriteCoreNoteHeader,
    .WriteCoreProgramHeaders, .WriteCorePrStatus, .WriteCoreAUXV, .WriteNtFile,
    .AlignNoteSegment, .WriteCoreLoadSegment]

def dumpCalls : List DumpCall :=
  .member .Prepare :: .fopen :: .opendir ::
    (memberCalls.map DumpCall.member ++ [.fflush, .fsync, .fclose])

/-- `Finish` of the architecture, of its class and of the base class. -/
def finishCalls : List FinishCall :=
  [.reset .prstatus, .reset .auxv, .reset .phdr, .reset .file, .reset .zero, .detach 0,
    .clearThreads, .reset .maps, .reset .setContext, .reset .setSignalInfo]

/-- `none` is an index out of range, or a fault in a filter. -/
def MemberCall.perform (view : ProcessView a) (d : Dumper a) (fp : FILE) :
    MemberCall → Option (Dumper a × FILE)
  | Prepare => some (prepare d, fp)
  | ParseProcessMapsVma => some (parseProcessMapsVma d view.maps, fp)
  | CreateCoreHeader => some (createCoreHeader d, fp)
  | CreateCoreNoteHeader => some (createCoreNoteHeader d, fp)
  | CreateCorePrStatus => (createCorePrStatus d view.prstatus).map (·, fp)
  | CreateCoreAUXV => some (createCoreAUXV d view.auxv, fp)
  | SpecialCoreFilter => (specialCoreFilter d view.files).map (·, fp)
  | WriteCoreHeader => some (d, writeCoreHeader d fp)
  | WriteCoreNoteHeader => some (writeCoreNoteHeader d fp)
  | WriteCoreProgramHeaders => some (writeCoreProgramHeaders d fp)
  | WriteCorePrStatus => some (d, writeCorePrStatus d view fp)
  | WriteCoreAUXV => some (d, writeCoreAUXV d fp)
  | WriteNtFile => some (d, writeNtFile d fp)
  | AlignNoteSegment => some (d, alignNoteSegment d fp)
  | WriteCoreLoadSegment => some (d, writeCoreLoadSegment d view.mem fp)

def ResetCall.perform (d : Dumper a) : ResetCall → Dumper a
  | prstatus => { d with prstatus := [] }
  | auxv => { d with auxv := [] }
  | phdr => { d with phdr := [] }
  | file => { d with file := [] }
  | zero => d
  | maps => { d with maps := [] }
  | setContext => d.setContext none
  | setSignalInfo => d.setSignalInfo none

inductive ChildEvent
  | member
  | fopen
  | fopenFails
  | opendir
  | opendirFails
  | readdir
  | readdirEnds
  | attach
  | attachFails
  | push_back
  | waitpid
  | closedir
  | fflush
  | fsync
  | fclose
  | returned
  | reset
  | detach
  | detachEnds
  | clearThreads
  | exit
  | alarm

def ChildEvent.isCall : ChildEvent → Bool
  | alarm => false
  | _ => true

/-- One call, or the alarm. `TimeoutHandle` runs `Finish` from its beginning and exits, so what
it has interrupted does not go on. -/
inductive ChildStep (view : ProcessView a) (plan : ℕ → WriteResult) :
    ChildState a → ChildEvent → ChildState a → Prop
  | member {s : ChildState a} {call rest d fp} : s.stage = .doCoredump (.member call :: rest) →
      call.perform view s.d s.fp = some (d, fp) →
      ChildStep view plan s .member { s with d := d, fp := fp, stage := .doCoredump rest }
  | fopen {s : ChildState a} {rest} : s.stage = .doCoredump (.fopen :: rest) →
      ChildStep view plan s .fopen { s with fp := FILE.create plan, stage := .doCoredump rest }
  | fopenFails {s : ChildState a} {rest} : s.stage = .doCoredump (.fopen :: rest) →
      ChildStep view plan s .fopenFails { s with stage := .doCoredump [] }
  -- `StopTheWorld`
  | opendir {s : ChildState a} {rest} : s.stage = .doCoredump (.opendir :: rest) →
      ChildStep view plan s .opendir
        { s with stage := .doCoredump (.readdir view.tasks :: .closedir :: rest) }
  | opendirFails {s : ChildState a} {rest} : s.stage = .doCoredump (.opendir :: rest) →
      ChildStep view plan s .opendirFails { s with stage := .doCoredump rest }
  | readdir {s : ChildState a} {tid entries rest} :
      s.stage = .doCoredump (.readdir (tid :: entries) :: rest) →
      ChildStep view plan s .readdir
        { s with stage := .doCoredump (.attach tid :: .readdir entries :: rest) }
  | readdirEnds {s : ChildState a} {rest} : s.stage = .doCoredump (.readdir [] :: rest) →
      ChildStep view plan s .readdirEnds { s with stage := .doCoredump rest }
  -- `StopTheThread`
  | attach {s : ChildState a} {tid rest} : s.stage = .doCoredump (.attach tid :: rest) →
      view.attach tid = true →
      ChildStep view plan s .attach
        { s with
          stage := .doCoredump (.push_back ⟨tid, true⟩ :: .waitpid tid :: rest)
          attached := tid :: s.attached }
  | attachFails {s : ChildState a} {tid rest} : s.stage = .doCoredump (.attach tid :: rest) →
      view.attach tid = false →
      ChildStep view plan s .attachFails
        { s with
          stage := .doCoredump (.push_back ⟨tid, false⟩ :: rest)
          failed := tid :: s.failed }
  | push_back {s : ChildState a} {ts rest} : s.stage = .doCoredump (.push_back ts :: rest) →
      ChildStep view plan s .push_back
        { s with d := { s.d with threads := s.d.threads ++ [ts] }, stage := .doCoredump rest }
  -- whatever it returns, `StopTheWorld` goes on
  | waitpid {s : ChildState a} {tid rest} : s.stage = .doCoredump (.waitpid tid :: rest) →
      ChildStep view plan s .waitpid { s with stage := .doCoredump rest }
  | closedir {s : ChildState a} {rest} : s.stage = .doCoredump (.closedir :: rest) →
      ChildStep view plan s .closedir { s with stage := .doCoredump rest }
  | fflush {s : ChildState a} {rest} : s.stage = .doCoredump (.fflush :: rest) →
      ChildStep view plan s .fflush { s with stage := .doCoredump rest }
  | fsync {s : ChildState a} {rest} : s.stage = .doCoredump (.fsync :: rest) →
      ChildStep view plan s .fsync { s with stage := .doCoredump rest }
  | fclose {s : ChildState a} {rest} : s.stage = .doCoredump (.fclose :: rest) →
      ChildStep view plan s .fclose { s with stage := .doCoredump rest }
  | returned {s : ChildState a} : s.stage = .doCoredump [] →
      ChildStep view plan s .returned { s with stage := .finish finishCalls }
  | reset {s : ChildState a} {call rest} : s.stage = .finish (.reset call :: rest) →
      ChildStep view plan s .reset { s with d := call.perform s.d, stage := .finish rest }
  -- `Continue`
  | detach {s : ChildState a} {index ts rest} : s.stage = .finish (.detach index :: rest) →
      s.d.threads[index]? = some ts →
      ChildStep view plan s .detach
        { s with
          stage := .finish (.detach (index + 1) :: rest)
          detached := if ts.attached then ts.pid :: s.detached else s.detached }
  | detachEnds {s : ChildState a} {index rest} : s.stage = .finish (.detach index :: rest) →
      s.d.threads[index]? = none →
      ChildStep view plan s .detachEnds { s with stage := .finish rest }
  | clearThreads {s : ChildState a} {rest} : s.stage = .finish (.clearThreads :: rest) →
      ChildStep view plan s .clearThreads
        { s with d := { s.d with threads := [] }, stage := .finish rest }
  | exit {s : ChildState a} : s.stage = .finish [] →
      ChildStep view plan s .exit { s with stage := .exited }
  | alarm {s : ChildState a} : s.stage ≠ .exited → s.rung = false →
      ChildStep view plan s .alarm { s with stage := .finish finishCalls, rung := true }

/-- The child behind `alarm(getTimeout())`. -/
def ChildState.initial (d : Dumper a) (plan : ℕ → WriteResult) : ChildState a where
  d := d
  fp := FILE.create plan
  stage := .doCoredump dumpCalls

section Quiet

variable {view : ProcessView a} {plan : ℕ → WriteResult}

/-- A run without the alarm leads from the one state to the other. -/
def Quietly (view : ProcessView a) (plan : ℕ → WriteResult) (s t : ChildState a) : Prop :=
  ∃ events, Run (fun s e t => ChildStep view plan s e t ∧ e.isCall = true) s events t

theorem Quietly.step {s t u : ChildState a} {e : ChildEvent} (hstep : ChildStep view plan s e t)
    (he : e.isCall = true) (h : Quietly view plan t u) : Quietly view plan s u := by
  obtain ⟨events, hrun⟩ := h
  exact ⟨e :: events, .cons ⟨hstep, he⟩ hrun⟩

theorem Quietly.refl (s : ChildState a) : Quietly view plan s s := ⟨[], .nil s⟩

theorem Quietly.trans {s t u : ChildState a} (h : Quietly view plan s t)
    (h' : Quietly view plan t u) : Quietly view plan s u := by
  obtain ⟨events, hrun⟩ := h
  obtain ⟨events', hrun'⟩ := h'
  exact ⟨events ++ events', hrun.append hrun'⟩

variable (view plan)

/-- The loop of `StopTheWorld` records every entry with the outcome of its `PTRACE_ATTACH`. -/
theorem quietly_readdir (entries : List Tid) {rest : List DumpCall} {s : ChildState a}
    (hstage : s.stage = .doCoredump (.readdir entries :: rest)) :
    ∃ t, Quietly view plan s t ∧ t.stage = .doCoredump rest ∧ t.fp = s.fp ∧
      t.d = entries.foldl (fun d tid => stopTheThread d view.attach tid) s.d := by
  induction entries generalizing s with
  | nil => exact ⟨_, .step (.readdirEnds hstage) rfl (.refl _), rfl, rfl, rfl⟩
  | cons tid entries ih =>
    cases hattach : view.attach tid with
    | true =>
      obtain ⟨t, hquiet, hend, hfp, hd⟩ := ih
        (s := { s with
          d := stopTheThread s.d view.attach tid
          stage := .doCoredump (.readdir entries :: rest)
          attached := tid :: s.attached }) rfl
      refine ⟨t, ?_, hend, hfp, hd⟩
      refine .step (.readdir hstage) rfl (.step (.attach rfl hattach) rfl ?_)
      refine .step (.push_back rfl) rfl (.step (.waitpid rfl) rfl ?_)
      rw [stopTheThread, hattach] at hquiet
      exact hquiet
    | false =>
      obtain ⟨t, hquiet, hend, hfp, hd⟩ := ih
        (s := { s with
          d := stopTheThread s.d view.attach tid
          stage := .doCoredump (.readdir entries :: rest)
          failed := tid :: s.failed }) rfl
      refine ⟨t, ?_, hend, hfp, hd⟩
      refine .step (.readdir hstage) rfl (.step (.attachFails rfl hattach) rfl ?_)
      refine .step (.push_back rfl) rfl ?_
      rw [stopTheThread, hattach] at hquiet
      exact hquiet

theorem quietly_members (calls : List MemberCall) {rest : List DumpCall} {s : ChildState a}
    {d : Dumper a} {fp : FILE} (hstage : s.stage = .doCoredump (calls.map .member ++ rest))
    (hperform : calls.foldlM (fun p call => call.perform view p.1 p.2) (s.d, s.fp) =
      some (d, fp)) :
    Quietly view plan s { s with d := d, fp := fp, stage := .doCoredump rest } := by
  induction calls generalizing s with
  | nil =>
    obtain ⟨rfl, rfl⟩ := Prod.mk.inj (Option.some.inj hperform)
    obtain ⟨d, fp, stage⟩ := s
    obtain rfl : stage = .doCoredump rest := hstage
    exact .refl _
  | cons call calls ih =>
    rw [List.foldlM_cons, Option.bind_eq_bind, Option.bind_eq_some_iff] at hperform
    obtain ⟨⟨d₁, fp₁⟩, hcall, hrest⟩ := hperform
    exact .step (.member hstage hcall) rfl
      (ih (s := { s with d := d₁, fp := fp₁, stage := .doCoredump (calls.map .member ++ rest) })
        rfl hrest)

theorem quietly_detach (count : ℕ) {index : ℕ} {rest : List FinishCall} {s : ChildState a}
    (hcount : s.d.threads.length - index = count)
    (hstage : s.stage = .finish (.detach index :: rest)) :
    ∃ t, Quietly view plan s t ∧ t.stage = .finish rest ∧ t.fp = s.fp ∧ t.d = s.d := by
  induction count generalizing index s with
  | zero =>
    have hnone : s.d.threads[index]? = none := List.getElem?_eq_none_iff.mpr (by omega)
    exact ⟨_, .step (.detachEnds hstage hnone) rfl (.refl _), rfl, rfl, rfl⟩
  | succ count ih =>
    have hsome := List.getElem?_eq_getElem (l := s.d.threads) (i := index) (by omega)
    obtain ⟨t, hquiet, hend, hfp, hd⟩ := ih
      (s := { s with
        stage := .finish (.detach (index + 1) :: rest)
        detached := if s.d.threads[index].attached then s.d.threads[index].pid :: s.detached
          else s.detached })
      (show s.d.threads.length - (index + 1) = count by omega) rfl
    exact ⟨t, .step (.detach hstage hsome) rfl hquiet, hend, hfp, hd⟩

theorem quietly_resets (calls : List ResetCall) {rest : List FinishCall} {s : ChildState a}
    (hstage : s.stage = .finish (calls.map .reset ++ rest)) :
    Quietly view plan s
      { s with d := calls.foldl ResetCall.perform s.d, stage := .finish rest } := by
  induction calls generalizing s with
  | nil =>
    obtain ⟨d, fp, stage⟩ := s
    obtain rfl : stage = .finish rest := hstage
    exact .refl _
  | cons call calls ih =>
    exact .step (.reset hstage) rfl
      (ih (s := { s with d := call.perform s.d, stage := .finish (calls.map .reset ++ rest) })
        rfl)

theorem quietly_finish {s : ChildState a} (hstage : s.stage = .finish finishCalls) :
    ∃ t, Quietly view plan s t ∧ t.stage = .exited ∧ t.fp = s.fp ∧ t.d = s.d.finish := by
  have hbefore := quietly_resets view plan [.prstatus, .auxv, .phdr, .file, .zero] hstage
  obtain ⟨t, hdetach, hend, hfp, hd⟩ := quietly_detach view plan _
    (s := { s with
      d := [.prstatus, .auxv, .phdr, .file, .zero].foldl ResetCall.perform s.d
      stage := .finish (finishCalls.drop 5) }) rfl rfl
  have hbehind := quietly_resets view plan [.maps, .setContext, .setSignalInfo]
    (s := { t with d := { t.d with threads := [] }, stage := .finish (finishCalls.drop 7) }) rfl
  refine ⟨_, hbefore.trans (hdetach.trans (.step (.clearThreads hend) rfl
    (hbehind.trans (.step (.exit rfl) rfl (.refl _))))), rfl, hfp, ?_⟩
  show [ResetCall.maps, .setContext, .setSignalInfo].foldl ResetCall.perform
    { t.d with threads := [] } = s.d.finish
  rw [hd]
  rfl

theorem foldlM_memberCalls (d : Dumper a) :
    memberCalls.foldlM (fun p call => call.perform view p.1 p.2)
      (stopTheWorld (prepare d) view, FILE.create plan) = doCoredump d view plan := by
  rw [doCoredump_eq, collect_gather]
  cases hpr : createCorePrStatus (gather d view) view.prstatus with
  | none =>
    rw [gather] at hpr
    simp [memberCalls, MemberCall.perform, hpr]
  | some d' =>
    rw [gather] at hpr
    cases hfilter : specialCoreFilter (createCoreAUXV d' view.auxv) view.files with
    | none => simp [memberCalls, MemberCall.perform, hpr, hfilter]
    | some d'' =>
      simp [memberCalls, MemberCall.perform, hpr, hfilter, writeCore, writeHeaders, writeNotes]

/-- Without the alarm the child dumps what `doCoredump` says, and finishes. -/
theorem child_dumps {d d' : Dumper a} {fp : FILE} (h : doCoredump d view plan = some (d', fp)) :
    ∃ t, Quietly view plan (ChildState.initial d plan) t ∧ t.stage = .exited ∧ t.fp = fp ∧
      t.d = d'.finish := by
  rw [← foldlM_memberCalls view plan] at h
  let ends : List DumpCall := [.fflush, .fsync, .fclose]
  let entered : ChildState a := { ChildState.initial d plan with
    d := prepare d
    stage := .doCoredump (.readdir view.tasks :: .closedir :: memberCalls.map .member ++ ends) }
  have hentered : Quietly view plan (ChildState.initial d plan) entered :=
    .step (.member rfl rfl) rfl (.step (.fopen rfl) rfl (.step (.opendir rfl) rfl (.refl _)))
  obtain ⟨t, hstop, hstage, hfp, hd⟩ :=
    quietly_readdir view plan view.tasks (s := entered) rfl
  have hmembers := quietly_members view plan memberCalls
    (s := { t with stage := .doCoredump (memberCalls.map .member ++ ends) }) rfl
    (by rw [hd, hfp]; exact h)
  obtain ⟨u, hfinish, hexit, hfp', hd'⟩ := quietly_finish view plan
    (s := { t with d := d', fp := fp, stage := .finish finishCalls }) rfl
  refine ⟨u, ?_, hexit, hfp', hd'⟩
  have hends : Quietly view plan { t with d := d', fp := fp, stage := .doCoredump ends } u :=
    .step (.fflush rfl) rfl (.step (.fsync rfl) rfl (.step (.fclose rfl) rfl
      (.step (.returned rfl) rfl hfinish)))
  exact hentered.trans (hstop.trans (.step (.closedir hstage) rfl (hmembers.trans hends)))

end Quiet

end Opencore
