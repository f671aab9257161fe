import Opencore.Control.Singleton
import Opencore.Machine.Transition

/-! Calls of `Dump` on the one dumper object that overlap in time. -/
namespace Opencore
open Machine

variable {a : Arch}

inductive Setter
  | setPid
  | setTid
  | setSignalInfo
  | setContext
  deriving DecidableEq

def Setter.index : Setter → ℕ
  | setPid => 0
  | setTid => 1
  | setSignalInfo => 2
  | setContext => 3

/-- One setter call; that of `setContext` comes after a test of the filter. -/
def Setter.apply (option : DumpOption a) (d : Dumper a) : Setter → Dumper a
  | setPid => d.setPid option.pid
  | setTid => d.setTid option.tid
  | setSignalInfo => d.setSignalInfo option.siginfo
  | setContext => if has d.filter FILTER_SIGNAL_CONTEXT then d.setContext option.context else d

/-- The object holds what this setter stores for the option. -/
def Setter.Shows (option : DumpOption a) (d : Dumper a) : Setter → Prop
  | setPid => d.pid = option.pid
  | setTid => d.tid = option.tid
  | setSignalInfo => d.siginfo = option.siginfo
  | setContext => has d.filter FILTER_SIGNAL_CONTEXT = true → d.ucontext_raw = option.context

/-- Both options have this setter store the same. -/
def Setter.Agrees (filter : BitVec 32) (option option' : DumpOption a) : Setter → Prop
  | setPid => option.pid = option'.pid
  | setTid => option.tid = option'.tid
  | setSignalInfo => option.siginfo = option'.siginfo
  | setContext => has filter FILTER_SIGNAL_CONTEXT = true → option.context = option'.context

/-- A call has made a number of its setter calls, or has forked a child with a copy of the
object. -/
inductive DumpProgress (a : Arch)
  | publishing (done : ℕ)
  | forked (child : Dumper a)

variable {C : Type*}

structure Overlap (a : Arch) (C : Type*) where
  impl : Dumper a
  progress : C → DumpProgress a

def Overlap.initial (C : Type*) (impl : Dumper a) : Overlap a C := ⟨impl, fun _ => .publishing 0⟩

inductive OverlapEvent (C : Type*)
  | set (c : C) (setter : Setter)
  | fork (c : C)

/-- A store replaces nothing that another call has stored and still has to fork with. -/
def KeepsOthers (option : C → DumpOption a) (s : Overlap a C) : OverlapEvent C → Prop
  | .set c setter => ∀ c' done, c' ≠ c → s.progress c' = .publishing done →
      setter.index < done → setter.Agrees s.impl.filter (option c) (option c')
  | .fork _ => True

def SeesOwn (option : DumpOption a) (child : Dumper a) : Prop :=
  child.pid = option.pid ∧ child.tid = option.tid ∧ child.siginfo = option.siginfo ∧
    (has child.filter FILTER_SIGNAL_CONTEXT = true → child.ucontext_raw = option.context)

variable [DecidableEq C]

inductive OverlapStep (option : C → DumpOption a) :
    Overlap a C → OverlapEvent C → Overlap a C → Prop
  | set {s : Overlap a C} {c : C} {setter : Setter} :
      s.progress c = .publishing setter.index →
      OverlapStep option s (.set c setter) ⟨setter.apply (option c) s.impl,
        Function.update s.progress c (.publishing (setter.index + 1))⟩
  | fork {s : Overlap a C} {c : C} : s.progress c = .publishing 4 →
      OverlapStep option s (.fork c)
        { s with progress := Function.update s.progress c (.forked s.impl) }

/-- The object shows what the calls on their way to a fork have stored. -/
structure OverlapInv (option : C → DumpOption a) (s : Overlap a C) : Prop where
  shows : ∀ c done, s.progress c = .publishing done →
    ∀ setter : Setter, setter.index < done → setter.Shows (option c) s.impl
  forked : ∀ c child, s.progress c = .forked child → SeesOwn (option c) child

namespace Setter

/-- The setter calls together are those of one `Dump`. -/
theorem apply_all (d : Dumper a) (option : DumpOption a) :
    [setPid, setTid, setSignalInfo, setContext].foldl (fun d setter => setter.apply option d) d =
      d.applyOption option :=
  rfl

theorem apply_filter (d : Dumper a) (option : DumpOption a) (setter : Setter) :
    (setter.apply option d).filter = d.filter := by
  cases setter with
  | setPid => rfl
  | setTid => rfl
  | setSignalInfo => rfl
  | setContext =>
    unfold apply
    split_ifs
    · rfl
    · rfl

theorem shows_apply_self {d : Dumper a} {option option' : DumpOption a} {setter : Setter}
    (h : setter.Agrees d.filter option option') : setter.Shows option' (setter.apply option d) := by
  cases setter with
  | setPid => exact h
  | setTid => exact h
  | setSignalInfo => exact h
  | setContext =>
    intro hbit
    rw [apply_filter] at hbit
    unfold apply
    rw [if_pos hbit]
    exact h hbit

theorem shows_apply_other {d : Dumper a} {option option' : DumpOption a} {setter setter' : Setter}
    (hne : setter' ≠ setter) (h : setter'.Shows option' d) :
    setter'.Shows option' (setter.apply option d) := by
  cases setter with
  | setPid =>
    cases setter' with
    | setPid => exact absurd rfl hne
    | _ => exact h
  | setTid =>
    cases setter' with
    | setTid => exact absurd rfl hne
    | _ => exact h
  | setSignalInfo =>
    cases setter' with
    | setSignalInfo => exact absurd rfl hne
    | _ => exact h
  | setContext =>
    unfold apply
    split_ifs
    · cases setter' with
      | setContext => exact absurd rfl hne
      | _ => exact h
    · exact h

theorem agrees_self (filter : BitVec 32) (option : DumpOption a) (setter : Setter) :
    setter.Agrees filter option option := by
  cases setter with
  | setContext => exact fun _ => rfl
  | _ => rfl

theorem index_injective : Function.Injective index := by
  intro setter setter' h
  cases setter <;> cases setter' <;> first | rfl | cases h

theorem index_lt (setter : Setter) : setter.index < 4 := by
  cases setter <;> decide

end Setter

omit [DecidableEq C] in
theorem overlapInv_initial {option : C → DumpOption a} (impl : Dumper a) :
    OverlapInv option (Overlap.initial C impl) where
  shows c done hdone setter hlt := by
    cases hdone
    exact absurd hlt (Nat.not_lt_zero _)
  forked _ _ hchild := nomatch hchild

theorem overlapInv_step {option : C → DumpOption a} {s t : Overlap a C} {e : OverlapEvent C}
    (h : OverlapInv option s) (hstep : OverlapStep option s e t)
    (hkeeps : KeepsOthers option s e) : OverlapInv option t := by
  cases hstep with
  | @set c setter hc =>
    constructor
    · intro c' done hdone setter' hlt
      show setter'.Shows (option c') (setter.apply (option c) s.impl)
      rcases update_eq_cases hdone with ⟨rfl, hown⟩ | ⟨hcc, hother⟩
      · cases hown
        by_cases hss : setter' = setter
        · subst hss
          exact Setter.shows_apply_self (Setter.agrees_self _ _ _)
        · have hne := mt (fun heq => Setter.index_injective heq) hss
          exact Setter.shows_apply_other hss (h.shows c' _ hc setter' (by omega))
      · by_cases hss : setter' = setter
        · subst hss
          exact Setter.shows_apply_self (hkeeps c' done hcc hother hlt)
        · exact Setter.shows_apply_other hss (h.shows c' done hother setter' hlt)
    · intro c' child hchild
      rcases update_eq_cases hchild with ⟨rfl, hown⟩ | ⟨-, hother⟩
      · cases hown
      · exact h.forked c' child hother
  | @fork c hc =>
    constructor
    · intro c' done hdone setter hlt
      rcases update_eq_cases hdone with ⟨rfl, hown⟩ | ⟨-, hother⟩
      · cases hown
      · exact h.shows c' done hother setter hlt
    · intro c' child hchild
      rcases update_eq_cases hchild with ⟨rfl, hown⟩ | ⟨-, hother⟩
      · cases hown
        have hall (setter : Setter) : setter.Shows (option c') s.impl :=
          h.shows c' 4 hc setter setter.index_lt
        exact ⟨hall .setPid, hall .setTid, hall .setSignalInfo, hall .setContext⟩
      · exact h.forked c' child hother

/-- When no store replaces what another call still has to fork with, every child sees the
option of its own call. -/
theorem overlap_separate (option : C → DumpOption a) {impl : Dumper a}
    {events : List (OverlapEvent C)} {s : Overlap a C}
    (hrun : Run (fun s e t => OverlapStep option s e t ∧ KeepsOthers option s e)
      (Overlap.initial C impl) events s) :
    ∀ c child, s.progress c = .forked child → SeesOwn (option c) child := by
  have hstep (s : Overlap a C) (e : OverlapEvent C) (t : Overlap a C) (h : OverlapInv option s)
      (hstep : OverlapStep option s e t ∧ KeepsOthers option s e) : OverlapInv option t :=
    overlapInv_step h hstep.1 hstep.2
  exact (hrun.invariant hstep (overlapInv_initial impl)).forked

/-- The option of a signal handler on thread 7 and that of a request for thread 9. -/
def crashAndRequest : Bool → DumpOption .arm64
  | true => signalOption
  | false => { pid := 7, tid := 9 }

def contextDumper : Dumper .arm64 :=
  { Dumper.new .arm64 4096 with filter := FILTER_SIGNAL_CONTEXT }

theorem keepsOthers_set {s : Overlap .arm64 Bool} {c : Bool} {setter : Setter} {n : ℕ}
    (hother : s.progress (!c) = .publishing n)
    (h : setter.index < n →
      setter.Agrees s.impl.filter (crashAndRequest c) (crashAndRequest (!c))) :
    KeepsOthers crashAndRequest s (.set c setter) := by
  intro c' done hc hdone hlt
  obtain rfl : c' = !c := Bool.eq_not_of_ne hc
  cases hother.symm.trans hdone
  exact h hlt

/-- Both store process 7, and the request stores its thread when the handler has forked. -/
def separateEvents : List (OverlapEvent Bool) :=
  [.set true .setPid, .set false .setPid, .set true .setTid, .set true .setSignalInfo,
    .set true .setContext, .fork true, .set false .setTid, .set false .setSignalInfo,
    .set false .setContext, .fork false]

theorem overlap_separate_two :
    ∃ s crash request,
      Run (OverlapStep crashAndRequest) (Overlap.initial Bool contextDumper) separateEvents s ∧
      s.progress true = .forked crash ∧ SeesOwn signalOption crash ∧
      s.progress false = .forked request ∧ SeesOwn (crashAndRequest false) request := by
  have hforked {s : Overlap .arm64 Bool} {child : Dumper .arm64} {setter : Setter}
      (htrue : s.progress true = .forked child) :
      KeepsOthers crashAndRequest s (.set false setter) := by
    intro c' done hc hdone
    obtain rfl : c' = true := Bool.eq_true_of_not_eq_false hc
    cases htrue.symm.trans hdone
  have hrun : Run (fun s e t => OverlapStep crashAndRequest s e t ∧ KeepsOthers crashAndRequest s e)
      (Overlap.initial Bool contextDumper) separateEvents _ :=
    .cons ⟨.set rfl, keepsOthers_set rfl fun h => absurd h (by decide)⟩
      (.cons ⟨.set rfl, keepsOthers_set rfl fun _ => rfl⟩
      (.cons ⟨.set rfl, keepsOthers_set rfl fun h => absurd h (by decide)⟩
      (.cons ⟨.set rfl, keepsOthers_set rfl fun h => absurd h (by decide)⟩
      (.cons ⟨.set rfl, keepsOthers_set rfl fun h => absurd h (by decide)⟩
      (.cons ⟨.fork rfl, trivial⟩
      (.cons ⟨.set rfl, hforked rfl⟩ (.cons ⟨.set rfl, hforked rfl⟩
      (.cons ⟨.set rfl, hforked rfl⟩ (.cons ⟨.fork rfl, trivial⟩ (.nil _))))))))))
  exact ⟨_, _, _, hrun.mono fun _ _ _ hstep => hstep.1, rfl,
    overlap_separate crashAndRequest hrun true _ rfl, rfl,
    overlap_separate crashAndRequest hrun false _ rfl⟩

/-- The request stores its thread before the handler forks, and the child of the handler takes
thread 9 for the one that crashed. -/
theorem overlap_not_separate :
    ∃ s child, Run (OverlapStep crashAndRequest) (Overlap.initial Bool contextDumper)
      [.set true .setPid, .set true .setTid, .set true .setSignalInfo, .set true .setContext,
        .set false .setPid, .set false .setTid, .fork true] s ∧
      s.progress true = .forked child ∧ child.tid = 9 ∧ ¬ SeesOwn signalOption child := by
  refine ⟨_, _, .cons (.set rfl) (.cons (.set rfl) (.cons (.set rfl) (.cons (.set rfl)
    (.cons (.set rfl) (.cons (.set rfl) (.cons (.fork rfl) (.nil _))))))), rfl, rfl, fun h => ?_⟩
  exact absurd (show (9 : BitVec 32) = 7 from h.2.1) (by decide)

end Opencore
