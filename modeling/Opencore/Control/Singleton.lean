import Opencore.Dumper.Collected

/-! The dumper object of the parent across calls: the setters, and what each `Dump` leaves in
it and hands to its child. -/
namespace Opencore
open Machine Elf

variable {a : Arch}

/-- `Opencore::DumpOption`, a null `filename` being `none`. -/
structure DumpOption (a : Arch) where
  filename : Option Bytes := none
  pid : BitVec 32 := INVALID_TID
  tid : BitVec 32 := INVALID_TID
  siginfo : Option (Ref a.cls.bits SigInfo) := none
  context : Option (Ref a.cls.bits a.MContext) := none

namespace Dumper

def setDir (d : Dumper a) (dir : Bytes) : Dumper a := { d with dir := dir }

def setPid (d : Dumper a) (p : BitVec 32) : Dumper a := { d with pid := p }

def setTid (d : Dumper a) (t : BitVec 32) : Dumper a := { d with tid := t }

def setFilter (d : Dumper a) (f : BitVec 32) : Dumper a := { d with filter := f }

def setFlag (d : Dumper a) (f : BitVec 32) : Dumper a := { d with flag := f }

def setTimeout (d : Dumper a) (sec : BitVec 32) : Dumper a := { d with timeout := sec }

def setContext (d : Dumper a) (raw : Option (Ref a.cls.bits a.MContext)) : Dumper a :=
  { d with ucontext_raw := raw }

def setSignalInfo (d : Dumper a) (info : Option (Ref a.cls.bits SigInfo)) : Dumper a :=
  { d with siginfo := info }

def applyOption (d : Dumper a) (option : DumpOption a) : Dumper a :=
  let d := d.setPid option.pid
  let d := d.setTid option.tid
  let d := d.setSignalInfo option.siginfo
  if has d.filter FILTER_SIGNAL_CONTEXT then d.setContext option.context else d

end Dumper

inductive Call (a : Arch)
  | SetDir (dir : Bytes)
  | SetFlag (flag : BitVec 32)
  | SetTimeout (sec : BitVec 32)
  | SetFilter (filter : BitVec 32)
  | Dump (option : Option (DumpOption a))

/-- The object in the parent after a call. `Finish` runs in the child, on a copy. -/
def Call.run (d : Dumper a) : Call a → Dumper a
  | SetDir dir => d.setDir dir
  | SetFlag flag => d.setFlag flag
  | SetTimeout sec => if 0 < sec.toInt then d.setTimeout sec else d
  | SetFilter filter => d.setFilter filter
  | Dump none => d
  | Dump (some option) => if option.pid = 0 then d else d.applyOption option

def runCalls (d : Dumper a) (calls : List (Call a)) : Dumper a := calls.foldl Call.run d

/-- What a core holds of its top thread. -/
structure TopRecord (a : Arch) where
  pr_pid : BitVec 32
  siginfo : Bytes
  pr_reg : a.PtRegs
  deriving DecidableEq

/-- The first record of the core that a `Dump` with this option writes, by its child. -/
def recordTop (d : Dumper a) (option : DumpOption a) (view : ProcessView a) :
    Option (TopRecord a) :=
  if option.pid = 0 then none
  else do
    let d ← collect (d.applyOption option) view
    let top ← d.prstatus.head?
    some ⟨top.pr_pid, siginfoBytes d, top.pr_reg⟩

/-- The registers of a signal context or, without one, those that `ptrace` reads. -/
def contextRegs (context : Option (Ref a.cls.bits a.MContext)) (regset : Option a.PtRegs) :
    a.PtRegs :=
  match context with
  | some c => a.ofContext c.pointee
  | none => regset.getD a.zeroRegs

/-- What the core should hold under the current filter and the option of this call. -/
def requestedTop (filter : BitVec 32) (option : DumpOption a) (view : ProcessView a) :
    TopRecord a where
  pr_pid := option.tid
  siginfo := match option.siginfo with
    | none => zeros 128
    | some info => info.pointee.toList
  pr_reg := contextRegs (if has filter FILTER_SIGNAL_CONTEXT then option.context else none)
    (view.prstatus option.tid)

theorem applyOption_eq (d : Dumper a) (option : DumpOption a) :
    d.applyOption option =
      { d with
        pid := option.pid
        tid := option.tid
        siginfo := option.siginfo
        ucontext_raw :=
          if has d.filter FILTER_SIGNAL_CONTEXT then option.context else d.ucontext_raw } := by
  by_cases hbit : has d.filter FILTER_SIGNAL_CONTEXT = true
  · rw [if_pos hbit]
    exact if_pos hbit
  · rw [if_neg hbit]
    exact if_neg hbit

theorem fresh_applyOption {d : Dumper a} (h : d.Fresh) (option : DumpOption a) :
    (d.applyOption option).Fresh := by
  rw [applyOption_eq]
  exact { h with }

/-- No call leaves anything but settings in the object. -/
theorem fresh_call {d : Dumper a} (h : d.Fresh) (call : Call a) : (call.run d).Fresh := by
  cases call with
  | SetDir dir => exact { h with }
  | SetFlag flag => exact { h with }
  | SetTimeout sec =>
    rw [Call.run]
    split_ifs
    · exact { h with }
    · exact h
  | SetFilter filter => exact { h with }
  | Dump option =>
    cases option with
    | none => exact h
    | some option =>
      rw [Call.run]
      split_ifs
      · exact h
      · exact fresh_applyOption h option

theorem fresh_runCalls {d : Dumper a} (h : d.Fresh) (calls : List (Call a)) :
    (runCalls d calls).Fresh := by
  induction calls generalizing d with
  | nil => exact h
  | cons call calls ih => exact ih (fresh_call h call)

theorem collect_top {d : Dumper a} (hd : d.Fresh) {view : ProcessView a}
    (hnd : (view.tasks.map Tid.val).Nodup) {tid : Tid} (htid : d.tid = tid.val)
    (hmem : tid ∈ view.tasks) :
    ∃ d' top rest, collect d view = some d' ∧ d'.prstatus = top :: rest ∧
      d'.siginfo = d.siginfo ∧ top.pr_pid = d.tid ∧
      top.pr_reg = contextRegs d.ucontext_raw (view.prstatus d.tid) := by
  have hthreads : (gather d view).threads = view.tasks.map fun tid => ⟨tid, view.attach tid⟩ := by
    simp only [gather, gather_eq hd, createCoreNoteHeader, createCoreHeader]
  have htids : (gather d view).threads.map (fun t => t.pid.val) = view.tasks.map Tid.val := by
    rw [hthreads, List.map_map]
    rfl
  have htop : (gather d view).tid = d.tid := by
    simp only [gather, gather_eq hd, createCoreNoteHeader, createCoreHeader]
  have hsig : (gather d view).siginfo = d.siginfo := by
    simp only [gather, gather_eq hd, createCoreNoteHeader, createCoreHeader]
  have hctx : (gather d view).ucontext_raw = d.ucontext_raw := by
    simp only [gather, gather_eq hd, createCoreNoteHeader, createCoreHeader]
  have hin : (gather d view).tid ∈ (gather d view).threads.map fun t => t.pid.val := by
    rw [htids, htop, htid]
    exact List.mem_map_of_mem hmem
  obtain ⟨top, rest, hpr, hpid, hreg⟩ :=
    createCorePrStatus_top (gather d view) view.prstatus (htids ▸ hnd) hin
  have hcollect := collect_gather d view
  rw [hpr, Option.map_some] at hcollect
  refine ⟨_, top, rest, hcollect, rfl, hsig, hpid.trans htop, ?_⟩
  rw [hreg, threadRegs, if_pos rfl, htop, hctx]
  cases d.ucontext_raw with
  | none => rfl
  | some context => rfl

/-- The record of a dump shows the context that its child has inherited. -/
theorem recordTop_eq {d : Dumper a} (hd : d.Fresh) {option : DumpOption a}
    (hpid : option.pid ≠ 0) {view : ProcessView a}
    (hnd : (view.tasks.map Tid.val).Nodup) {tid : Tid} (htid : option.tid = tid.val)
    (hmem : tid ∈ view.tasks) :
    recordTop d option view = some { requestedTop d.filter option view with
      pr_reg := contextRegs
        (if has d.filter FILTER_SIGNAL_CONTEXT then option.context else d.ucontext_raw)
        (view.prstatus option.tid) } := by
  have happly := applyOption_eq d option
  obtain ⟨d', top, rest, hcollect, hpr, hsig, htop, hreg⟩ :=
    collect_top (fresh_applyOption hd option) hnd
      (show (d.applyOption option).tid = tid.val by rw [happly]; exact htid) hmem
  have hrecord : recordTop d option view =
      some ⟨top.pr_pid, siginfoBytes d', top.pr_reg⟩ := by
    rw [recordTop, if_neg hpid, hcollect]
    simp only [Option.bind_eq_bind, Option.bind_some, hpr, List.head?_cons]
  rw [hrecord, siginfoBytes, hsig, htop, hreg, happly]
  rfl

theorem exists_regs_ne : ∀ {a : Arch} (r : a.PtRegs), ∃ r', r' ≠ r
  | .arm64, r => ⟨{ r with sp := r.sp + 1 }, fun h => by simpa using congrArg Arm64.PtRegs.sp h⟩
  | .x86_64, r => ⟨{ r with rsp := r.rsp + 1 }, fun h => by
      simpa using congrArg X86_64.PtRegs.rsp h⟩
  | .arm, r => ⟨{ r with sp := r.sp + 1 }, fun h => by simpa using congrArg Arm.PtRegs.sp h⟩
  | .x86, r => ⟨{ r with esp := r.esp + 1 }, fun h => by simpa using congrArg X86.PtRegs.esp h⟩

/-- After any calls, a dump records what its own option and the current filter ask for, in
every process, exactly when the filter takes the context from the option or none is left over
from an earlier dump. -/
theorem recordTop_iff (a : Arch) (pageSize : ℕ) (calls : List (Call a)) {option : DumpOption a}
    (hpid : option.pid ≠ 0) {tid : Tid} (htid : option.tid = tid.val) :
    (∀ view : ProcessView a, (view.tasks.map Tid.val).Nodup → tid ∈ view.tasks →
      recordTop (runCalls (Dumper.new a pageSize) calls) option view =
        some (requestedTop (runCalls (Dumper.new a pageSize) calls).filter option view)) ↔
    has (runCalls (Dumper.new a pageSize) calls).filter FILTER_SIGNAL_CONTEXT = true ∨
      (runCalls (Dumper.new a pageSize) calls).ucontext_raw = none := by
  have hfresh := fresh_runCalls (fresh_new a pageSize) calls
  generalize runCalls (Dumper.new a pageSize) calls = d at hfresh ⊢
  constructor
  · intro h
    by_contra hneg
    obtain ⟨hbit, hctx⟩ := not_or.mp hneg
    obtain ⟨context, hctx⟩ := Option.ne_none_iff_exists'.mp hctx
    -- a process whose registers differ from the ones left over
    obtain ⟨regs, hne⟩ := exists_regs_ne (a.ofContext context.pointee)
    let view : ProcessView a := { onePageProcess a [tid] with prstatus := fun _ => some regs }
    have hnd : (view.tasks.map Tid.val).Nodup := List.nodup_singleton _
    have hmem : tid ∈ view.tasks := List.mem_singleton_self tid
    have hrecord := h view hnd hmem
    rw [recordTop_eq hfresh hpid hnd htid hmem] at hrecord
    have hregs := congrArg TopRecord.pr_reg (Option.some.inj hrecord)
    simp only [requestedTop, if_neg hbit, hctx] at hregs
    exact hne hregs.symm
  · intro h view hnd hmem
    rw [recordTop_eq hfresh hpid hnd htid hmem, requestedTop]
    rcases h with hbit | hctx
    · rw [if_pos hbit, if_pos hbit]
    · rw [hctx]

def savedContext : Ref 64 Arm64.MContext :=
  ⟨0x7000, ⟨0, Vector.replicate 31 0, 0x5000, 0, 0⟩, by decide⟩

def signalOption : DumpOption .arm64 := { pid := 7, tid := 7, context := some savedContext }

def oneThreadProcess : ProcessView .arm64 :=
  { onePageProcess .arm64 [⟨7, by decide⟩] with
    prstatus := fun _ => some { Arch.zeroRegs .arm64 with sp := 0x6000 } }

def laterOption : DumpOption .arm64 :=
  { signalOption with
    context := some ⟨0x7800, ⟨0, Vector.replicate 31 0, 0x5800, 0, 0⟩, by decide⟩ }

/-- The context of the second dump is recorded, not that of the first. -/
theorem recordTop_later :
    (recordTop (runCalls (Dumper.new .arm64 4096) [.SetFilter FILTER_SIGNAL_CONTEXT,
      .Dump (some signalOption)]) laterOption oneThreadProcess).map (fun top => top.pr_reg.sp) =
      some 0x5800 := by
  have hpid : laterOption.pid ≠ 0 := by decide
  have htid : laterOption.tid = (⟨7, by decide⟩ : Tid).val := rfl
  have hrecord := (recordTop_iff .arm64 4096
    [.SetFilter FILTER_SIGNAL_CONTEXT, .Dump (some signalOption)] hpid htid).mpr
    (Or.inl rfl) oneThreadProcess (List.nodup_singleton _) (List.mem_singleton_self _)
  rw [hrecord]
  rfl

/-- The context of a first dump is recorded by a second one that passes none, once the filter
no longer asks for it. -/
theorem recordTop_stale :
    (recordTop (runCalls (Dumper.new .arm64 4096) [.SetFilter FILTER_SIGNAL_CONTEXT,
      .Dump (some signalOption), .SetFilter FILTER_NONE])
        { pid := 7, tid := 7 } oneThreadProcess).map (fun top => top.pr_reg.sp) = some 0x5000 ∧
    (requestedTop FILTER_NONE { pid := 7, tid := 7 } oneThreadProcess).pr_reg.sp = 0x6000 := by
  constructor
  · rfl
  · rfl

end Opencore
