import Opencore.Dumper.State

/-! Stopping the threads of the dumped process and collecting their `prstatus`. -/
namespace Opencore
open Machine Elf

variable {a : Arch}

/-- `StopTheThread`: a thread is recorded whether or not `PTRACE_ATTACH` succeeds. -/
def stopTheThread (d : Dumper a) (attach : Tid → Bool) (tid : Tid) : Dumper a :=
  { d with threads := d.threads ++ [⟨tid, attach tid⟩] }

/-- `StopTheWorld` over the entries of `/proc/<pid>/task`. -/
def stopTheWorld (d : Dumper a) (view : ProcessView a) : Dumper a :=
  view.tasks.foldl (fun d tid => stopTheThread d view.attach tid) d

def PrStatus.setPid (tid : BitVec 32) (p : PrStatus a) : PrStatus a := { p with pr_pid := tid }

def PrStatus.setReg (regs : a.PtRegs) (p : PrStatus a) : PrStatus a := { p with pr_reg := regs }

/-- An access through `prstatus[idx]`; `none` when the index is out of range. -/
def updateSlot (prstatus : List (PrStatus a)) (idx : ℕ) (f : PrStatus a → PrStatus a) :
    Option (List (PrStatus a)) :=
  if idx < prstatus.length then some (prstatus.modify idx f) else none

/-- `PTRACE_GETREGSET` into the slot; a failing request leaves it as it is. -/
def getRegset (regset : BitVec 32 → Option a.PtRegs) (tid : BitVec 32) (idx : ℕ)
    (prstatus : List (PrStatus a)) : Option (List (PrStatus a)) :=
  match regset tid with
  | none => some prstatus
  | some regs => updateSlot prstatus idx (PrStatus.setReg regs)

/-- One iteration of `CreateCorePrStatus`, with `cur` the next slot of a thread that is
not the top thread. -/
def prStatusStep (top : BitVec 32) (context : Option a.MContext)
    (regset : BitVec 32 → Option a.PtRegs) (prnum : ℕ) (tid : BitVec 32) (cur : ℕ)
    (prstatus : List (PrStatus a)) : Option (ℕ × List (PrStatus a)) :=
  if tid = top then
    (updateSlot prstatus 0 (PrStatus.setPid tid)).bind fun prstatus =>
      match context with
      -- top thread maybe use ucontext prs
      | some c => (updateSlot prstatus 0 (PrStatus.setReg (a.ofContext c))).map (cur, ·)
      | none => (getRegset regset tid 0 prstatus).map (cur, ·)
  else
    -- 0 top thread was truncated
    let idx := if cur ≥ prnum then 0 else cur
    (updateSlot prstatus idx (PrStatus.setPid tid)).bind fun prstatus =>
      (getRegset regset tid idx prstatus).map (cur + 1, ·)

def prStatusLoop (top : BitVec 32) (context : Option a.MContext)
    (regset : BitVec 32 → Option a.PtRegs) (prnum : ℕ) :
    List ThreadRecord → ℕ → List (PrStatus a) → Option (List (PrStatus a))
  | [], _, prstatus => some prstatus
  | t :: threads, cur, prstatus =>
    (prStatusStep top context regset prnum t.pid.val cur prstatus).bind fun (cur, prstatus) =>
      prStatusLoop top context regset prnum threads cur prstatus

/-- What each architecture adds to `extra_note_filesz` for its notes. -/
def extraNoteFilesz : Arch → BitVec 32 → BitVec 32
  | .arm64, prnum =>
    (392 + 12 + 8) * prnum + (128 + 12 + 8) + (528 + 12 + 8) * prnum + (16 + 12 + 8) * prnum +
      ((16 + 12 + 8) + (8 + 12 + 8)) * prnum + (8 + 12 + 8) * prnum
  | .x86_64, prnum => (336 + 12 + 8) * prnum + (128 + 12 + 8)
  | .arm, prnum => (148 + 12 + 8) * prnum + (128 + 12 + 8)
  | .x86, prnum => (144 + 12 + 8) * prnum + (128 + 12 + 8)

/-- `CreateCorePrStatus`; `none` is an index out of range. -/
def createCorePrStatus (d : Dumper a) (regset : BitVec 32 → Option a.PtRegs) :
    Option (Dumper a) :=
  if d.threads = [] then some d
  else do
    let prnum := BitVec.ofNat 32 d.threads.length
    let prstatus ← prStatusLoop d.tid (d.ucontext_raw.map Ref.pointee) regset (tripCount prnum)
      (d.threads.take (tripCount prnum)) 1
      (List.replicate d.threads.length PrStatus.zero)
    some { d with
      prstatus := prstatus
      extra_note_filesz := d.extra_note_filesz + extraNoteFilesz a prnum }

end Opencore
