import Opencore.Dumper.ThreadSlots

/-! The registers of the crashing thread on x86 and x86_64: taken from the signal context, and
as `PTRACE_GETREGSET` gives them for the same state. -/
namespace Opencore
open Machine Elf

theorem toNat_append {n m : ℕ} (x : BitVec n) (y : BitVec m) :
    (x ++ y).toNat = x.toNat * 2 ^ m + y.toNat := by
  rw [BitVec.toNat_append, ← Nat.shiftLeft_add_eq_or_of_lt y.isLt, Nat.shiftLeft_eq]

namespace X86_64

/-- The registers of a stopped thread, and what the kernel saves beside them when it
delivers a signal. -/
structure ThreadState where
  r8 : BitVec 64
  r9 : BitVec 64
  r10 : BitVec 64
  r11 : BitVec 64
  r12 : BitVec 64
  r13 : BitVec 64
  r14 : BitVec 64
  r15 : BitVec 64
  rdi : BitVec 64
  rsi : BitVec 64
  rbp : BitVec 64
  rbx : BitVec 64
  rdx : BitVec 64
  rax : BitVec 64
  rcx : BitVec 64
  rsp : BitVec 64
  rip : BitVec 64
  rflags : BitVec 64
  cs : BitVec 16
  gs : BitVec 16
  fs : BitVec 16
  ss : BitVec 16
  ds : BitVec 16
  es : BitVec 16
  fs_base : BitVec 64
  gs_base : BitVec 64
  orig_rax : BitVec 64
  err : BitVec 64
  trapno : BitVec 64
  oldmask : BitVec 64
  cr2 : BitVec 64

namespace ThreadState

/-- `REG_CSGSFS`: four selectors, `cs` in the low bits. -/
def csgsfs (s : ThreadState) : BitVec 64 := s.ss ++ s.fs ++ s.gs ++ s.cs

/-- `uc_mcontext.gregs`. -/
def context (s : ThreadState) : MContext where
  gregs := #v[s.r8, s.r9, s.r10, s.r11, s.r12, s.r13, s.r14, s.r15, s.rdi, s.rsi, s.rbp, s.rbx,
    s.rdx, s.rax, s.rcx, s.rsp, s.rip, s.rflags, s.csgsfs, s.err, s.trapno, s.oldmask, s.cr2]

def regset (s : ThreadState) : PtRegs where
  r15 := s.r15
  r14 := s.r14
  r13 := s.r13
  r12 := s.r12
  rbp := s.rbp
  rbx := s.rbx
  r11 := s.r11
  r10 := s.r10
  r9 := s.r9
  r8 := s.r8
  rax := s.rax
  rcx := s.rcx
  rdx := s.rdx
  rsi := s.rsi
  rdi := s.rdi
  orig_rax := s.orig_rax
  rip := s.rip
  cs := s.cs.setWidth 32
  __cs := 0
  flags := s.rflags
  rsp := s.rsp
  ss := s.ss.setWidth 32
  __ss := 0
  fs_base := s.fs_base
  gs_base := s.gs_base
  ds := s.ds.setWidth 32
  __ds := 0
  es := s.es.setWidth 32
  __es := 0
  fs := s.fs.setWidth 32
  __fs := 0
  gs := s.gs.setWidth 32
  __gs := 0

end ThreadState

/-- A register set without the registers that the signal context does not carry. -/
def PtRegs.carried (r : PtRegs) : PtRegs :=
  { r with orig_rax := 0, fs_base := 0, gs_base := 0, ds := 0, es := 0 }

theorem csgsfs_eq_cs (s : ThreadState) :
    s.csgsfs.setWidth 32 = s.cs.setWidth 32 ↔ s.gs = 0 := by
  have hcs := s.cs.isLt
  have hgs := s.gs.isLt
  have hzero : (0 : BitVec 16).toNat = 0 := rfl
  have hword : s.csgsfs.toNat =
      ((s.ss.toNat * 2 ^ 16 + s.fs.toNat) * 2 ^ 16 + s.gs.toNat) * 2 ^ 16 + s.cs.toNat := by
    simp only [ThreadState.csgsfs, toNat_append]
  rw [← BitVec.toNat_inj, ← BitVec.toNat_inj, BitVec.toNat_setWidth, BitVec.toNat_setWidth, hword]
  omega

/-- What the assignments make of a signal context. -/
theorem ofContext_context (s : ThreadState) :
    (ofContext s.context).carried = { s.regset.carried with
      cs := s.csgsfs.setWidth 32
      ss := s.oldmask.setWidth 32
      fs := s.trapno.setWidth 32
      gs := s.err.setWidth 32 } := rfl

/-- The context gives the registers of the thread exactly where nothing stands above `cs` and
the words that are taken for `ss`, `fs` and `gs` have their values. -/
theorem ofContext_carried_iff (s : ThreadState) :
    (ofContext s.context).carried = s.regset.carried ↔
      s.gs = 0 ∧ s.oldmask.setWidth 32 = s.ss.setWidth 32 ∧
        s.trapno.setWidth 32 = s.fs.setWidth 32 ∧ s.err.setWidth 32 = s.gs.setWidth 32 := by
  rw [ofContext_context, ← csgsfs_eq_cs]
  simp only [PtRegs.carried, ThreadState.regset, PtRegs.mk.injEq, true_and, and_true]

end X86_64

namespace X86

/-- The registers of a stopped thread, and what the kernel saves beside them when it
delivers a signal. -/
structure ThreadState where
  edi : BitVec 32
  esi : BitVec 32
  ebp : BitVec 32
  esp : BitVec 32
  ebx : BitVec 32
  edx : BitVec 32
  ecx : BitVec 32
  eax : BitVec 32
  eip : BitVec 32
  eflags : BitVec 32
  gs : BitVec 16
  fs : BitVec 16
  es : BitVec 16
  ds : BitVec 16
  cs : BitVec 16
  ss : BitVec 16
  orig_eax : BitVec 32
  trapno : BitVec 32
  err : BitVec 32

namespace ThreadState

/-- `uc_mcontext.gregs`; `REG_ESP` and `REG_UESP` are both the stack pointer of the thread. -/
def context (s : ThreadState) : MContext where
  gregs := #v[s.gs.setWidth 32, s.fs.setWidth 32, s.es.setWidth 32, s.ds.setWidth 32, s.edi, s.esi,
    s.ebp, s.esp, s.ebx, s.edx, s.ecx, s.eax, s.trapno, s.err, s.eip, s.cs.setWidth 32, s.eflags,
    s.esp, s.ss.setWidth 32]

def regset (s : ThreadState) : PtRegs where
  ebx := s.ebx
  ecx := s.ecx
  edx := s.edx
  esi := s.esi
  edi := s.edi
  ebp := s.ebp
  eax := s.eax
  ds := s.ds
  __ds := 0
  es := s.es
  __es := 0
  fs := s.fs
  __fs := 0
  gs := s.gs
  __gs := 0
  orig_eax := s.orig_eax
  eip := s.eip
  cs := s.cs
  __cs := 0
  eflags := s.eflags
  esp := s.esp
  ss := s.ss
  __ss := 0

end ThreadState

/-- A register set without the register that the signal context does not carry. -/
def PtRegs.carried (r : PtRegs) : PtRegs := { r with orig_eax := 0 }

theorem setWidth_selector (x : BitVec 16) : (x.setWidth 32).setWidth 16 = x := by
  rw [BitVec.setWidth_setWidth_of_le x (by norm_num), BitVec.setWidth_eq]

/-- What the assignments make of a signal context: `cs` is left out, and its slot is taken
for `ss`. -/
theorem ofContext_context (s : ThreadState) :
    (ofContext s.context).carried = { s.regset.carried with cs := 0, ss := s.cs } := by
  have hassigned : (ofContext s.context).carried = { s.regset.carried with
      ds := (s.ds.setWidth 32).setWidth 16
      es := (s.es.setWidth 32).setWidth 16
      fs := (s.fs.setWidth 32).setWidth 16
      gs := (s.gs.setWidth 32).setWidth 16
      cs := 0
      ss := (s.cs.setWidth 32).setWidth 16 } := rfl
  rw [hassigned]
  simp only [setWidth_selector]
  rfl

theorem ofContext_carried_iff (s : ThreadState) :
    (ofContext s.context).carried = s.regset.carried ↔ s.cs = 0 ∧ s.ss = 0 := by
  rw [ofContext_context]
  simp only [PtRegs.carried, ThreadState.regset, PtRegs.mk.injEq, true_and, and_true]
  constructor
  · rintro ⟨hcs, hss⟩
    exact ⟨hcs.symm, hss.symm.trans hcs.symm⟩
  · rintro ⟨hcs, hss⟩
    exact ⟨hcs.symm, hcs.trans hss.symm⟩

end X86

variable {a : Arch} {d : Dumper a} {regset : BitVec 32 → Option a.PtRegs}

def topReg (d : Dumper a) (regset : BitVec 32 → Option a.PtRegs) : Option a.PtRegs :=
  (createCorePrStatus d regset).bind fun d' => d'.prstatus.head?.map PrStatus.pr_reg

theorem topReg_eq (hnd : (d.threads.map fun t => t.pid.val).Nodup)
    (htop : d.tid ∈ d.threads.map fun t => t.pid.val) :
    topReg d regset =
      some ((threadRegs d.tid (d.ucontext_raw.map Ref.pointee) regset d.tid).getD a.zeroRegs) := by
  obtain ⟨top, rest, heq, -, hreg⟩ := createCorePrStatus_top d regset hnd htop
  rw [topReg, heq, Option.bind_some, List.head?_cons, Option.map_some, hreg]

/-- The crashing thread is among the stopped ones, with its signal context and its registers. -/
structure Crashed (d : Dumper a) (regset : BitVec 32 → Option a.PtRegs) (context : a.MContext)
    (regs : a.PtRegs) : Prop where
  nodup : (d.threads.map fun t => t.pid.val).Nodup
  top : d.tid ∈ d.threads.map fun t => t.pid.val
  context : d.ucontext_raw.map Ref.pointee = some context
  regset : regset d.tid = some regs

theorem Crashed.topReg_context {context : a.MContext} {regs : a.PtRegs}
    (h : Crashed d regset context regs) : topReg d regset = some (a.ofContext context) := by
  rw [topReg_eq h.nodup h.top, threadRegs, if_pos rfl, h.context]
  rfl

theorem Crashed.topReg_ptrace {context : a.MContext} {regs : a.PtRegs}
    (h : Crashed d regset context regs) :
    topReg { d with ucontext_raw := none } regset = some regs := by
  refine (topReg_eq (d := { d with ucontext_raw := none }) h.nodup h.top).trans ?_
  change some ((threadRegs d.tid none regset d.tid).getD a.zeroRegs) = some regs
  rw [threadRegs, if_pos rfl, h.regset]
  rfl

/-- When the record made from the signal context has the registers that `ptrace` gives for the
same state, among those that the context carries: on x86_64 and on x86. -/
theorem context_agrees_iff {d : Dumper .x86_64} {regset : BitVec 32 → Option X86_64.PtRegs}
    {s : X86_64.ThreadState} (h : Crashed d regset s.context s.regset)
    {d32 : Dumper .x86} {regset32 : BitVec 32 → Option X86.PtRegs} {s32 : X86.ThreadState}
    (h32 : Crashed d32 regset32 s32.context s32.regset) :
    ((topReg d regset).map X86_64.PtRegs.carried =
        (topReg { d with ucontext_raw := none } regset).map X86_64.PtRegs.carried ↔
      s.gs = 0 ∧ s.oldmask.setWidth 32 = s.ss.setWidth 32 ∧
        s.trapno.setWidth 32 = s.fs.setWidth 32 ∧ s.err.setWidth 32 = s.gs.setWidth 32) ∧
    ((topReg d32 regset32).map X86.PtRegs.carried =
        (topReg { d32 with ucontext_raw := none } regset32).map X86.PtRegs.carried ↔
      s32.cs = 0 ∧ s32.ss = 0) := by
  constructor
  · rw [h.topReg_context, h.topReg_ptrace, Option.map_some, Option.map_some, Option.some_inj]
    exact X86_64.ofContext_carried_iff s
  · rw [h32.topReg_context, h32.topReg_ptrace, Option.map_some, Option.map_some, Option.some_inj]
    exact X86.ofContext_carried_iff s32

def trappedThread (trapno err oldmask : BitVec 64) : X86_64.ThreadState where
  r8 := 0
  r9 := 0
  r10 := 0
  r11 := 0
  r12 := 0
  r13 := 0
  r14 := 0
  r15 := 0
  rdi := 0
  rsi := 0
  rbp := 0
  rbx := 0
  rdx := 0
  rax := 0
  rcx := 0
  rsp := 0x7ffd0000
  rip := 0x400000
  rflags := 0x10246
  cs := 0x33
  gs := 0
  fs := 0
  ss := 0x2b
  ds := 0
  es := 0
  fs_base := 0
  gs_base := 0
  orig_rax := 0xffffffffffffffff
  err := err
  trapno := trapno
  oldmask := oldmask
  cr2 := 0

def userThread : X86.ThreadState where
  edi := 0
  esi := 0
  ebp := 0
  esp := 0xffd00000
  ebx := 0
  edx := 0
  ecx := 0
  eax := 0
  eip := 0x400000
  eflags := 0x10246
  gs := 0x63
  fs := 0
  es := 0x7b
  ds := 0x7b
  cs := 0x73
  ss := 0x7b
  orig_eax := 0xffffffff
  trapno := 14
  err := 4

def crashedDumper (a : Arch) (context : a.MContext) : Dumper a :=
  { Dumper.new a 4096 with
    threads := [⟨⟨9, by decide⟩, true⟩]
    tid := 9
    ucontext_raw := some ⟨1, context, by cases a <;> decide⟩ }

theorem crashedDumper_crashed (context : a.MContext) (regs : a.PtRegs) :
    Crashed (crashedDumper a context) (fun _ => some regs) context regs where
  nodup := List.nodup_singleton _
  top := List.mem_singleton_self _
  context := rfl
  regset := rfl

/-- A divide error with a signal mask that looks like `ss`. -/
theorem context_agrees_trapped :
    (topReg (crashedDumper .x86_64 (trappedThread 0 0 0x2b).context)
        fun _ => some (trappedThread 0 0 0x2b).regset).map X86_64.PtRegs.carried =
      (topReg { crashedDumper .x86_64 (trappedThread 0 0 0x2b).context with ucontext_raw := none }
        fun _ => some (trappedThread 0 0 0x2b).regset).map X86_64.PtRegs.carried := by
  have h := crashedDumper_crashed (a := .x86_64) (trappedThread 0 0 0x2b).context
    (trappedThread 0 0 0x2b).regset
  have h32 := crashedDumper_crashed (a := .x86) userThread.context userThread.regset
  exact (context_agrees_iff h h32).1.mpr (by decide)

/-- After a page fault the selectors of the record are the trap number, the error code and the
signal mask; on x86 `cs` is zero and `ss` is the `cs` of the thread. -/
theorem context_disagrees :
    (topReg (crashedDumper .x86_64 (trappedThread 14 4 0).context)
        fun _ => some (trappedThread 14 4 0).regset).map X86_64.PtRegs.carried ≠
      (topReg { crashedDumper .x86_64 (trappedThread 14 4 0).context with ucontext_raw := none }
        fun _ => some (trappedThread 14 4 0).regset).map X86_64.PtRegs.carried ∧
    (topReg (crashedDumper .x86 userThread.context) fun _ => some userThread.regset).map
        X86.PtRegs.carried ≠
      (topReg { crashedDumper .x86 userThread.context with ucontext_raw := none }
        fun _ => some userThread.regset).map X86.PtRegs.carried := by
  constructor
  · have h := crashedDumper_crashed (a := .x86_64) (trappedThread 14 4 0).context
      (trappedThread 14 4 0).regset
    rw [h.topReg_context, h.topReg_ptrace]
    decide
  · have h := crashedDumper_crashed (a := .x86) userThread.context userThread.regset
    rw [h.topReg_context, h.topReg_ptrace]
    decide

end Opencore
