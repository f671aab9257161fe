import Opencore.Elf.Headers

/-! Register files of the shipped architectures: `pt_regs`, the part of the signal
context that holds the registers, and how one is filled from the other. -/
namespace Opencore
open Machine Elf

namespace Arm64

structure PtRegs where
  regs : Vector (BitVec 64) 31
  sp : BitVec 64
  pc : BitVec 64
  pstate : BitVec 64
  deriving DecidableEq

/-- `uc_mcontext` up to the end of the registers. -/
structure MContext where
  fault_address : BitVec 64
  regs : Vector (BitVec 64) 31
  sp : BitVec 64
  pc : BitVec 64
  pstate : BitVec 64
  deriving DecidableEq

def PtRegs.bytes (r : PtRegs) : Bytes :=
  r.regs.toList.flatMap wordBytes ++ wordBytes r.sp ++ wordBytes r.pc ++ wordBytes r.pstate

/-- `memcpy` of `sizeof(pt_regs)` bytes from `uc_mcontext.regs`. -/
def ofContext (c : MContext) : PtRegs := ⟨c.regs, c.sp, c.pc, c.pstate⟩

/-- The registers `IsSpecialFilterSegment` compares with a VMA, in its order. -/
def specialRegs (r : PtRegs) : List (BitVec 64) := [r.pc] ++ r.regs.toList ++ [r.sp]

theorem length_bytes (r : PtRegs) : r.bytes.length = 272 := by
  unfold PtRegs.bytes
  simp only [List.length_append, length_wordBytes]
  rw [length_flatMap_const _ 8 _ (by simp)]
  simp

end Arm64

namespace X86_64

structure PtRegs where
  r15 : BitVec 64
  r14 : BitVec 64
  r13 : BitVec 64
  r12 : BitVec 64
  rbp : BitVec 64
  rbx : BitVec 64
  r11 : BitVec 64
  r10 : BitVec 64
  r9 : BitVec 64
  r8 : BitVec 64
  rax : BitVec 64
  rcx : BitVec 64
  rdx : BitVec 64
  rsi : BitVec 64
  rdi : BitVec 64
  orig_rax : BitVec 64
  rip : BitVec 64
  cs : BitVec 32
  __cs : BitVec 32
  flags : BitVec 64
  rsp : BitVec 64
  ss : BitVec 32
  __ss : BitVec 32
  fs_base : BitVec 64
  gs_base : BitVec 64
  ds : BitVec 32
  __ds : BitVec 32
  es : BitVec 32
  __es : BitVec 32
  fs : BitVec 32
  __fs : BitVec 32
  gs : BitVec 32
  __gs : BitVec 32
  deriving DecidableEq

structure MContext where
  gregs : Vector (BitVec 64) 23
  deriving DecidableEq

def PtRegs.bytes (r : PtRegs) : Bytes :=
  wordBytes r.r15 ++ wordBytes r.r14 ++ wordBytes r.r13 ++ wordBytes r.r12 ++
    wordBytes r.rbp ++ wordBytes r.rbx ++ wordBytes r.r11 ++ wordBytes r.r10 ++
    wordBytes r.r9 ++ wordBytes r.r8 ++ wordBytes r.rax ++ wordBytes r.rcx ++
    wordBytes r.rdx ++ wordBytes r.rsi ++ wordBytes r.rdi ++ wordBytes r.orig_rax ++
    wordBytes r.rip ++ wordBytes r.cs ++ wordBytes r.__cs ++ wordBytes r.flags ++
    wordBytes r.rsp ++ wordBytes r.ss ++ wordBytes r.__ss ++ wordBytes r.fs_base ++
    wordBytes r.gs_base ++ wordBytes r.ds ++ wordBytes r.__ds ++ wordBytes r.es ++
    wordBytes r.__es ++ wordBytes r.fs ++ wordBytes r.__fs ++ wordBytes r.gs ++ wordBytes r.__gs

/-- Registers that are not assigned keep the zero of the `memset`. -/
def ofContext (c : MContext) : PtRegs where
  r15 := c.gregs[7]
  r14 := c.gregs[6]
  r13 := c.gregs[5]
  r12 := c.gregs[4]
  rbp := c.gregs[10]
  rbx := c.gregs[11]
  r11 := c.gregs[3]
  r10 := c.gregs[2]
  r9 := c.gregs[1]
  r8 := c.gregs[0]
  rax := c.gregs[13]
  rcx := c.gregs[14]
  rdx := c.gregs[12]
  rsi := c.gregs[9]
  rdi := c.gregs[8]
  orig_rax := 0
  rip := c.gregs[16]
  cs := c.gregs[18].setWidth 32
  __cs := 0
  flags := c.gregs[17]
  rsp := c.gregs[15]
  ss := c.gregs[21].setWidth 32
  __ss := 0
  fs_base := 0
  gs_base := 0
  ds := 0
  __ds := 0
  es := 0
  __es := 0
  fs := c.gregs[20].setWidth 32
  __fs := 0
  gs := c.gregs[19].setWidth 32
  __gs := 0

def specialRegs (r : PtRegs) : List (BitVec 64) :=
  [r.r15, r.r14, r.r13, r.r12, r.rbp, r.rbx, r.r11, r.r10, r.r9, r.r8, r.rax, r.rcx, r.rdx,
    r.rsi, r.rdi, r.rip]

theorem length_bytes (r : PtRegs) : r.bytes.length = 216 := by
  unfold PtRegs.bytes
  simp only [List.length_append, length_wordBytes]

end X86_64

namespace Arm

structure PtRegs where
  regs : Vector (BitVec 32) 13
  sp : BitVec 32
  lr : BitVec 32
  pc : BitVec 32
  cpsr : BitVec 32
  deriving DecidableEq

/-- `uc_mcontext` from `arm_r0` to `arm_cpsr`; `r` holds `arm_r0`..`arm_r10`, `arm_fp`
and `arm_ip`. -/
structure MContext where
  r : Vector (BitVec 32) 13
  sp : BitVec 32
  lr : BitVec 32
  pc : BitVec 32
  cpsr : BitVec 32
  deriving DecidableEq

def PtRegs.bytes (r : PtRegs) : Bytes :=
  r.regs.toList.flatMap wordBytes ++ wordBytes r.sp ++ wordBytes r.lr ++ wordBytes r.pc ++
    wordBytes r.cpsr

/-- `memcpy` of `sizeof(pt_regs)` bytes from `uc_mcontext.arm_r0`. -/
def ofContext (c : MContext) : PtRegs := ⟨c.r, c.sp, c.lr, c.pc, c.cpsr⟩

def specialRegs (r : PtRegs) : List (BitVec 32) := [r.pc] ++ r.regs.toList ++ [r.sp, r.lr]

theorem length_bytes (r : PtRegs) : r.bytes.length = 68 := by
  unfold PtRegs.bytes
  simp only [List.length_append, length_wordBytes]
  rw [length_flatMap_const _ 4 _ (by simp)]
  simp

end Arm

namespace X86

structure PtRegs where
  ebx : BitVec 32
  ecx : BitVec 32
  edx : BitVec 32
  esi : BitVec 32
  edi : BitVec 32
  ebp : BitVec 32
  eax : BitVec 32
  ds : BitVec 16
  __ds : BitVec 16
  es : BitVec 16
  __es : BitVec 16
  fs : BitVec 16
  __fs : BitVec 16
  gs : BitVec 16
  __gs : BitVec 16
  orig_eax : BitVec 32
  eip : BitVec 32
  cs : BitVec 16
  __cs : BitVec 16
  eflags : BitVec 32
  esp : BitVec 32
  ss : BitVec 16
  __ss : BitVec 16
  deriving DecidableEq

structure MContext where
  gregs : Vector (BitVec 32) 19
  deriving DecidableEq

def PtRegs.bytes (r : PtRegs) : Bytes :=
  wordBytes r.ebx ++ wordBytes r.ecx ++ wordBytes r.edx ++ wordBytes r.esi ++
    wordBytes r.edi ++ wordBytes r.ebp ++ wordBytes r.eax ++ wordBytes r.ds ++
    wordBytes r.__ds ++ wordBytes r.es ++ wordBytes r.__es ++ wordBytes r.fs ++
    wordBytes r.__fs ++ wordBytes r.gs ++ wordBytes r.__gs ++ wordBytes r.orig_eax ++
    wordBytes r.eip ++ wordBytes r.cs ++ wordBytes r.__cs ++ wordBytes r.eflags ++
    wordBytes r.esp ++ wordBytes r.ss ++ wordBytes r.__ss

def ofContext (c : MContext) : PtRegs where
  ebx := c.gregs[8]
  ecx := c.gregs[10]
  edx := c.gregs[9]
  esi := c.gregs[5]
  edi := c.gregs[4]
  ebp := c.gregs[6]
  eax := c.gregs[11]
  ds := c.gregs[3].setWidth 16
  __ds := 0
  es := c.gregs[2].setWidth 16
  __es := 0
  fs := c.gregs[1].setWidth 16
  __fs := 0
  gs := c.gregs[0].setWidth 16
  __gs := 0
  orig_eax := c.gregs[11]
  eip := c.gregs[14]
  cs := 0
  __cs := 0
  eflags := c.gregs[16]
  esp := c.gregs[7]
  ss := c.gregs[15].setWidth 16
  __ss := 0

def specialRegs (r : PtRegs) : List (BitVec 32) :=
  [r.ebx, r.edx, r.esi, r.edi, r.ebp, r.eax, r.eip, r.esp]

theorem length_bytes (r : PtRegs) : r.bytes.length = 68 := by
  unfold PtRegs.bytes
  simp only [List.length_append, length_wordBytes]

end X86

/-- The architectures the library is built for. -/
inductive Arch
  | arm64
  | x86_64
  | arm
  | x86
  deriving DecidableEq, Repr

namespace Arch

def cls : Arch → ElfClass
  | arm64 => .elf64
  | x86_64 => .elf64
  | arm => .elf32
  | x86 => .elf32

/-- `getMachine()`. -/
def machine : Arch → BitVec 16
  | arm64 => 183
  | x86_64 => 62
  | arm => 40
  | x86 => 3

@[reducible] def PtRegs : Arch → Type
  | arm64 => Arm64.PtRegs
  | x86_64 => X86_64.PtRegs
  | arm => Arm.PtRegs
  | x86 => X86.PtRegs

@[reducible] def MContext : Arch → Type
  | arm64 => Arm64.MContext
  | x86_64 => X86_64.MContext
  | arm => Arm.MContext
  | x86 => X86.MContext

def sizeofPtRegs : Arch → ℕ
  | arm64 => 272
  | x86_64 => 216
  | arm => 68
  | x86 => 68

def regsBytes : (a : Arch) → a.PtRegs → Bytes
  | arm64, r => Arm64.PtRegs.bytes r
  | x86_64, r => X86_64.PtRegs.bytes r
  | arm, r => Arm.PtRegs.bytes r
  | x86, r => X86.PtRegs.bytes r

def ofContext : (a : Arch) → a.MContext → a.PtRegs
  | arm64, c => Arm64.ofContext c
  | x86_64, c => X86_64.ofContext c
  | arm, c => Arm.ofContext c
  | x86, c => X86.ofContext c

/-- The registers compared with a VMA, promoted to the width of its bounds. -/
def specialRegs : (a : Arch) → a.PtRegs → List (BitVec 64)
  | arm64, r => Arm64.specialRegs r
  | x86_64, r => X86_64.specialRegs r
  | arm, r => (Arm.specialRegs r).map (BitVec.setWidth 64)
  | x86, r => (X86.specialRegs r).map (BitVec.setWidth 64)

/-- A register file of zeros. -/
def zeroRegs : (a : Arch) → a.PtRegs
  | arm64 => ⟨Vector.replicate 31 0, 0, 0, 0⟩
  | x86_64 => X86_64.ofContext ⟨Vector.replicate 23 0⟩
  | arm => ⟨Vector.replicate 13 0, 0, 0, 0, 0⟩
  | x86 => X86.ofContext ⟨Vector.replicate 19 0⟩

instance : (a : Arch) → DecidableEq a.PtRegs
  | arm64 => inferInstanceAs (DecidableEq Arm64.PtRegs)
  | x86_64 => inferInstanceAs (DecidableEq X86_64.PtRegs)
  | arm => inferInstanceAs (DecidableEq Arm.PtRegs)
  | x86 => inferInstanceAs (DecidableEq X86.PtRegs)

@[simp] theorem length_regsBytes : (a : Arch) → (r : a.PtRegs) →
    (a.regsBytes r).length = a.sizeofPtRegs
  | arm64, r => Arm64.length_bytes r
  | x86_64, r => X86_64.length_bytes r
  | arm, r => Arm.length_bytes r
  | x86, r => X86.length_bytes r

end Arch
end Opencore
