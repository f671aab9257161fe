import Opencore.Machine.Word
import Opencore.Arch.Registers

/-! The dumper object of `opencore.h` and its subclasses, and the process it dumps. -/
namespace Opencore
open Machine Elf

def FLAG_CORE : BitVec 32 := 1 <<< 0
def FLAG_PROCESS_COMM : BitVec 32 := 1 <<< 1
def FLAG_PID : BitVec 32 := 1 <<< 2
def FLAG_THREAD_COMM : BitVec 32 := 1 <<< 3
def FLAG_TID : BitVec 32 := 1 <<< 4
def FLAG_TIMESTAMP : BitVec 32 := 1 <<< 5
def FLAG_ALL : BitVec 32 :=
  FLAG_CORE ||| FLAG_PROCESS_COMM ||| FLAG_PID ||| FLAG_THREAD_COMM ||| FLAG_TID ||| FLAG_TIMESTAMP

def FILTER_NONE : BitVec 32 := 0
def FILTER_SPECIAL_VMA : BitVec 32 := 1 <<< 0
def FILTER_FILE_VMA : BitVec 32 := 1 <<< 1
def FILTER_SHARED_VMA : BitVec 32 := 1 <<< 2
def FILTER_SANITIZER_SHADOW_VMA : BitVec 32 := 1 <<< 3
def FILTER_NON_READ_VMA : BitVec 32 := 1 <<< 4
def FILTER_SIGNAL_CONTEXT : BitVec 32 := 1 <<< 5
def FILTER_MINIDUMP : BitVec 32 := 1 <<< 6
def FILTER_JAVAHEAP_VMA : BitVec 32 := 1 <<< 7
def FILTER_JIT_CACHE_VMA : BitVec 32 := 1 <<< 8

def VMA_NORMAL : BitVec 32 := 0
def VMA_NULL : BitVec 32 := 1 <<< 0
def VMA_INCLUDE : BitVec 32 := 1 <<< 1

def INVALID_TID : BitVec 32 := 0
def DEF_TIMEOUT : BitVec 32 := 120
def ELF_PAGE_SIZE : BitVec 32 := 0x1000

/-- `if (mask & bit)`. -/
def has (mask bit : BitVec 32) : Bool := mask &&& bit != 0

def RoundDown {w : ℕ} (x n : BitVec w) : BitVec w := x &&& -n

def RoundUp {w : ℕ} (x n : BitVec w) : BitVec w := RoundDown (x + n - 1) n

theorem RoundDown_ofNat {w k : ℕ} (hk : k < w) (v : ℕ) :
    RoundDown (BitVec.ofNat w v) (BitVec.ofNat w (2 ^ k)) = BitVec.ofNat w (v / 2 ^ k * 2 ^ k) :=
  and_neg_two_pow hk v

/-- Rounding up commutes with taking the word, so it never needs an overflow premise. -/
theorem RoundUp_ofNat {w k : ℕ} (hk : k < w) (v : ℕ) :
    RoundUp (BitVec.ofNat w v) (BitVec.ofNat w (2 ^ k)) = BitVec.ofNat w (alignUp v (2 ^ k)) := by
  have hpos : 0 < 2 ^ k := by positivity
  have hsum : BitVec.ofNat w v + BitVec.ofNat w (2 ^ k) - 1 = BitVec.ofNat w (v + (2 ^ k - 1)) := by
    have hsplit : v + 2 ^ k = v + (2 ^ k - 1) + 1 := by omega
    rw [← BitVec.ofNat_add, hsplit, BitVec.ofNat_add _ 1]
    exact BitVec.add_sub_cancel _ _
  rw [RoundUp, hsum, RoundDown_ofNat hk, alignUp]

structure VirtualMemoryArea where
  beginAddr : BitVec 64
  endAddr : BitVec 64
  flags : Vector UInt8 4
  offset : BitVec 32
  major : BitVec 32
  minor : BitVec 32
  inode : BitVec 64
  file : Bytes
  deriving DecidableEq

/-- A thread id handed out by the kernel, a positive `pid_t`. -/
structure Tid where
  val : BitVec 32
  pos : 0 < val.toInt
  deriving DecidableEq

structure ThreadRecord where
  pid : Tid
  attached : Bool
  deriving DecidableEq

/-- A non-null pointer and what it points to. -/
structure Ref (w : ℕ) (α : Type) where
  addr : BitVec w
  pointee : α
  addr_ne : addr ≠ 0

def ptrValue {w : ℕ} {α : Type} : Option (Ref w α) → BitVec w
  | none => 0
  | some r => r.addr

abbrev SigInfo := Vector UInt8 128

structure Auxv (c : ElfClass) where
  type : BitVec c.bits := 0
  value : BitVec c.bits := 0
  deriving DecidableEq

/-- `lp64::File` and `lp32::File`: one mapping of the NT_FILE note. -/
structure File (c : ElfClass) where
  beginAddr : BitVec c.bits
  endAddr : BitVec c.bits
  offset : BitVec c.bits
  deriving DecidableEq

def sizeofAuxv (c : ElfClass) : ℕ := 2 * (c.bits / 8)

def sizeofFile (c : ElfClass) : ℕ := 3 * (c.bits / 8)

def Auxv.bytes {c : ElfClass} (v : Auxv c) : Bytes := wordBytes v.type ++ wordBytes v.value

def File.bytes {c : ElfClass} (f : File c) : Bytes :=
  wordBytes f.beginAddr ++ wordBytes f.endAddr ++ wordBytes f.offset

@[simp] theorem length_auxvBytes {c : ElfClass} (v : Auxv c) : v.bytes.length = sizeofAuxv c := by
  simp only [Auxv.bytes, List.length_append, length_wordBytes, sizeofAuxv]
  ring

@[simp] theorem length_fileBytes {c : ElfClass} (f : File c) : f.bytes.length = sizeofFile c := by
  simp only [File.bytes, List.length_append, length_wordBytes, sizeofFile]
  ring

/-- `Elf64_prstatus` and `Elf32_prstatus`. The time fields are `uint64_t[2]` on lp64 and
`uint64_t` on lp32, so each is two words of the class. -/
structure PrStatus (a : Arch) where
  pr_si_signo : BitVec 32 := 0
  pr_si_code : BitVec 32 := 0
  pr_si_errno : BitVec 32 := 0
  pr_cursig : BitVec 16 := 0
  pr_sigpend : BitVec a.cls.bits := 0
  pr_sighold : BitVec a.cls.bits := 0
  pr_pid : BitVec 32 := 0
  pr_ppid : BitVec 32 := 0
  pr_pgrp : BitVec 32 := 0
  pd_sid : BitVec 32 := 0
  pr_utime : BitVec (2 * a.cls.bits) := 0
  pr_stime : BitVec (2 * a.cls.bits) := 0
  pr_cutime : BitVec (2 * a.cls.bits) := 0
  pr_cstime : BitVec (2 * a.cls.bits) := 0
  pr_reg : a.PtRegs := a.zeroRegs
  pr_fpvalid : BitVec 32 := 0

/-- The value-initialised record of `prstatus.assign(n, {})`. -/
def PrStatus.zero {a : Arch} : PrStatus a := {}

/-- Bytes after `pr_fpvalid`: alignment on lp64, `__padding2` on arm, nothing on x86. -/
def Arch.prTail : Arch → ℕ
  | arm64 => 4
  | x86_64 => 4
  | arm => 4
  | x86 => 0

def Arch.sizeofPrStatus : Arch → ℕ
  | arm64 => 392
  | x86_64 => 336
  | arm => 148
  | x86 => 144

def PrStatus.bytes {a : Arch} (p : PrStatus a) : Bytes :=
  wordBytes p.pr_si_signo ++ wordBytes p.pr_si_code ++ wordBytes p.pr_si_errno ++
    wordBytes p.pr_cursig ++ zeros 2 ++ wordBytes p.pr_sigpend ++ wordBytes p.pr_sighold ++
    wordBytes p.pr_pid ++ wordBytes p.pr_ppid ++ wordBytes p.pr_pgrp ++ wordBytes p.pd_sid ++
    wordBytes p.pr_utime ++ wordBytes p.pr_stime ++ wordBytes p.pr_cutime ++
    wordBytes p.pr_cstime ++ a.regsBytes p.pr_reg ++ wordBytes p.pr_fpvalid ++ zeros a.prTail

@[simp] theorem length_prStatusBytes {a : Arch} (p : PrStatus a) :
    p.bytes.length = a.sizeofPrStatus := by
  unfold PrStatus.bytes
  simp only [List.length_append, length_wordBytes, length_zeros, Arch.length_regsBytes]
  cases a <;> rfl

/-- The object behind `Opencore::GetInstance()`: the members of the three class levels. -/
structure Dumper (a : Arch) where
  -- class Opencore
  extra_note_filesz : BitVec 32
  threads : List ThreadRecord
  maps : List VirtualMemoryArea
  align_size : BitVec 32
  page_size : BitVec 32
  ucontext_raw : Option (Ref a.cls.bits a.MContext)
  siginfo : Option (Ref a.cls.bits SigInfo)
  dir : Bytes
  flag : BitVec 32
  pid : BitVec 32
  tid : BitVec 32
  filter : BitVec 32
  timeout : BitVec 32
  -- class OpencoreImpl of lp32 and lp64
  ehdr : Ehdr a.cls
  phdr : List (Phdr a.cls)
  note : Phdr a.cls
  auxv : List (Auxv a.cls)
  auxvnum : BitVec 32
  file : List (File a.cls)
  fileslen : BitVec 32
  -- class Opencore of the architecture
  prstatus : List (PrStatus a)

/-- The constructors, on a system whose `sysconf(_SC_PAGE_SIZE)` is `pageSize`. -/
def Dumper.new (a : Arch) (pageSize : ℕ) : Dumper a where
  extra_note_filesz := 0
  threads := []
  maps := []
  align_size := ELF_PAGE_SIZE
  page_size := BitVec.ofNat 32 pageSize
  ucontext_raw := none
  siginfo := none
  dir := []
  flag := FLAG_CORE ||| FLAG_PID ||| FLAG_PROCESS_COMM ||| FLAG_TIMESTAMP
  pid := INVALID_TID
  tid := INVALID_TID
  filter := FILTER_NONE
  timeout := DEF_TIMEOUT
  ehdr := {}
  phdr := []
  note := {}
  auxv := []
  auxvnum := 0
  file := []
  fileslen := 0
  prstatus := []

/-- An open `/proc/<pid>/mem`. A read that fails gives `none`, a short one fewer bytes. -/
structure ProcMem where
  pread64 : BitVec 64 → ℕ → Option Bytes
  bounded : ∀ addr n b, pread64 addr n = some b → b.length ≤ n

/-- A file that `open` finds, with what `fstat` and `mmap` answer for it. -/
structure FileImage where
  content : Bytes
  fstatOk : Bool := true
  mmapOk : Bool := true

/-- What the dump reads from the kernel: `/proc/<pid>`, mapped files, and `ptrace`
register sets by thread, `none` where a request fails. -/
structure ProcessView (a : Arch) where
  tasks : List Tid
  attach : Tid → Bool
  maps : List VirtualMemoryArea
  auxv : List (Auxv a.cls)
  mem : Option ProcMem
  files : Bytes → Option FileImage
  prstatus : BitVec 32 → Option a.PtRegs
  fpregset : BitVec 32 → Option (Vector UInt8 528)
  tls : BitVec 32 → Option (Vector UInt8 16)
  pacMask : BitVec 32 → Option (BitVec 64 × BitVec 64)
  pacEnabledKeys : BitVec 32 → Option (BitVec 64)
  taggedAddrCtrl : BitVec 32 → Option (BitVec 64)

end Opencore
