import Opencore.Machine.Bytes

/-! The ELF file header and program headers in both classes, and their stored bytes. -/
namespace Opencore.Elf
open Machine

inductive ElfClass
  | elf32
  | elf64
  deriving DecidableEq, Repr

/-- Width of `ElfN_Addr`, `ElfN_Off`, `size_t`, `long` and pointers of the class. -/
def ElfClass.bits : ElfClass → ℕ
  | .elf32 => 32
  | .elf64 => 64

theorem ElfClass.cases_eq (c : ElfClass) : c = .elf32 ∨ c = .elf64 := by cases c <;> simp

theorem ElfClass.bits_ge (c : ElfClass) : 32 ≤ c.bits := by cases c <;> decide

theorem ElfClass.eight_dvd_bits (c : ElfClass) : 8 ∣ c.bits := by cases c <;> decide

def ET_CORE : BitVec 16 := 4
def EV_CURRENT : BitVec 32 := 1
def PT_LOAD : BitVec 32 := 1
def PT_NOTE : BitVec 32 := 4
def PF_X : BitVec 32 := 1
def PF_W : BitVec 32 := 2
def PF_R : BitVec 32 := 4
def NT_PRSTATUS : BitVec 32 := 1
def NT_FPREGSET : BitVec 32 := 2
def NT_AUXV : BitVec 32 := 6
def NT_SIGINFO : BitVec 32 := 0x53494749
def NT_FILE : BitVec 32 := 0x46494c45
def NT_ARM_TLS : BitVec 32 := 0x401
def NT_ARM_PAC_MASK : BitVec 32 := 0x406
def NT_ARM_TAGGED_ADDR_CTRL : BitVec 32 := 0x409
def NT_ARM_PAC_ENABLED_KEYS : BitVec 32 := 0x40A

structure Ehdr (c : ElfClass) where
  e_ident : Vector UInt8 16 := Vector.replicate 16 0
  e_type : BitVec 16 := 0
  e_machine : BitVec 16 := 0
  e_version : BitVec 32 := 0
  e_entry : BitVec c.bits := 0
  e_phoff : BitVec c.bits := 0
  e_shoff : BitVec c.bits := 0
  e_flags : BitVec 32 := 0
  e_ehsize : BitVec 16 := 0
  e_phentsize : BitVec 16 := 0
  e_phnum : BitVec 16 := 0
  e_shentsize : BitVec 16 := 0
  e_shnum : BitVec 16 := 0
  e_shstrndx : BitVec 16 := 0
  deriving DecidableEq

structure Phdr (c : ElfClass) where
  p_type : BitVec 32 := 0
  p_flags : BitVec 32 := 0
  p_offset : BitVec c.bits := 0
  p_vaddr : BitVec c.bits := 0
  p_paddr : BitVec c.bits := 0
  p_filesz : BitVec c.bits := 0
  p_memsz : BitVec c.bits := 0
  p_align : BitVec c.bits := 0
  deriving DecidableEq

def sizeofEhdr : ElfClass → ℕ
  | .elf32 => 52
  | .elf64 => 64

def sizeofPhdr : ElfClass → ℕ
  | .elf32 => 32
  | .elf64 => 56

def sizeofNhdr : ℕ := 12

def Ehdr.bytes {c : ElfClass} (e : Ehdr c) : Bytes :=
  e.e_ident.toList ++ wordBytes e.e_type ++ wordBytes e.e_machine ++ wordBytes e.e_version ++
    wordBytes e.e_entry ++ wordBytes e.e_phoff ++ wordBytes e.e_shoff ++ wordBytes e.e_flags ++
    wordBytes e.e_ehsize ++ wordBytes e.e_phentsize ++ wordBytes e.e_phnum ++
    wordBytes e.e_shentsize ++ wordBytes e.e_shnum ++ wordBytes e.e_shstrndx

/-- The two classes store `p_flags` in different places. -/
def Phdr.bytes : {c : ElfClass} → Phdr c → Bytes
  | .elf32, p => wordBytes p.p_type ++ wordBytes p.p_offset ++ wordBytes p.p_vaddr ++
      wordBytes p.p_paddr ++ wordBytes p.p_filesz ++ wordBytes p.p_memsz ++
      wordBytes p.p_flags ++ wordBytes p.p_align
  | .elf64, p => wordBytes p.p_type ++ wordBytes p.p_flags ++ wordBytes p.p_offset ++
      wordBytes p.p_vaddr ++ wordBytes p.p_paddr ++ wordBytes p.p_filesz ++
      wordBytes p.p_memsz ++ wordBytes p.p_align

@[simp] theorem length_ehdrBytes {c : ElfClass} (e : Ehdr c) : e.bytes.length = sizeofEhdr c := by
  simp only [Ehdr.bytes, List.length_append, length_wordBytes, Vector.length_toList]
  cases c <;> rfl

@[simp] theorem length_phdrBytes {c : ElfClass} (p : Phdr c) : p.bytes.length = sizeofPhdr c := by
  cases c <;> simp only [Phdr.bytes, List.length_append, length_wordBytes] <;> rfl

theorem phdrBytes_type {c : ElfClass} (p : Phdr c) :
    ∃ rest, p.bytes = wordBytes p.p_type ++ rest := by
  cases c <;> simp only [Phdr.bytes, List.append_assoc] <;> exact ⟨_, rfl⟩

end Opencore.Elf
