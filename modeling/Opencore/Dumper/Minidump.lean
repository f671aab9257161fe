import Opencore.Dumper.Collected
import Opencore.Dumper.FilterOrder

/-! Minidumps: the areas that the registers of the top thread point into. -/
namespace Opencore
open Machine Elf

/-- The general-purpose registers, the program counter, the stack pointer and, where it is
a register of its own, the link register. -/
def Arch.registerFile : (a : Arch) → a.PtRegs → List (BitVec 64)
  | .arm64, r => r.regs.toList ++ [r.sp, r.pc]
  | .x86_64, r => [r.rax, r.rbx, r.rcx, r.rdx, r.rsi, r.rdi, r.rbp, r.rsp, r.r8, r.r9, r.r10,
      r.r11, r.r12, r.r13, r.r14, r.r15, r.rip]
  | .arm, r => (r.regs.toList ++ [r.sp, r.lr, r.pc]).map (BitVec.setWidth 64)
  | .x86, r => [r.eax, r.ebx, r.ecx, r.edx, r.esi, r.edi, r.ebp, r.esp, r.eip].map
      (BitVec.setWidth 64)

/-- The register that `IsSpecialFilterSegment` compares with nothing. -/
def Arch.uncheckedReg : (a : Arch) → a.PtRegs → Option (BitVec 64)
  | .arm64, _ => none
  | .x86_64, r => some r.rsp
  | .arm, _ => none
  | .x86, r => some (r.ecx.setWidth 64)

variable {a : Arch}

/-- Only one register is missing, and only on the x86 family. -/
theorem mem_registerFile : ∀ {a : Arch} (r : a.PtRegs) (x : BitVec 64),
    x ∈ a.registerFile r ↔ x ∈ a.specialRegs r ∨ x ∈ a.uncheckedReg r
  | .arm64, r, x => by
    simp only [Arch.registerFile, Arch.specialRegs, Arm64.specialRegs, Arch.uncheckedReg,
      List.mem_append, List.mem_cons, List.not_mem_nil, Option.not_mem_none]
    apply iff_of_eq
    ac_rfl
  | .x86_64, r, x => by
    simp only [Arch.registerFile, Arch.specialRegs, X86_64.specialRegs, Arch.uncheckedReg,
      List.mem_cons, List.not_mem_nil, Option.mem_some, eq_comm (a := r.rsp)]
    apply iff_of_eq
    ac_rfl
  | .arm, r, x => by
    simp only [Arch.registerFile, Arch.specialRegs, Arm.specialRegs, Arch.uncheckedReg,
      List.map_append, List.map_cons, List.map_nil, List.mem_append, List.mem_cons,
      List.not_mem_nil, Option.not_mem_none]
    apply iff_of_eq
    ac_rfl
  | .x86, r, x => by
    simp only [Arch.registerFile, Arch.specialRegs, X86.specialRegs, Arch.uncheckedReg,
      List.map_cons, List.map_nil, List.mem_cons, List.not_mem_nil, Option.mem_some,
      eq_comm (a := r.ecx.setWidth 64)]
    apply iff_of_eq
    ac_rfl

theorem exists_mem_registerFile {r : a.PtRegs} {vma : VirtualMemoryArea} :
    (∃ x ∈ a.registerFile r, inVma vma x = true) ↔
      (∃ x ∈ a.specialRegs r, inVma vma x = true) ∨ ∃ x ∈ a.uncheckedReg r, inVma vma x = true := by
  simp only [mem_registerFile]
  constructor
  · rintro ⟨x, hx | hx, hin⟩
    · exact Or.inl ⟨x, hx, hin⟩
    · exact Or.inr ⟨x, hx, hin⟩
  · rintro (⟨x, hx, hin⟩ | ⟨x, hx, hin⟩)
    · exact ⟨x, Or.inl hx, hin⟩
    · exact ⟨x, Or.inr hx, hin⟩

section Flags

variable {c : ElfClass} {verdict : BitVec 32}

/-- The include flag of the minidump wins over every other filter. -/
theorem filesz_include (hverdict : verdict = VMA_NULL ∨ verdict = VMA_NORMAL) (ph : Phdr c) :
    (applyVmaFlag (verdict ||| VMA_INCLUDE) ph).p_filesz = ph.p_memsz := by
  have hflag : has (verdict ||| VMA_INCLUDE) VMA_INCLUDE = true := by
    rcases hverdict with rfl | rfl
    · decide
    · decide
  rw [applyVmaFlag_filesz, if_pos hflag]

theorem filesz_null (hverdict : verdict = VMA_NULL ∨ verdict = VMA_NORMAL) (ph : Phdr c) :
    (applyVmaFlag (verdict ||| VMA_NULL) ph).p_filesz = 0 := by
  have hinclude : ¬ has (verdict ||| VMA_NULL) VMA_INCLUDE = true := by
    rcases hverdict with rfl | rfl
    · decide
    · decide
  have hnull : has (verdict ||| VMA_NULL) VMA_NULL = true := by
    rcases hverdict with rfl | rfl
    · decide
    · decide
  rw [applyVmaFlag_filesz, if_neg hinclude, if_pos hnull]

end Flags

theorem minidump_filesz {d d' : Dumper a} {files : Bytes → Option FileImage}
    (hmini : has d.filter FILTER_MINIDUMP = true) (hrun : specialCoreFilter d files = some d')
    {i : ℕ} {vma : VirtualMemoryArea} {orig ph : Phdr a.cls} (hvma : d.maps[i]? = some vma)
    (horig : d.phdr[i]? = some orig) (hph : d'.phdr[i]? = some ph) :
    ph.p_memsz = orig.p_memsz ∧ (d.prstatus = [] → ph.p_filesz = 0) ∧
    ∀ top rest, d.prstatus = top :: rest →
      ph.p_filesz = if (a.specialRegs top.pr_reg).any (inVma vma) then orig.p_memsz else 0 := by
  obtain ⟨vma_flag, hflag, hi⟩ := specialCoreFilter_getElem? hrun hvma horig
  obtain rfl : ph = applyVmaFlag vma_flag orig := Option.some.inj (hph.symm.trans hi)
  obtain ⟨verdict, hfilter, rfl⟩ := Option.map_eq_some_iff.mp hflag
  have hverdict := isFilterSegment_verdict hfilter
  refine ⟨applyVmaFlag_memsz _ orig, ?_, ?_⟩
  · intro hempty
    have hspecial : isSpecialFilterSegment d vma = VMA_NULL := by
      rw [isSpecialFilterSegment, if_pos hmini, hempty]
    rw [hspecial]
    exact filesz_null hverdict orig
  · intro top rest htop
    by_cases hany : (a.specialRegs top.pr_reg).any (inVma vma) = true
    · have hspecial : isSpecialFilterSegment d vma = VMA_INCLUDE := by
        rw [isSpecialFilterSegment, if_pos hmini, htop]
        exact if_pos hany
      rw [hspecial, if_pos hany]
      exact filesz_include hverdict orig
    · have hspecial : isSpecialFilterSegment d vma = VMA_NULL := by
        rw [isSpecialFilterSegment, if_pos hmini, htop]
        exact if_neg hany
      rw [hspecial, if_neg hany]
      exact filesz_null hverdict orig

/-- A minidump keeps exactly the areas that the register file points into, unless the one
register that is not compared decides: an area that it alone points into is lost. -/
theorem minidump_kept_iff {d d' : Dumper a} {files : Bytes → Option FileImage}
    (hmini : has d.filter FILTER_MINIDUMP = true)
    (hphdr : d.phdr = d.maps.map fun vma => parserPhdr d.align_size vma {})
    (hrun : specialCoreFilter d files = some d') {i : ℕ} {vma : VirtualMemoryArea}
    {ph : Phdr a.cls} (hvma : d.maps[i]? = some vma) (hph : d'.phdr[i]? = some ph) :
    (d.prstatus = [] → ph.p_filesz = 0) ∧
    ∀ top rest, d.prstatus = top :: rest →
      ((ph.p_filesz = ph.p_memsz ↔ ∃ x ∈ a.registerFile top.pr_reg, inVma vma x = true) ↔
        (∃ x ∈ a.specialRegs top.pr_reg, inVma vma x = true) ∨
          ((parserPhdr d.align_size vma {} : Phdr a.cls).p_memsz = 0 ↔
            ∃ x ∈ a.uncheckedReg top.pr_reg, inVma vma x = true)) := by
  have horig : d.phdr[i]? = some (parserPhdr d.align_size vma {}) := by
    rw [hphdr, List.getElem?_map, hvma]
    rfl
  obtain ⟨hmemsz, hempty, hfilesz⟩ := minidump_filesz hmini hrun hvma horig hph
  refine ⟨hempty, fun top rest htop => ?_⟩
  rw [hfilesz top rest htop, hmemsz, exists_mem_registerFile]
  by_cases hany : (a.specialRegs top.pr_reg).any (inVma vma) = true
  · have hexists := List.any_eq_true.mp hany
    simp [hany, hexists]
  · have hnone : ¬ ∃ x ∈ a.specialRegs top.pr_reg, inVma vma x = true :=
      fun h => hany (List.any_eq_true.mpr h)
    rw [if_neg hany, eq_comm, or_iff_right hnone, or_iff_right hnone]

def minidumper (a : Arch) (vma : VirtualMemoryArea) (pr_reg : a.PtRegs) : Dumper a :=
  { Dumper.new a 4096 with
    filter := FILTER_MINIDUMP
    maps := [vma]
    phdr := [parserPhdr ELF_PAGE_SIZE vma {}]
    prstatus := [{ pr_reg := pr_reg }] }

def pageVma : VirtualMemoryArea := anonymousVma 0x7000 0x8000

def stackRegs : Arm64.PtRegs := { Arch.zeroRegs .arm64 with sp := 0x7800 }

theorem minidump_kept_stack :
    ∃ d ph, specialCoreFilter (minidumper .arm64 pageVma stackRegs) (fun _ => none) = some d ∧
      d.phdr[0]? = some ph ∧ ph.p_filesz = ph.p_memsz := by
  have hrun : specialCoreFilter (minidumper .arm64 pageVma stackRegs) (fun _ => none) =
    some (minidumper .arm64 pageVma stackRegs) := rfl
  obtain ⟨-, hkept⟩ := minidump_kept_iff (by decide) rfl hrun (i := 0) rfl rfl
  refine ⟨_, _, hrun, rfl, ((hkept _ [] rfl).mpr (Or.inl ?_)).mpr ?_⟩
  · exact ⟨0x7800, by decide, by decide⟩
  · exact ⟨0x7800, by decide, by decide⟩

/-- On x86_64 the area that only the stack pointer points into is lost, and on x86 the one
that only `ecx` points into. -/
theorem minidump_loses_stack :
    (specialCoreFilter (minidumper .x86_64 pageVma
      { Arch.zeroRegs .x86_64 with rsp := 0x7800 }) fun _ => none).map
        (fun d => d.phdr.map fun ph => (ph.p_filesz, ph.p_memsz)) = some [(0, 0x1000)] ∧
    (specialCoreFilter (minidumper .x86 pageVma
      { Arch.zeroRegs .x86 with ecx := 0x7800 }) fun _ => none).map
        (fun d => d.phdr.map fun ph => (ph.p_filesz, ph.p_memsz)) = some [(0, 0x1000)] := by
  constructor
  · rfl
  · rfl

end Opencore
