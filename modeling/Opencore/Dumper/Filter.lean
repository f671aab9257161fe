import Opencore.Dumper.State

/-! The VMA filters: which mappings keep their memory in the core. -/
namespace Opencore
open Machine Elf

/-- Read from a private mapping of the first `length` bytes of a file. It consists of whole
pages, with zeros after the end of the file; an access past its last page faults. -/
def mapRead (pageSize length : ℕ) (content : Bytes) (off n : ℕ) : Option Bytes :=
  let mapped := alignUp length pageSize
  if off + n ≤ mapped then some (slice (content ++ zeros (mapped - content.length)) off n)
  else none

/-- `sb.st_size` as the `size_t` argument of `mmap`. -/
def mapLength (c : ElfClass) (content : Bytes) : ℕ := content.length % 2 ^ c.bits

def readWord (read : ℕ → ℕ → Option Bytes) (w off : ℕ) : Option (BitVec w) :=
  (read off (w / 8)).map fun b => BitVec.ofNat w (ofLe b)

/-- Offsets of the members of `ElfN_Ehdr` and `ElfN_Phdr` that `NeedFilterFile` reads. -/
structure ElfOffsets where
  e_phnum : ℕ
  p_flags : ℕ
  p_offset : ℕ
  p_memsz : ℕ

def elfOffsets : ElfClass → ElfOffsets
  | .elf32 => { e_phnum := 44, p_flags := 24, p_offset := 4, p_memsz := 20 }
  | .elf64 => { e_phnum := 56, p_flags := 4, p_offset := 8, p_memsz := 40 }

/-- The loop of `NeedFilterFile` over the remaining `n` program headers, the first of
them at index `i`. `none` is a fault. -/
def needFilterLoop (c : ElfClass) (read : ℕ → ℕ → Option Bytes) (page_size offset : BitVec 32) :
    ℕ → ℕ → BitVec 32 → Option (BitVec 32)
  | 0, _, ret => some ret
  | n + 1, i, ret => do
    let ph := sizeofEhdr c + i * sizeofPhdr c
    let p_type ← readWord read 32 ph
    if p_type ≠ PT_LOAD then needFilterLoop c read page_size offset n (i + 1) ret
    else
      let p_offset ← readWord read c.bits (ph + (elfOffsets c).p_offset)
      let p_memsz ← readWord read c.bits (ph + (elfOffsets c).p_memsz)
      -- `int pos` and `int end`; the comparisons with the `uint32_t` offset are unsigned
      let pos := (RoundDown p_offset (page_size.setWidth c.bits)).setWidth 32
      let stop := (pos.signExtend c.bits + p_memsz).setWidth 32
      if pos ≤ offset ∧ offset < stop then
        let p_flags ← readWord read 32 (ph + (elfOffsets c).p_flags)
        needFilterLoop c read page_size offset n (i + 1)
          (if has p_flags PF_W then VMA_NORMAL else ret)
      else needFilterLoop c read page_size offset n (i + 1) ret

variable {a : Arch}

def needFilterFile (d : Dumper a) (files : Bytes → Option FileImage) (vma : VirtualMemoryArea) :
    Option (BitVec 32) :=
  match files vma.file with
  | none => some VMA_NULL
  | some f =>
    if ¬ f.fstatOk then some VMA_NULL
    else if mapLength a.cls f.content = 0 ∨ ¬ f.mmapOk then some VMA_NULL
    else do
      let read := mapRead d.page_size.toNat (mapLength a.cls f.content) f.content
      let magic ← read 0 4
      let e_machine ← readWord read 16 18
      if magic ≠ 0x7f :: ascii "ELF" ∨ e_machine ≠ a.machine then some VMA_NULL
      else
        let e_phnum ← readWord read 16 (elfOffsets a.cls).e_phnum
        needFilterLoop a.cls read d.page_size vma.offset e_phnum.toNat 0 VMA_NULL

/-! The conditions of `IsFilterSegment`, one for each filter bit. -/

def isSpecialVma (vma : VirtualMemoryArea) : Bool :=
  vma.file == ascii "/dev/binderfs/hwbinder" || vma.file == ascii "/dev/binderfs/binder" ||
    vma.file == ascii "[vvar]" || vma.file == ascii "/dev/mali0"

def isFileVma (vma : VirtualMemoryArea) : Bool :=
  vma.inode > 0 && vma.flags[1] == UInt8.ofNat '-'.toNat

def isSharedVma (vma : VirtualMemoryArea) : Bool :=
  vma.flags[3] == UInt8.ofNat 's'.toNat || vma.flags[3] == UInt8.ofNat 'S'.toNat

def isSanitizerShadowVma (vma : VirtualMemoryArea) : Bool :=
  vma.file == ascii "[anon:low shadow]" || vma.file == ascii "[anon:high shadow]" ||
    vma.file.take 12 == ascii "[anon:hwasan"

def isNonReadVma (vma : VirtualMemoryArea) : Bool :=
  vma.flags[0] == UInt8.ofNat '-'.toNat && vma.flags[1] == UInt8.ofNat '-'.toNat &&
    vma.flags[2] == UInt8.ofNat '-'.toNat

def isJavaHeapVma (vma : VirtualMemoryArea) : Bool := vma.file.take 12 == ascii "[anon:dalvik"

def isJitCacheVma (vma : VirtualMemoryArea) : Bool := vma.file.take 10 == ascii "/memfd:jit"

/-- The file test returns the verdict of `NeedFilterFile`, whatever it is. -/
def isFilterSegment (d : Dumper a) (files : Bytes → Option FileImage) (vma : VirtualMemoryArea) :
    Option (BitVec 32) :=
  if has d.filter FILTER_SPECIAL_VMA && isSpecialVma vma then some VMA_NULL
  else if has d.filter FILTER_FILE_VMA && isFileVma vma then needFilterFile d files vma
  else if has d.filter FILTER_SHARED_VMA && isSharedVma vma then some VMA_NULL
  else if has d.filter FILTER_SANITIZER_SHADOW_VMA && isSanitizerShadowVma vma then some VMA_NULL
  else if has d.filter FILTER_NON_READ_VMA && isNonReadVma vma then some VMA_NULL
  else if has d.filter FILTER_JAVAHEAP_VMA && isJavaHeapVma vma then some VMA_NULL
  else if has d.filter FILTER_JIT_CACHE_VMA && isJitCacheVma vma then some VMA_NULL
  else some VMA_NORMAL

def inVma (vma : VirtualMemoryArea) (r : BitVec 64) : Bool := vma.beginAddr ≤ r && r < vma.endAddr

def isSpecialFilterSegment (d : Dumper a) (vma : VirtualMemoryArea) : BitVec 32 :=
  if has d.filter FILTER_MINIDUMP then
    match d.prstatus with
    | [] => VMA_NULL
    | top :: _ => if (a.specialRegs top.pr_reg).any (inVma vma) then VMA_INCLUDE else VMA_NULL
  else VMA_NORMAL

def vmaFlag (d : Dumper a) (files : Bytes → Option FileImage) (vma : VirtualMemoryArea) :
    Option (BitVec 32) :=
  (isFilterSegment d files vma).map (· ||| isSpecialFilterSegment d vma)

/-- What `SpecialCoreFilter` does to one program header under a `vma_flag`. -/
def applyVmaFlag {c : ElfClass} (vma_flag : BitVec 32) (ph : Phdr c) : Phdr c :=
  let ph := if has vma_flag VMA_NULL then { ph with p_filesz := 0 } else ph
  if has vma_flag VMA_INCLUDE then { ph with p_filesz := ph.p_memsz } else ph

def applyVmaFlags {c : ElfClass} : List (BitVec 32) → List (Phdr c) → List (Phdr c)
  | vma_flag :: flags, ph :: phdr => applyVmaFlag vma_flag ph :: applyVmaFlags flags phdr
  | _, phdr => phdr

/-- `none` when a filter faults while it reads a mapped file. -/
def specialCoreFilter (d : Dumper a) (files : Bytes → Option FileImage) : Option (Dumper a) :=
  (d.maps.mapM (vmaFlag d files)).map fun flags =>
    { d with phdr := applyVmaFlags flags d.phdr }

theorem applyVmaFlag_filesz {c : ElfClass} (vma_flag : BitVec 32) (ph : Phdr c) :
    (applyVmaFlag vma_flag ph).p_filesz =
      if has vma_flag VMA_INCLUDE then ph.p_memsz
      else if has vma_flag VMA_NULL then 0 else ph.p_filesz := by
  unfold applyVmaFlag
  split_ifs <;> rfl

@[simp] theorem applyVmaFlag_memsz {c : ElfClass} (vma_flag : BitVec 32) (ph : Phdr c) :
    (applyVmaFlag vma_flag ph).p_memsz = ph.p_memsz := by
  unfold applyVmaFlag
  split_ifs <;> rfl

@[simp] theorem applyVmaFlag_align {c : ElfClass} (vma_flag : BitVec 32) (ph : Phdr c) :
    (applyVmaFlag vma_flag ph).p_align = ph.p_align := by
  unfold applyVmaFlag
  split_ifs <;> rfl

@[simp] theorem length_applyVmaFlags {c : ElfClass} (flags : List (BitVec 32))
    (phdr : List (Phdr c)) : (applyVmaFlags flags phdr).length = phdr.length := by
  induction flags, phdr using applyVmaFlags.induct with
  | case1 vma_flag flags ph phdr ih => simp [applyVmaFlags, ih]
  | case2 flags phdr h => rw [applyVmaFlags]; exact h

theorem applyVmaFlags_normal {c : ElfClass} {flags : List (BitVec 32)}
    (h : ∀ vma_flag ∈ flags, vma_flag = VMA_NORMAL) (phdr : List (Phdr c)) :
    applyVmaFlags flags phdr = phdr := by
  induction flags, phdr using applyVmaFlags.induct with
  | case1 vma_flag flags ph phdr ih =>
    rw [applyVmaFlags, ih fun f hf => h f (List.mem_cons_of_mem vma_flag hf),
      h vma_flag List.mem_cons_self]
    rfl
  | case2 flags phdr hne => rw [applyVmaFlags]; exact hne

theorem applyVmaFlags_getElem? {c : ElfClass} {flags : List (BitVec 32)} {phdr : List (Phdr c)}
    {i : ℕ} {vma_flag : BitVec 32} {ph : Phdr c} (hflag : flags[i]? = some vma_flag)
    (hph : phdr[i]? = some ph) :
    (applyVmaFlags flags phdr)[i]? = some (applyVmaFlag vma_flag ph) := by
  induction flags, phdr using applyVmaFlags.induct generalizing i with
  | case1 f flags p phdr ih =>
    rw [applyVmaFlags]
    cases i with
    | zero =>
      obtain rfl : f = vma_flag := Option.some.inj hflag
      obtain rfl : p = ph := Option.some.inj hph
      rfl
    | succ i => exact ih hflag hph
  | case2 flags phdr hne =>
    cases flags with
    | nil => cases hflag
    | cons f flags =>
      cases phdr with
      | nil => cases hph
      | cons p phdr => exact absurd rfl (hne f flags p phdr rfl)

theorem mapM_getElem? {α β : Type*} {f : α → Option β} {xs : List α} {ys : List β}
    (h : xs.mapM f = some ys) {i : ℕ} {x : α} (hx : xs[i]? = some x) :
    ∃ y, f x = some y ∧ ys[i]? = some y := by
  induction xs generalizing ys i with
  | nil => cases hx
  | cons z xs ih =>
    rw [List.mapM_cons] at h
    obtain ⟨y, hy, h⟩ := Option.bind_eq_some_iff.mp h
    obtain ⟨ys, hys, h⟩ := Option.bind_eq_some_iff.mp h
    obtain rfl := Option.some.inj h
    cases i with
    | zero =>
      obtain rfl : z = x := Option.some.inj hx
      exact ⟨y, hy, rfl⟩
    | succ i => exact ih hys hx

theorem applyVmaFlags_map {α : Type*} {c : ElfClass} (flag : α → BitVec 32) (ph : α → Phdr c)
    (xs : List α) : applyVmaFlags (xs.map flag) (xs.map ph) =
      xs.map fun x => applyVmaFlag (flag x) (ph x) := by
  induction xs with
  | nil => rfl
  | cons x xs ih => simp only [List.map_cons, applyVmaFlags, ih]

theorem specialCoreFilter_getElem? {d d' : Dumper a} {files : Bytes → Option FileImage}
    (h : specialCoreFilter d files = some d') {i : ℕ} {vma : VirtualMemoryArea} {ph : Phdr a.cls}
    (hvma : d.maps[i]? = some vma) (hph : d.phdr[i]? = some ph) :
    ∃ vma_flag, vmaFlag d files vma = some vma_flag ∧
      d'.phdr[i]? = some (applyVmaFlag vma_flag ph) := by
  obtain ⟨flags, hflags, rfl⟩ := Option.map_eq_some_iff.mp h
  obtain ⟨vma_flag, hflag, hi⟩ := mapM_getElem? hflags hvma
  exact ⟨vma_flag, hflag, applyVmaFlags_getElem? hi hph⟩

theorem has_none (bit : BitVec 32) : has FILTER_NONE bit = false := by
  rw [FILTER_NONE, has, show (0 : BitVec 32) &&& bit = 0 from BitVec.zero_and]
  rfl

theorem specialCoreFilter_none {d : Dumper a} (h : d.filter = FILTER_NONE)
    (files : Bytes → Option FileImage) : specialCoreFilter d files = some d := by
  have hbit : ∀ bit, has d.filter bit = false := fun bit => by rw [h, has_none]
  have hflag : vmaFlag d files = fun _ => pure VMA_NORMAL := by
    funext vma
    simp [vmaFlag, isFilterSegment, isSpecialFilterSegment, hbit, VMA_NORMAL]
  have hflags : d.maps.mapM (vmaFlag d files) = some (d.maps.map fun _ => VMA_NORMAL) := by
    rw [hflag]
    exact List.mapM_pure
  rw [specialCoreFilter, hflags, Option.map_some, applyVmaFlags_normal (by simp)]

/-- Every filtered header is an unfiltered one under some flag, or one left alone. -/
theorem mem_applyVmaFlags {c : ElfClass} {flags : List (BitVec 32)} {phdr : List (Phdr c)}
    {ph : Phdr c} (h : ph ∈ applyVmaFlags flags phdr) :
    ∃ orig ∈ phdr, ph = orig ∨ ∃ vma_flag, ph = applyVmaFlag vma_flag orig := by
  induction flags, phdr using applyVmaFlags.induct with
  | case1 vma_flag flags p phdr ih =>
    rw [applyVmaFlags, List.mem_cons] at h
    rcases h with rfl | h
    · exact ⟨p, List.mem_cons_self, Or.inr ⟨vma_flag, rfl⟩⟩
    · obtain ⟨orig, ho, hc⟩ := ih h
      exact ⟨orig, List.mem_cons_of_mem p ho, hc⟩
  | case2 flags phdr hne =>
    rw [applyVmaFlags] at h
    · exact ⟨ph, h, Or.inl rfl⟩
    · exact hne

end Opencore
