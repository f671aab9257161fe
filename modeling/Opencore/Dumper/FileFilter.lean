import Opencore.Dumper.Core

/-! `NeedFilterFile` on the pages that the mapping of a file backs: which reads fault, and which
areas are kept. -/
namespace Opencore
open Machine Elf

variable {a : Arch} {c : ElfClass}

/-- The pages that a mapping of the first `length` bytes of a file backs. -/
def mappedBytes (pageSize length : ℕ) (content : Bytes) : Bytes :=
  slice (content ++ zeros (alignUp length pageSize - content.length)) 0 (alignUp length pageSize)

/-- A read of `n` bytes, where it lies within the given ones. -/
def readIn (m : Bytes) (off n : ℕ) : Option Bytes :=
  if off + n ≤ m.length then some (slice m off n) else none

/-- A word in memory; bytes behind the end count as zeros. -/
def wordAt (w : ℕ) (m : Bytes) (off : ℕ) : BitVec w := BitVec.ofNat w (ofLe (slice m off (w / 8)))

def phdrAt : (c : ElfClass) → Bytes → ℕ → Phdr c
  | .elf32, m, off =>
    { p_type := wordAt 32 m off
      p_offset := wordAt ElfClass.elf32.bits m (off + 4)
      p_vaddr := wordAt ElfClass.elf32.bits m (off + 8)
      p_paddr := wordAt ElfClass.elf32.bits m (off + 12)
      p_filesz := wordAt ElfClass.elf32.bits m (off + 16)
      p_memsz := wordAt ElfClass.elf32.bits m (off + 20)
      p_flags := wordAt 32 m (off + 24)
      p_align := wordAt ElfClass.elf32.bits m (off + 28) }
  | .elf64, m, off =>
    { p_type := wordAt 32 m off
      p_flags := wordAt 32 m (off + 4)
      p_offset := wordAt ElfClass.elf64.bits m (off + 8)
      p_vaddr := wordAt ElfClass.elf64.bits m (off + 16)
      p_paddr := wordAt ElfClass.elf64.bits m (off + 24)
      p_filesz := wordAt ElfClass.elf64.bits m (off + 32)
      p_memsz := wordAt ElfClass.elf64.bits m (off + 40)
      p_align := wordAt ElfClass.elf64.bits m (off + 48) }

/-- `phdr[index]`, in the table that the code takes to follow the header. -/
def phdrBehindHeader (c : ElfClass) (m : Bytes) (index : ℕ) : Phdr c :=
  phdrAt c m (sizeofEhdr c + index * sizeofPhdr c)

/-- The members that the loop reads of `phdr[index]` lie in the mapped pages. -/
def Backed (c : ElfClass) (m : Bytes) (index : ℕ) : Prop :=
  sizeofEhdr c + index * sizeofPhdr c + 4 ≤ m.length ∧
    ((phdrBehindHeader c m index).p_type = PT_LOAD →
      sizeofEhdr c + index * sizeofPhdr c + ((elfOffsets c).p_memsz + c.bits / 8) ≤ m.length)

instance (c : ElfClass) (m : Bytes) (index : ℕ) : Decidable (Backed c m index) :=
  inferInstanceAs (Decidable (_ ∧ _))

/-- What the loop asks of a program header before it looks at `p_flags`. -/
def coversOffset (page_size offset : BitVec 32) (ph : Phdr c) : Bool :=
  let pos := (RoundDown ph.p_offset (page_size.setWidth c.bits)).setWidth 32
  let stop := (pos.signExtend c.bits + ph.p_memsz).setWidth 32
  decide (pos ≤ offset) && decide (offset < stop)

def isWritableLoad (ph : Phdr c) : Bool := ph.p_type == PT_LOAD && has ph.p_flags PF_W

/-- `phdr[index]` keeps the area: a writable PT_LOAD that the loop takes to cover its offset. -/
def Keeps (c : ElfClass) (m : Bytes) (page_size offset : BitVec 32) (index : ℕ) : Prop :=
  isWritableLoad (phdrBehindHeader c m index) = true ∧
    coversOffset page_size offset (phdrBehindHeader c m index) = true

instance (c : ElfClass) (m : Bytes) (page_size offset : BitVec 32) (index : ℕ) :
    Decidable (Keeps c m page_size offset index) :=
  inferInstanceAs (Decidable (_ ∧ _))

/-- The verdict after the entries with the given indices, when none of them faults. -/
def verdictOver (c : ElfClass) (m : Bytes) (page_size offset : BitVec 32) (entries : List ℕ)
    (ret : BitVec 32) : BitVec 32 :=
  if ∃ j ∈ entries, Keeps c m page_size offset j then VMA_NORMAL else ret

section Memory

theorem length_slice {m : Bytes} {off n : ℕ} (h : off + n ≤ m.length) :
    (slice m off n).length = n := by
  rw [slice, List.length_take, List.length_drop]
  omega

theorem slice_slice_of_le {b : Bytes} {pos n off k : ℕ} (h : off + k ≤ n) :
    slice (slice b pos n) off k = slice b (pos + off) k := by
  rw [slice, slice, slice, List.drop_take, List.drop_drop, List.take_take, min_eq_left (by omega)]

@[simp] theorem length_mappedBytes (pageSize length : ℕ) (content : Bytes) :
    (mappedBytes pageSize length content).length = alignUp length pageSize := by
  apply length_slice
  rw [List.length_append, length_zeros]
  omega

theorem mapRead_eq (pageSize length : ℕ) (content : Bytes) :
    mapRead pageSize length content = readIn (mappedBytes pageSize length content) := by
  funext off n
  rw [readIn, length_mappedBytes]
  change (if off + n ≤ alignUp length pageSize then _ else none) = _
  split_ifs with h
  · rw [mappedBytes, slice_slice_of_le (by omega), Nat.zero_add]
  · rfl

theorem readWord_readIn (m : Bytes) (w off : ℕ) :
    readWord (readIn m) w off = if off + w / 8 ≤ m.length then some (wordAt w m off) else none := by
  unfold readWord readIn
  split_ifs <;> rfl

theorem slice_add (m : Bytes) (off n k : ℕ) :
    slice m off (n + k) = slice m off n ++ slice m (off + n) k := by
  rw [slice, slice, slice, List.take_add, List.drop_drop]

theorem wordBytes_wordAt {w : ℕ} (hw : 8 ∣ w) {m : Bytes} {off : ℕ} (h : off + w / 8 ≤ m.length) :
    wordBytes (wordAt w m off) = slice m off (w / 8) :=
  wordBytes_ofLe hw (length_slice h)

theorem bytes_phdrAt {m : Bytes} {off : ℕ} (h : off + sizeofPhdr c ≤ m.length) :
    (phdrAt c m off).bytes = slice m off (sizeofPhdr c) := by
  cases c with
  | elf32 =>
    have hlen : off + 32 ≤ m.length := h
    have hword (k : ℕ) (hk : k + 4 ≤ 32) :
        wordBytes (wordAt 32 m (off + k)) = slice m (off + k) 4 :=
      wordBytes_wordAt (by norm_num) (by omega)
    change _ = slice m off (4 + 4 + 4 + 4 + 4 + 4 + 4 + 4)
    simp only [slice_add]
    simp only [phdrAt, Phdr.bytes, Nat.reduceAdd]
    rw [← hword 4 (by norm_num), ← hword 8 (by norm_num), ← hword 12 (by norm_num),
      ← hword 16 (by norm_num), ← hword 20 (by norm_num), ← hword 24 (by norm_num),
      ← hword 28 (by norm_num), ← wordBytes_wordAt (w := 32) (by norm_num) (by omega)]
    rfl
  | elf64 =>
    have hlen : off + 56 ≤ m.length := h
    have hhalf (k : ℕ) (hk : k + 4 ≤ 56) :
        wordBytes (wordAt 32 m (off + k)) = slice m (off + k) 4 :=
      wordBytes_wordAt (by norm_num) (by omega)
    have hword (k : ℕ) (hk : k + 8 ≤ 56) :
        wordBytes (wordAt 64 m (off + k)) = slice m (off + k) 8 :=
      wordBytes_wordAt (by norm_num) (by omega)
    change _ = slice m off (4 + 4 + 8 + 8 + 8 + 8 + 8 + 8)
    simp only [slice_add]
    simp only [phdrAt, Phdr.bytes, Nat.reduceAdd]
    rw [← hhalf 4 (by norm_num), ← hword 8 (by norm_num), ← hword 16 (by norm_num),
      ← hword 24 (by norm_num), ← hword 32 (by norm_num), ← hword 40 (by norm_num),
      ← hword 48 (by norm_num), ← wordBytes_wordAt (w := 32) (by norm_num) (by omega)]
    rfl

end Memory

section Loop

theorem isLoad_of_isWritableLoad {ph : Phdr c} (h : isWritableLoad ph = true) :
    ph.p_type = PT_LOAD := by
  rw [isWritableLoad, Bool.and_eq_true, beq_iff_eq] at h
  exact h.1

theorem verdictOver_singleton (m : Bytes) (page_size offset : BitVec 32) (i : ℕ)
    (ret : BitVec 32) :
    verdictOver c m page_size offset [i] ret =
      if Keeps c m page_size offset i then VMA_NORMAL else ret := by
  simp only [verdictOver, List.mem_singleton, exists_eq_left]

theorem verdictOver_cons (m : Bytes) (page_size offset : BitVec 32) (i : ℕ) (entries : List ℕ)
    (ret : BitVec 32) :
    verdictOver c m page_size offset entries (verdictOver c m page_size offset [i] ret) =
      verdictOver c m page_size offset (i :: entries) ret := by
  rw [verdictOver_singleton]
  unfold verdictOver
  simp only [List.mem_cons, exists_eq_or_imp]
  split_ifs with hrest hall hi hall hall
  · rfl
  · exact absurd (Or.inr hrest) hall
  · rfl
  · exact absurd (Or.inl hi) hall
  · exact absurd hall (not_or.mpr ⟨hi, hrest⟩)
  · rfl

/-- Whole pages hold `p_flags` of an entry whenever they hold its `p_memsz`. -/
theorem flags_backed {m : Bytes} (hpages : 4096 ∣ m.length) {i : ℕ}
    (h : sizeofEhdr c + i * sizeofPhdr c + ((elfOffsets c).p_memsz + c.bits / 8) ≤ m.length) :
    sizeofEhdr c + i * sizeofPhdr c + (elfOffsets c).p_flags + 32 / 8 ≤ m.length := by
  obtain ⟨q, hq⟩ := hpages
  rw [hq] at h ⊢
  cases c with
  | elf32 =>
    change 52 + i * 32 + (20 + 4) ≤ _ at h
    change 52 + i * 32 + 24 + 4 ≤ _
    omega
  | elf64 =>
    change 64 + i * 56 + (40 + 8) ≤ _ at h
    change 64 + i * 56 + 4 + 4 ≤ _
    omega

theorem p_offset_before_p_memsz (c : ElfClass) :
    (elfOffsets c).p_offset ≤ (elfOffsets c).p_memsz := by
  cases c <;> decide

theorem wordAt_p_type (m : Bytes) (i : ℕ) :
    wordAt 32 m (sizeofEhdr c + i * sizeofPhdr c) = (phdrBehindHeader c m i).p_type := by
  cases c with
  | elf32 => rfl
  | elf64 => rfl

theorem wordAt_p_offset (m : Bytes) (i : ℕ) :
    wordAt c.bits m (sizeofEhdr c + i * sizeofPhdr c + (elfOffsets c).p_offset) =
      (phdrBehindHeader c m i).p_offset := by
  cases c with
  | elf32 => rfl
  | elf64 => rfl

theorem wordAt_p_memsz (m : Bytes) (i : ℕ) :
    wordAt c.bits m (sizeofEhdr c + i * sizeofPhdr c + (elfOffsets c).p_memsz) =
      (phdrBehindHeader c m i).p_memsz := by
  cases c with
  | elf32 => rfl
  | elf64 => rfl

theorem wordAt_p_flags (m : Bytes) (i : ℕ) :
    wordAt 32 m (sizeofEhdr c + i * sizeofPhdr c + (elfOffsets c).p_flags) =
      (phdrBehindHeader c m i).p_flags := by
  cases c with
  | elf32 => rfl
  | elf64 => rfl

/-- One iteration: it faults unless the entry is backed, and only an entry that is a writable
load over the offset changes the verdict. -/
theorem needFilterLoop_succ {m : Bytes} (hpages : 4096 ∣ m.length)
    (page_size offset : BitVec 32) (n i : ℕ) (ret : BitVec 32) :
    needFilterLoop c (readIn m) page_size offset (n + 1) i ret =
      if Backed c m i then
        needFilterLoop c (readIn m) page_size offset n (i + 1)
          (verdictOver c m page_size offset [i] ret)
      else none := by
  simp only [needFilterLoop, readWord_readIn, wordAt_p_type, Option.bind_eq_bind]
  by_cases htype : sizeofEhdr c + i * sizeofPhdr c + 32 / 8 ≤ m.length
  · rw [if_pos htype, Option.bind_some]
    by_cases hload : (phdrBehindHeader c m i).p_type = PT_LOAD
    · rw [if_neg (not_not.mpr hload)]
      by_cases hmem : sizeofEhdr c + i * sizeofPhdr c + ((elfOffsets c).p_memsz + c.bits / 8) ≤
          m.length
      · have hoffset := p_offset_before_p_memsz c
        have hbacked : Backed c m i := ⟨htype, fun _ => hmem⟩
        rw [if_pos (by omega), if_pos (by omega), if_pos (flags_backed hpages hmem),
          if_pos hbacked, verdictOver_singleton]
        simp only [Option.bind_some, wordAt_p_offset, wordAt_p_memsz, wordAt_p_flags]
        have hkeep : isWritableLoad (phdrBehindHeader c m i) =
            has (phdrBehindHeader c m i).p_flags PF_W := by
          rw [isWritableLoad, hload, beq_self_eq_true, Bool.true_and]
        simp only [Keeps, hkeep, coversOffset, Bool.and_eq_true, decide_eq_true_eq]
        split_ifs with hcover hw hboth hboth hboth
        · rfl
        · exact absurd ⟨hw, hcover⟩ hboth
        · exact absurd hboth.1 hw
        · rfl
        · exact absurd hboth.2 hcover
        · rfl
      · have hbacked : ¬ Backed c m i := fun h => hmem (h.2 hload)
        have hfault : ¬ sizeofEhdr c + i * sizeofPhdr c + (elfOffsets c).p_memsz + c.bits / 8 ≤
            m.length := by omega
        simp only [if_neg hbacked, if_neg hfault, Option.bind_none, Option.bind_fun_none]
    · have hbacked : Backed c m i := ⟨htype, fun h => absurd h hload⟩
      have hkeep : ¬ Keeps c m page_size offset i := fun h =>
        hload (isLoad_of_isWritableLoad h.1)
      rw [if_pos hload, if_pos hbacked, verdictOver_singleton, if_neg hkeep]
  · have hbacked : ¬ Backed c m i := fun h => htype h.1
    rw [if_neg htype, if_neg hbacked]
    rfl

theorem needFilterLoop_eq {m : Bytes} (hpages : 4096 ∣ m.length) (page_size offset : BitVec 32)
    (n i : ℕ) (ret : BitVec 32) :
    needFilterLoop c (readIn m) page_size offset n i ret =
      if ∀ j ∈ List.range' i n, Backed c m j then
        some (verdictOver c m page_size offset (List.range' i n) ret)
      else none := by
  induction n generalizing i ret with
  | zero =>
    simp only [verdictOver, List.range'_zero, List.not_mem_nil, false_and, exists_false, if_false,
      false_implies, implies_true, if_true]
    rfl
  | succ n ih =>
    rw [needFilterLoop_succ hpages, ih, List.range'_succ]
    simp only [List.forall_mem_cons]
    by_cases hi : Backed c m i
    · simp only [hi, true_and, if_true, verdictOver_cons]
    · simp only [hi, false_and, if_false]

end Loop

section File

def filePages (d : Dumper a) (f : FileImage) : Bytes :=
  mappedBytes d.page_size.toNat (mapLength a.cls f.content) f.content

/-- `fstat` and `mmap` succeed on the file. -/
structure Mappable (c : ElfClass) (f : FileImage) : Prop where
  fstat : f.fstatOk = true
  length : mapLength c f.content ≠ 0
  mmap : f.mmapOk = true

/-- The file can be mapped, and is an ELF file of the dumped machine. -/
structure ScansTable (d : Dumper a) (f : FileImage) : Prop extends Mappable a.cls f where
  magic : slice (filePages d f) 0 4 = 0x7f :: ascii "ELF"
  machine : wordAt 16 (filePages d f) 18 = a.machine

def filePhnum (d : Dumper a) (f : FileImage) : ℕ :=
  (wordAt 16 (filePages d f) (elfOffsets a.cls).e_phnum).toNat

variable {d : Dumper a} {k : ℕ}

theorem toNat_page_size (hk : k < 32) (hpage : d.page_size = BitVec.ofNat 32 (2 ^ k)) :
    d.page_size.toNat = 2 ^ k := by
  rw [hpage, toNat_ofNat_of_lt (Nat.pow_lt_pow_right (by norm_num) hk)]

theorem pages_dvd (hk : 12 ≤ k) (hk' : k < 32) (hpage : d.page_size = BitVec.ofNat 32 (2 ^ k))
    (f : FileImage) : 4096 ∣ (filePages d f).length := by
  rw [filePages, length_mappedBytes, toNat_page_size hk' hpage]
  exact (Nat.pow_dvd_pow 2 hk).trans (dvd_alignUp _ _)

theorem page_le_pages (hk : 12 ≤ k) (hk' : k < 32) (hpage : d.page_size = BitVec.ofNat 32 (2 ^ k))
    {f : FileImage} (hlen : mapLength a.cls f.content ≠ 0) : 4096 ≤ (filePages d f).length := by
  have hle : mapLength a.cls f.content ≤ (filePages d f).length := by
    rw [filePages, length_mappedBytes, toNat_page_size hk' hpage]
    exact le_alignUp (by positivity)
  exact Nat.le_of_dvd (by omega) (pages_dvd hk hk' hpage f)

section Verdict

variable {files : Bytes → Option FileImage} {vma : VirtualMemoryArea} {f : FileImage}

/-- The header lies in the first page, so only the loop can fault. -/
theorem needFilterFile_mapped (hk : 12 ≤ k) (hk' : k < 32)
    (hpage : d.page_size = BitVec.ofNat 32 (2 ^ k)) (hfile : files vma.file = some f)
    (hmap : Mappable a.cls f) :
    needFilterFile d files vma =
      if slice (filePages d f) 0 4 ≠ 0x7f :: ascii "ELF" ∨
          wordAt 16 (filePages d f) 18 ≠ a.machine then some VMA_NULL
      else needFilterLoop a.cls (readIn (filePages d f)) d.page_size vma.offset
        (filePhnum d f) 0 VMA_NULL := by
  have hpages := page_le_pages hk hk' hpage hmap.length
  have hmagic : readIn (filePages d f) 0 4 = some (slice (filePages d f) 0 4) :=
    if_pos (by omega)
  have hword (off : ℕ) (hoff : off ≤ 4094) :
      readWord (readIn (filePages d f)) 16 off = some (wordAt 16 (filePages d f) off) := by
    rw [readWord_readIn, if_pos (by omega)]
  have hphnum : (elfOffsets a.cls).e_phnum ≤ 4094 := by
    rcases a.cls.cases_eq with hc | hc <;> rw [hc] <;> decide
  unfold needFilterFile
  simp only [hfile, hmap.fstat, hmap.mmap, hmap.length, not_true_eq_false, or_self,
    if_false, mapRead_eq]
  change (readIn (filePages d f) 0 4).bind _ = _
  rw [hmagic, Option.bind_some]
  change (readWord (readIn (filePages d f)) 16 18).bind _ = _
  rw [hword 18 (by norm_num), Option.bind_some]
  split_ifs
  · rfl
  · change (readWord (readIn (filePages d f)) 16 (elfOffsets a.cls).e_phnum).bind _ = _
    rw [hword _ hphnum, Option.bind_some]
    rfl

theorem needFilterFile_null (hk : 12 ≤ k) (hk' : k < 32)
    (hpage : d.page_size = BitVec.ofNat 32 (2 ^ k))
    (h : ∀ f, files vma.file = some f → ¬ ScansTable d f) :
    needFilterFile d files vma = some VMA_NULL := by
  cases hfile : files vma.file with
  | none =>
    unfold needFilterFile
    rw [hfile]
  | some f =>
    by_cases hmaps : Mappable a.cls f
    · rw [needFilterFile_mapped hk hk' hpage hfile hmaps, if_pos]
      by_contra helf
      obtain ⟨hmagic, hmachine⟩ := not_or.mp helf
      exact h f hfile ⟨hmaps, not_not.mp hmagic, not_not.mp hmachine⟩
    · unfold needFilterFile
      simp only [hfile]
      split_ifs with hstat hmap
      · rfl
      · obtain ⟨hlen, hmmap⟩ := not_or.mp hmap
        exact absurd ⟨hstat, hlen, not_not.mp hmmap⟩ hmaps
      · rfl

/-- An ELF file of the machine has its verdict from the loop, or faults in it. -/
theorem needFilterFile_eq (hk : 12 ≤ k) (hk' : k < 32)
    (hpage : d.page_size = BitVec.ofNat 32 (2 ^ k)) (hfile : files vma.file = some f)
    (h : ScansTable d f) :
    needFilterFile d files vma =
      if ∀ j < filePhnum d f, Backed a.cls (filePages d f) j then
        some (verdictOver a.cls (filePages d f) d.page_size vma.offset
          (List.range' 0 (filePhnum d f)) VMA_NULL)
      else none := by
  rw [needFilterFile_mapped hk hk' hpage hfile h.toMappable, if_neg,
    needFilterLoop_eq (pages_dvd hk hk' hpage f)]
  · simp only [List.mem_range'_1, Nat.zero_le, Nat.zero_add, true_and]
  rintro (hmagic | hmachine)
  · exact hmagic h.magic
  · exact hmachine h.machine

theorem not_scans_of_file (hfile : files vma.file = some f) (hscan : ¬ ScansTable d f)
    (g : FileImage) (hg : files vma.file = some g) : ¬ ScansTable d g := by
  obtain rfl : f = g := Option.some.inj (hfile.symm.trans hg)
  exact hscan

theorem verdictOver_range_normal (c : ElfClass) (m : Bytes) (page_size offset : BitVec 32) (n : ℕ) :
    verdictOver c m page_size offset (List.range' 0 n) VMA_NULL = VMA_NORMAL ↔
      ∃ j < n, Keeps c m page_size offset j := by
  have hrange : (∃ j ∈ List.range' 0 n, Keeps c m page_size offset j) ↔
      ∃ j < n, Keeps c m page_size offset j := by
    simp only [List.mem_range'_1, Nat.zero_le, Nat.zero_add, true_and]
  rw [verdictOver, ← hrange]
  split_ifs with hkeep
  · simp only [hkeep]
  · simp only [hkeep, iff_false]
    decide

theorem verdictOver_range_null (c : ElfClass) (m : Bytes) (page_size offset : BitVec 32) (n : ℕ) :
    verdictOver c m page_size offset (List.range' 0 n) VMA_NULL = VMA_NULL ↔
      ∀ j < n, ¬ Keeps c m page_size offset j := by
  have hnull : verdictOver c m page_size offset (List.range' 0 n) VMA_NULL = VMA_NULL ↔
      ¬ verdictOver c m page_size offset (List.range' 0 n) VMA_NULL = VMA_NORMAL := by
    rw [verdictOver]
    split_ifs with hkeep
    · decide
    · decide
  rw [hnull, verdictOver_range_normal]
  simp only [not_exists, not_and]

/-- The area is kept exactly where the file is scanned without a fault and an entry keeps it. -/
theorem needFilterFile_normal_iff (hk : 12 ≤ k) (hk' : k < 32)
    (hpage : d.page_size = BitVec.ofNat 32 (2 ^ k)) (hfile : files vma.file = some f) :
    needFilterFile d files vma = some VMA_NORMAL ↔
      ScansTable d f ∧ (∀ j < filePhnum d f, Backed a.cls (filePages d f) j) ∧
        ∃ j < filePhnum d f, Keeps a.cls (filePages d f) d.page_size vma.offset j := by
  by_cases hscan : ScansTable d f
  · rw [needFilterFile_eq hk hk' hpage hfile hscan, ← verdictOver_range_normal, and_iff_right hscan]
    split_ifs with hall
    · rw [and_iff_right hall, Option.some_inj]
    · constructor
      · intro h
        cases h
      · intro h
        exact absurd h.1 hall
  · rw [needFilterFile_null hk hk' hpage (not_scans_of_file hfile hscan)]
    constructor
    · intro h
      exact absurd (Option.some.inj h) (by decide)
    · intro h
      exact absurd h.1 hscan

/-- The area is left out exactly where the file is not scanned, or scanned without a fault and
kept by no entry. -/
theorem needFilterFile_null_iff (hk : 12 ≤ k) (hk' : k < 32)
    (hpage : d.page_size = BitVec.ofNat 32 (2 ^ k)) (hfile : files vma.file = some f) :
    needFilterFile d files vma = some VMA_NULL ↔
      (ScansTable d f → (∀ j < filePhnum d f, Backed a.cls (filePages d f) j) ∧
        ∀ j < filePhnum d f, ¬ Keeps a.cls (filePages d f) d.page_size vma.offset j) := by
  by_cases hscan : ScansTable d f
  · rw [needFilterFile_eq hk hk' hpage hfile hscan, ← verdictOver_range_null,
      forall_prop_of_true hscan]
    split_ifs with hall
    · rw [and_iff_right hall, Option.some_inj]
    · constructor
      · intro h
        cases h
      · intro h
        exact absurd h.1 hall
  · rw [needFilterFile_null hk hk' hpage (not_scans_of_file hfile hscan)]
    exact iff_of_true rfl fun h => absurd h hscan

/-- The file test always answers exactly where the mapped pages hold every entry that
`e_phnum` counts. -/
theorem needFilterFile_isSome_iff (hk : 12 ≤ k) (hk' : k < 32)
    (hpage : d.page_size = BitVec.ofNat 32 (2 ^ k)) (files : Bytes → Option FileImage)
    (vma : VirtualMemoryArea) :
    (needFilterFile d files vma).isSome ↔
      ∀ f, files vma.file = some f → ScansTable d f →
        ∀ j < filePhnum d f, Backed a.cls (filePages d f) j := by
  by_cases hscan : ∃ f, files vma.file = some f ∧ ScansTable d f
  · obtain ⟨f, hfile, hf⟩ := hscan
    rw [needFilterFile_eq hk hk' hpage hfile hf]
    constructor
    · intro hsome g hg _ j hj
      obtain rfl : f = g := Option.some.inj (hfile.symm.trans hg)
      by_contra hfault
      rw [if_neg fun hall => hfault (hall j hj)] at hsome
      cases hsome
    · intro hall
      rw [if_pos (hall f hfile hf)]
      rfl
  · constructor
    · intro _ f hfile hf
      exact absurd ⟨f, hfile, hf⟩ hscan
    · intro _
      rw [needFilterFile_null hk hk' hpage fun f hfile hf => hscan ⟨f, hfile, hf⟩]
      rfl

def headerOnlyFile (phnum : BitVec 16) : FileImage where
  content :=
    (show Ehdr .elf64 from
      { e_ident := coreIdent .elf64, e_machine := Arch.arm64.machine, e_version := EV_CURRENT,
        e_phoff := 64, e_ehsize := 64, e_phentsize := 56, e_phnum := phnum }).bytes

def libraryVma (offset : BitVec 32) : VirtualMemoryArea where
  beginAddr := 0x7000000000
  endAddr := 0x7000001000
  flags := ⟨(ascii "r--p").toArray, rfl⟩
  offset := offset
  major := 0
  minor := 0
  inode := 1
  file := ascii "/system/lib64/libc.so"

theorem needFilterFile_isSome_header :
    (needFilterFile (Dumper.new .arm64 4096) (fun _ => some (headerOnlyFile 1))
      (libraryVma 0)).isSome := by
  apply (needFilterFile_isSome_iff (k := 12) (by norm_num) (by norm_num) rfl _ _).mpr
  intro f hf _ j hj
  obtain rfl := Option.some.inj hf
  have hcount : filePhnum (Dumper.new .arm64 4096) (headerOnlyFile 1) = 1 := by decide +kernel
  obtain rfl : j = 0 := by omega
  decide +kernel

theorem headerOnlyFile_scans :
    ScansTable (Dumper.new .arm64 4096) (headerOnlyFile 0xffff) where
  fstat := rfl
  length := by decide +kernel
  mmap := rfl
  magic := by decide +kernel
  machine := by decide +kernel

/-- The table of a one-page file runs out of the page. -/
theorem needFilterFile_faults :
    (headerOnlyFile 0xffff).content.length = 64 ∧
    needFilterFile (Dumper.new .arm64 4096) (fun _ => some (headerOnlyFile 0xffff))
      (libraryVma 0) = none := by
  constructor
  · rfl
  · rw [needFilterFile_eq (k := 12) (by norm_num) (by norm_num) rfl rfl headerOnlyFile_scans,
      if_neg]
    intro hall
    have hcount : filePhnum (Dumper.new .arm64 4096) (headerOnlyFile 0xffff) = 0xffff := by
      decide +kernel
    have hin := (hall 72 (by rw [hcount]; norm_num)).1
    rw [filePages, length_mappedBytes] at hin
    revert hin
    decide +kernel

end Verdict
end File
end Opencore
