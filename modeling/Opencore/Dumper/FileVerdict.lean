import Opencore.Elf.Reader
import Opencore.Dumper.FileFilter

/-! What `NeedFilterFile` answers on well-formed ELF files, against the pages that the writable
segments of the file cover. -/
namespace Opencore
open Machine Elf

variable {a : Arch}

/-- An ELF file of the machine, with its program headers. -/
structure ElfFile (a : Arch) where
  content : Bytes
  ehdr : Ehdr a.cls
  phdrs : List (Phdr a.cls)
  header : slice content 0 (sizeofEhdr a.cls) = ehdr.bytes
  magic : ehdr.e_ident.toList.take 4 = 0x7f :: ascii "ELF"
  machine : ehdr.e_machine = a.machine
  phentsize : ehdr.e_phentsize.toNat = sizeofPhdr a.cls
  -- from 0xffff program headers on, their number is in the first section header
  phnum : ehdr.e_phnum.toNat = min phdrs.length 0xffff
  table : slice content ehdr.e_phoff.toNat (phdrs.length * sizeofPhdr a.cls) =
    phdrs.flatMap Phdr.bytes
  segments : ∀ ph ∈ phdrs, ph.p_type = PT_LOAD → ph.p_filesz.toNat ≤ ph.p_memsz.toNat ∧
    ph.p_offset.toNat + ph.p_filesz.toNat ≤ content.length

/-- The page at offset `o` holds file data of the segment. -/
def HoldsData {c : ElfClass} (pageSize o : ℕ) (ph : Phdr c) : Prop :=
  ph.p_offset.toNat / pageSize * pageSize ≤ o ∧ o < ph.p_offset.toNat + ph.p_filesz.toNat

/-- The pages of the segment reach over the offset `o`. -/
def InPages {c : ElfClass} (pageSize o : ℕ) (ph : Phdr c) : Prop :=
  ph.p_offset.toNat / pageSize * pageSize ≤ o ∧
    o < alignUp (ph.p_offset.toNat + ph.p_memsz.toNat) pageSize

/-- A page of a writable segment is kept, and every page outside of them is left out. -/
def KeepsWritable {c : ElfClass} (pageSize o : ℕ) (phdrs : List (Phdr c))
    (verdict : Option (BitVec 32)) : Prop :=
  ((∃ ph ∈ phdrs, isWritableLoad ph = true ∧ HoldsData pageSize o ph) →
      verdict = some VMA_NORMAL) ∧
    ((∀ ph ∈ phdrs, isWritableLoad ph = true → ¬ InPages pageSize o ph) →
      verdict = some VMA_NULL)

/-- The window of a segment that the loop compares the offset with: the size is added to the
rounded start, and both ends and the offset are 32-bit values. -/
def InWindow {c : ElfClass} (pageSize o : ℕ) (ph : Phdr c) : Prop :=
  ph.p_offset.toNat / pageSize * pageSize % 2 ^ 32 ≤ o % 2 ^ 32 ∧
    o % 2 ^ 32 < (ph.p_offset.toNat / pageSize * pageSize + ph.p_memsz.toNat) % 2 ^ 32

theorem coversOffset_iff {c : ElfClass} {k : ℕ} (hk : k < 32) (o : ℕ) (ph : Phdr c) :
    coversOffset (BitVec.ofNat 32 (2 ^ k)) (BitVec.ofNat 32 o) ph = true ↔
      InWindow (2 ^ k) o ph := by
  have hbits := c.bits_ge
  have hpage : (BitVec.ofNat 32 (2 ^ k)).setWidth c.bits = BitVec.ofNat c.bits (2 ^ k) :=
    setWidth_ofNat_of_lt (Nat.pow_lt_pow_right (by norm_num) hk)
  have hdown : RoundDown ph.p_offset (BitVec.ofNat c.bits (2 ^ k)) =
      BitVec.ofNat c.bits (ph.p_offset.toNat / 2 ^ k * 2 ^ k) := by
    rw [← RoundDown_ofNat (by omega), BitVec.ofNat_toNat, BitVec.setWidth_eq]
  have hsum (x : BitVec 32) (y : BitVec c.bits) :
      (x.signExtend c.bits + y).setWidth 32 = BitVec.ofNat 32 (x.toNat + y.toNat) := by
    rw [BitVec.setWidth_add _ _ hbits, setWidth_signExtend hbits, BitVec.ofNat_add,
      BitVec.ofNat_toNat, BitVec.ofNat_toNat, BitVec.setWidth_eq]
  rw [coversOffset, hpage, hdown, setWidth_ofNat_of_le hbits, Bool.and_eq_true, decide_eq_true_eq,
    decide_eq_true_eq, hsum, BitVec.le_def, BitVec.lt_def]
  simp only [BitVec.toNat_ofNat, InWindow, Nat.mod_add_mod]

theorem slice_e_machine {c : ElfClass} (e : Ehdr c) :
    slice e.bytes 18 2 = wordBytes e.e_machine := by
  have hsplit : e.bytes = (e.e_ident.toList ++ wordBytes e.e_type) ++ (wordBytes e.e_machine ++
      (wordBytes e.e_version ++ wordBytes e.e_entry ++ wordBytes e.e_phoff ++
        wordBytes e.e_shoff ++ wordBytes e.e_flags ++ wordBytes e.e_ehsize ++
        wordBytes e.e_phentsize ++ wordBytes e.e_phnum ++ wordBytes e.e_shentsize ++
        wordBytes e.e_shnum ++ wordBytes e.e_shstrndx)) := by
    simp only [Ehdr.bytes, List.append_assoc]
  rw [hsplit]
  apply slice_mid_of_eq
  · simp only [List.length_append, Vector.length_toList, length_wordBytes]
  · rw [length_wordBytes]

theorem slice_e_phnum {c : ElfClass} (e : Ehdr c) :
    slice e.bytes (elfOffsets c).e_phnum 2 = wordBytes e.e_phnum := by
  have hsplit : e.bytes = (e.e_ident.toList ++ wordBytes e.e_type ++ wordBytes e.e_machine ++
      wordBytes e.e_version ++ wordBytes e.e_entry ++ wordBytes e.e_phoff ++
      wordBytes e.e_shoff ++ wordBytes e.e_flags ++ wordBytes e.e_ehsize ++
      wordBytes e.e_phentsize) ++ (wordBytes e.e_phnum ++
        (wordBytes e.e_shentsize ++ wordBytes e.e_shnum ++ wordBytes e.e_shstrndx)) := by
    simp only [Ehdr.bytes, List.append_assoc]
  rw [hsplit]
  apply slice_mid_of_eq
  · simp only [List.length_append, Vector.length_toList, length_wordBytes]
    cases c with
    | elf32 => rfl
    | elf64 => rfl
  · rw [length_wordBytes]

theorem slice_filePages {d : Dumper a} {f : FileImage} {off n : ℕ}
    (hpages : off + n ≤ (filePages d f).length) (hcontent : off + n ≤ f.content.length) :
    slice (filePages d f) off n = slice f.content off n := by
  rw [filePages, length_mappedBytes] at hpages
  rw [filePages, mappedBytes, slice_slice_of_le (by omega), Nat.zero_add, slice, slice,
    List.drop_append_of_le_length (by omega),
    List.take_append_of_le_length (by rw [List.length_drop]; omega)]

namespace ElfFile

variable (e : ElfFile a) {d : Dumper a} {f : FileImage} {k : ℕ}

theorem header_le : sizeofEhdr a.cls ≤ e.content.length := by
  have hlen := congrArg List.length e.header
  rw [length_ehdrBytes, slice, List.length_take, List.drop_zero] at hlen
  omega

theorem sizeofEhdr_le_page (c : ElfClass) : sizeofEhdr c ≤ 4096 := by
  cases c with
  | elf32 => decide
  | elf64 => decide

theorem slice_pages (hf : f.content = e.content) (hpages : 4096 ≤ (filePages d f).length)
    {off n : ℕ} (h : off + n ≤ sizeofEhdr a.cls) :
    slice (filePages d f) off n = slice e.ehdr.bytes off n := by
  have hheader := e.header_le
  have hpage := sizeofEhdr_le_page a.cls
  rw [slice_filePages (by omega) (by rw [hf]; omega), hf, ← e.header, slice_slice_of_le h,
    Nat.zero_add]

theorem wordAt_pages (hf : f.content = e.content) (hpages : 4096 ≤ (filePages d f).length)
    {off : ℕ} {x : BitVec 16} (h : off + 2 ≤ sizeofEhdr a.cls)
    (hx : slice e.ehdr.bytes off 2 = wordBytes x) : wordAt 16 (filePages d f) off = x := by
  have hslice : slice (filePages d f) off (16 / 8) = wordBytes x :=
    (e.slice_pages hf hpages h).trans hx
  rw [wordAt, hslice, ofLe_wordBytes (by norm_num), BitVec.ofNat_toNat, BitVec.setWidth_eq]

/-- The file is scanned whenever it can be mapped. -/
theorem scansTable_iff (hk : 12 ≤ k) (hk' : k < 32) (hpage : d.page_size = BitVec.ofNat 32 (2 ^ k))
    (hf : f.content = e.content) : ScansTable d f ↔ Mappable a.cls f := by
  constructor
  · exact ScansTable.toMappable
  · intro hmap
    have hpages := page_le_pages hk hk' hpage hmap.length
    have hsize : 20 ≤ sizeofEhdr a.cls := by
      rcases a.cls.cases_eq with hc | hc <;> rw [hc] <;> decide
    refine ⟨hmap, ?_, ?_⟩
    · rw [e.slice_pages hf hpages (by omega), slice, List.drop_zero, Ehdr.bytes, ← e.magic]
      simp only [List.append_assoc]
      rw [List.take_append_of_le_length]
      rw [Vector.length_toList]
      norm_num
    · rw [e.wordAt_pages hf hpages (by omega) (slice_e_machine e.ehdr), e.machine]

theorem filePhnum_eq (hk : 12 ≤ k) (hk' : k < 32) (hpage : d.page_size = BitVec.ofNat 32 (2 ^ k))
    (hf : f.content = e.content) (hmap : Mappable a.cls f) :
    filePhnum d f = e.ehdr.e_phnum.toNat := by
  have hpages := page_le_pages hk hk' hpage hmap.length
  have hsize : (elfOffsets a.cls).e_phnum + 2 ≤ sizeofEhdr a.cls := by
    rcases a.cls.cases_eq with hc | hc <;> rw [hc] <;> decide
  rw [filePhnum, e.wordAt_pages hf hpages hsize (slice_e_phnum e.ehdr)]

section TableBehindHeader

variable {j : ℕ}

theorem table_le (hphoff : e.ehdr.e_phoff.toNat = sizeofEhdr a.cls) (hne : e.phdrs ≠ []) :
    sizeofEhdr a.cls + e.phdrs.length * sizeofPhdr a.cls ≤ e.content.length := by
  have hlen := congrArg List.length e.table
  rw [length_flatMap_const _ _ _ fun ph _ => length_phdrBytes ph, slice, List.length_take,
    List.length_drop, hphoff] at hlen
  have hpos : 0 < e.phdrs.length * sizeofPhdr a.cls := by
    apply Nat.mul_pos (List.length_pos_iff.mpr hne)
    rcases a.cls.cases_eq with hc | hc <;> rw [hc] <;> decide
  omega

theorem entry_le (hphoff : e.ehdr.e_phoff.toNat = sizeofEhdr a.cls) (hj : j < e.phdrs.length) :
    sizeofEhdr a.cls + j * sizeofPhdr a.cls + sizeofPhdr a.cls ≤ e.content.length := by
  have htable := e.table_le hphoff (List.length_pos_iff.mp (by omega))
  have hmul := Nat.mul_le_mul_right (sizeofPhdr a.cls) (show j + 1 ≤ e.phdrs.length from hj)
  rw [Nat.succ_mul] at hmul
  omega

theorem phdrBehindHeader_eq (hphoff : e.ehdr.e_phoff.toNat = sizeofEhdr a.cls)
    (hpages : e.content.length ≤ (filePages d f).length) (hf : f.content = e.content)
    (hj : j < e.phdrs.length) : phdrBehindHeader a.cls (filePages d f) j = e.phdrs[j] := by
  have hentry := e.entry_le hphoff hj
  have hmul := Nat.mul_le_mul_right (sizeofPhdr a.cls) (show j + 1 ≤ e.phdrs.length from hj)
  rw [Nat.succ_mul] at hmul
  apply phdrBytes_injective
  calc (phdrBehindHeader a.cls (filePages d f) j).bytes
      = slice (filePages d f) (sizeofEhdr a.cls + j * sizeofPhdr a.cls) (sizeofPhdr a.cls) :=
        bytes_phdrAt (by omega)
    _ = slice e.content (sizeofEhdr a.cls + j * sizeofPhdr a.cls) (sizeofPhdr a.cls) := by
        rw [slice_filePages (by omega) (by rw [hf]; omega), hf]
    _ = slice (e.phdrs.flatMap Phdr.bytes) (j * sizeofPhdr a.cls) (sizeofPhdr a.cls) := by
        rw [← e.table, slice_slice_of_le hmul, hphoff]
    _ = e.phdrs[j].bytes := slice_flatMap _ _ _ (fun ph _ => length_phdrBytes ph) hj

theorem backed_entry (hphoff : e.ehdr.e_phoff.toNat = sizeofEhdr a.cls)
    (hpages : e.content.length ≤ (filePages d f).length) (hj : j < e.phdrs.length) :
    Backed a.cls (filePages d f) j := by
  have hentry := e.entry_le hphoff hj
  have hmembers : 4 ≤ sizeofPhdr a.cls ∧
      (elfOffsets a.cls).p_memsz + a.cls.bits / 8 ≤ sizeofPhdr a.cls := by
    rcases a.cls.cases_eq with hc | hc <;> rw [hc] <;> decide
  constructor
  · omega
  · intro _
    omega

end TableBehindHeader

end ElfFile

section Verdict

variable {d : Dumper a} {f : FileImage} {k o : ℕ} {files : Bytes → Option FileImage}
  {vma : VirtualMemoryArea}

theorem keeps_iff (hk' : k < 32) (hpage : d.page_size = BitVec.ofNat 32 (2 ^ k))
    (ho : vma.offset = BitVec.ofNat 32 o) (m : Bytes) (j : ℕ) :
    Keeps a.cls m d.page_size vma.offset j ↔
      isWritableLoad (phdrBehindHeader a.cls m j) = true ∧
        InWindow (2 ^ k) o (phdrBehindHeader a.cls m j) := by
  rw [Keeps, hpage, ho, coversOffset_iff hk']

/-- The verdict keeps the pages of the writable segments exactly where the windows of the
entries behind the header do. -/
theorem needFilterFile_keepsWritable_iff (hk : 12 ≤ k) (hk' : k < 32)
    (hpage : d.page_size = BitVec.ofNat 32 (2 ^ k)) (e : ElfFile a) (hf : f.content = e.content)
    (hfile : files vma.file = some f) (ho : vma.offset = BitVec.ofNat 32 o) :
    KeepsWritable (2 ^ k) o e.phdrs (needFilterFile d files vma) ↔
      ((∃ ph ∈ e.phdrs, isWritableLoad ph = true ∧ HoldsData (2 ^ k) o ph) →
        Mappable a.cls f ∧ (∀ j < e.ehdr.e_phnum.toNat, Backed a.cls (filePages d f) j) ∧
          ∃ j < e.ehdr.e_phnum.toNat,
            isWritableLoad (phdrBehindHeader a.cls (filePages d f) j) = true ∧
              InWindow (2 ^ k) o (phdrBehindHeader a.cls (filePages d f) j)) ∧
      ((∀ ph ∈ e.phdrs, isWritableLoad ph = true → ¬ InPages (2 ^ k) o ph) →
        Mappable a.cls f → (∀ j < e.ehdr.e_phnum.toNat, Backed a.cls (filePages d f) j) ∧
          ∀ j < e.ehdr.e_phnum.toNat,
            isWritableLoad (phdrBehindHeader a.cls (filePages d f) j) = true →
              ¬ InWindow (2 ^ k) o (phdrBehindHeader a.cls (filePages d f) j)) := by
  have hkeeps := keeps_iff (a := a) hk' hpage ho (filePages d f)
  rw [KeepsWritable, needFilterFile_normal_iff hk hk' hpage hfile,
    needFilterFile_null_iff hk hk' hpage hfile, e.scansTable_iff hk hk' hpage hf]
  by_cases hmap : Mappable a.cls f
  · rw [e.filePhnum_eq hk hk' hpage hf hmap]
    simp only [hkeeps, not_and]
  · simp only [hmap, false_and, false_implies, implies_true]

/-- A segment that starts on a page, compared with an offset below 4 GiB. -/
theorem inWindow_iff {c : ElfClass} {pageSize : ℕ} (ho : o < 2 ^ 32) {ph : Phdr c}
    (hstart : pageSize ∣ ph.p_offset.toNat)
    (hstop : ph.p_offset.toNat + ph.p_memsz.toNat < 2 ^ 32) :
    InWindow pageSize o ph ↔
      ph.p_offset.toNat ≤ o ∧ o < ph.p_offset.toNat + ph.p_memsz.toNat := by
  rw [InWindow, Nat.div_mul_cancel hstart, Nat.mod_eq_of_lt ho, Nat.mod_eq_of_lt hstop,
    Nat.mod_eq_of_lt (by omega)]

theorem content_le_pages (hk' : k < 32) (hpage : d.page_size = BitVec.ofNat 32 (2 ^ k))
    (hlen : f.content.length < 2 ^ 32) : f.content.length ≤ (filePages d f).length := by
  have hpow : 2 ^ 32 ≤ 2 ^ a.cls.bits := Nat.pow_le_pow_right (by norm_num) a.cls.bits_ge
  have hmap : mapLength a.cls f.content = f.content.length := Nat.mod_eq_of_lt (by omega)
  rw [filePages, length_mappedBytes, toNat_page_size hk' hpage, hmap]
  exact le_alignUp (by positivity)

/-- A file with its table behind the header, writable segments that start on a page and end
below 4 GiB has the right verdict at every offset below 4 GiB. -/
theorem needFilterFile_keepsWritable (hk : 12 ≤ k) (hk' : k < 32)
    (hpage : d.page_size = BitVec.ofNat 32 (2 ^ k)) (e : ElfFile a) (hf : f.content = e.content)
    (hfile : files vma.file = some f) (ho : vma.offset = BitVec.ofNat 32 o) (ho' : o < 2 ^ 32)
    (hmap : Mappable a.cls f) (hlen : e.content.length < 2 ^ 32)
    (hphoff : e.ehdr.e_phoff.toNat = sizeofEhdr a.cls) (hphnum : e.phdrs.length ≤ 0xffff)
    (hsegments : ∀ ph ∈ e.phdrs, isWritableLoad ph = true →
      2 ^ k ∣ ph.p_offset.toNat ∧ ph.p_offset.toNat + ph.p_memsz.toNat < 2 ^ 32) :
    KeepsWritable (2 ^ k) o e.phdrs (needFilterFile d files vma) := by
  have hpages : e.content.length ≤ (filePages d f).length := by
    rw [← hf]
    exact content_le_pages hk' hpage (by rw [hf]; exact hlen)
  have hcount : e.ehdr.e_phnum.toNat = e.phdrs.length := by
    rw [e.phnum, min_eq_left hphnum]
  have hwindow {ph : Phdr a.cls} (hmem : ph ∈ e.phdrs) (hload : isWritableLoad ph = true) :
      InWindow (2 ^ k) o ph ↔
        ph.p_offset.toNat ≤ o ∧ o < ph.p_offset.toNat + ph.p_memsz.toNat :=
    inWindow_iff ho' (hsegments ph hmem hload).1 (hsegments ph hmem hload).2
  have hkeeps := keeps_iff (a := a) hk' hpage ho (filePages d f)
  rw [KeepsWritable, needFilterFile_normal_iff hk hk' hpage hfile,
    needFilterFile_null_iff hk hk' hpage hfile, e.scansTable_iff hk hk' hpage hf,
    e.filePhnum_eq hk hk' hpage hf hmap, hcount]
  simp only [hkeeps, not_and]
  constructor
  · rintro ⟨ph, hmem, hload, hdata⟩
    refine ⟨hmap, fun j hj => e.backed_entry hphoff hpages hj, ?_⟩
    obtain ⟨j, hj, rfl⟩ := List.getElem_of_mem hmem
    refine ⟨j, hj, ?_⟩
    rw [e.phdrBehindHeader_eq hphoff hpages hf hj, hwindow hmem hload]
    have hsize := e.segments _ hmem (isLoad_of_isWritableLoad hload)
    obtain ⟨hfrom, hto⟩ := hdata
    rw [Nat.div_mul_cancel (hsegments _ hmem hload).1] at hfrom
    exact ⟨hload, hfrom, by omega⟩
  · intro hout _
    refine ⟨fun j hj => e.backed_entry hphoff hpages hj, ?_⟩
    intro j hj
    rw [e.phdrBehindHeader_eq hphoff hpages hf hj]
    intro hload
    have hmem := List.getElem_mem hj
    rw [hwindow hmem hload]
    rintro ⟨hfrom, hto⟩
    apply hout _ hmem hload
    constructor
    · rw [Nat.div_mul_cancel (hsegments _ hmem hload).1]
      exact hfrom
    · exact hto.trans_le (le_alignUp (by positivity))

end Verdict

section Instance

def dataPhdr (p_offset : BitVec 64) : Phdr .elf64 where
  p_type := PT_LOAD
  p_flags := PF_R ||| PF_W
  p_offset := p_offset
  p_filesz := 0x200
  p_memsz := 0x200

def dataEhdr : Ehdr .elf64 where
  e_ident := coreIdent .elf64
  e_machine := Arch.arm64.machine
  e_version := EV_CURRENT
  e_phoff := 64
  e_ehsize := 64
  e_phentsize := 56
  e_phnum := 1

def dataFile (p_offset : BitVec 64) (h : p_offset.toNat ≤ 0x1000) : ElfFile .arm64 where
  content := dataEhdr.bytes ++ ((dataPhdr p_offset).bytes ++ zeros 4488)
  ehdr := dataEhdr
  phdrs := [dataPhdr p_offset]
  header := by
    have hslice := slice_mid [] dataEhdr.bytes ((dataPhdr p_offset).bytes ++ zeros 4488)
    rwa [length_ehdrBytes] at hslice
  magic := by decide
  machine := rfl
  phentsize := rfl
  phnum := rfl
  table := by
    have hslice := slice_mid dataEhdr.bytes (dataPhdr p_offset).bytes (zeros 4488)
    rw [length_ehdrBytes, length_phdrBytes] at hslice
    change _ = (dataPhdr p_offset).bytes ++ []
    rw [List.append_nil]
    exact hslice
  segments := by
    intro ph hmem _
    obtain rfl := List.mem_singleton.mp hmem
    constructor
    · exact le_rfl
    · rw [List.length_append, List.length_append, length_ehdrBytes, length_phdrBytes,
        length_zeros]
      change p_offset.toNat + 512 ≤ 64 + (56 + 4488)
      omega

def ElfFile.image (e : ElfFile a) : FileImage := { content := e.content }

section DataFile

variable {p_offset : BitVec 64} (h : p_offset.toNat ≤ 0x1000)

theorem length_dataFile : (dataFile p_offset h).content.length = 4608 := by
  rw [dataFile, List.length_append, List.length_append, length_ehdrBytes, length_phdrBytes,
    length_zeros]
  rfl

theorem mappable_dataFile : Mappable .elf64 (dataFile p_offset h).image where
  fstat := rfl
  length := by
    rw [ElfFile.image, mapLength, length_dataFile]
    decide
  mmap := rfl

theorem dataFile_entry :
    Backed Arch.arm64.cls (filePages (Dumper.new .arm64 4096) (dataFile p_offset h).image) 0 ∧
      phdrBehindHeader Arch.arm64.cls
        (filePages (Dumper.new .arm64 4096) (dataFile p_offset h).image) 0 = dataPhdr p_offset := by
  have hlen : (dataFile p_offset h).image.content.length < 2 ^ 32 := by
    rw [ElfFile.image, length_dataFile]
    norm_num
  have hpages := content_le_pages (d := Dumper.new .arm64 4096) (k := 12) (by norm_num) rfl hlen
  constructor
  · exact (dataFile p_offset h).backed_entry rfl hpages Nat.one_pos
  · exact (dataFile p_offset h).phdrBehindHeader_eq rfl hpages rfl Nat.one_pos

end DataFile

/-- A segment that starts on a page is kept. -/
theorem needFilterFile_keepsWritable_page :
    KeepsWritable (2 ^ 12) 0x1000 (dataFile 0x1000 le_rfl).phdrs
      (needFilterFile (Dumper.new .arm64 4096) (fun _ => some (dataFile 0x1000 le_rfl).image)
        (libraryVma 0x1000)) := by
  apply (needFilterFile_keepsWritable_iff (f := (dataFile 0x1000 le_rfl).image) (by norm_num)
    (by norm_num) rfl (dataFile 0x1000 le_rfl) rfl rfl rfl).mpr
  have hload : isWritableLoad (dataPhdr 0x1000) = true := by decide
  obtain ⟨hbacked, hentry⟩ := dataFile_entry (show (0x1000 : BitVec 64).toNat ≤ 0x1000 from le_rfl)
  constructor
  · intro _
    refine ⟨mappable_dataFile le_rfl, ?_, 0, Nat.one_pos, ?_⟩
    · intro j hj
      obtain rfl : j = 0 := Nat.lt_one_iff.mp hj
      exact hbacked
    · rw [hentry]
      refine ⟨hload, ?_⟩
      constructor
      · decide
      · decide
  · intro hout
    refine absurd ?_ (hout (dataPhdr 0x1000) (List.mem_singleton_self _) hload)
    constructor
    · decide
    · decide

/-- A segment that starts inside a page loses the page that its end reaches into. -/
theorem needFilterFile_drops_tail :
    ¬ KeepsWritable (2 ^ 12) 0x1000 (dataFile 0xf00 (by decide)).phdrs
      (needFilterFile (Dumper.new .arm64 4096) (fun _ => some (dataFile 0xf00 (by decide)).image)
        (libraryVma 0x1000)) := by
  rintro ⟨hkeep, -⟩
  have hverdict := hkeep ⟨dataPhdr 0xf00, List.mem_singleton_self _, by decide, by
    constructor
    · decide
    · decide⟩
  obtain ⟨-, hentry⟩ := dataFile_entry (show (0xf00 : BitVec 64).toNat ≤ 0x1000 by decide)
  rw [needFilterFile_normal_iff (k := 12) (by norm_num) (by norm_num) rfl rfl,
    (dataFile 0xf00 (by decide)).filePhnum_eq (k := 12) (by norm_num) (by norm_num) rfl rfl
      (mappable_dataFile _)] at hverdict
  obtain ⟨-, -, j, hj, hkeeps⟩ := hverdict
  obtain rfl : j = 0 := Nat.lt_one_iff.mp hj
  rw [keeps_iff (k := 12) (o := 0x1000) (by norm_num) rfl rfl, hentry] at hkeeps
  have hwindow := hkeeps.2.2
  revert hwindow
  decide

end Instance
end Opencore
