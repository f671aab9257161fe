import Opencore.Elf.Reader
import Opencore.Dumper.FilterOrder
import Opencore.Dumper.Layout
import Opencore.Dumper.MemoryImage
import Opencore.Dumper.NoteStream

/-! Decoding a core file: the segments with the bytes at their offsets, and the mappings
that NT_FILE lists. -/
namespace Opencore
open Machine Elf

variable {a : Arch}

/-- A LOAD segment, with the bytes found at `p_offset`. -/
structure LoadSegment where
  vaddr : ℕ
  memsz : ℕ
  filesz : ℕ
  flags : BitVec 32
  bytes : Bytes
  deriving DecidableEq

structure MappedFile where
  beginAddr : ℕ
  endAddr : ℕ
  offset : ℕ
  name : Bytes
  deriving DecidableEq

def readPhdrs (c : ElfClass) (content : Bytes) : Option (List (Phdr c)) :=
  (takeEhdr c content).bind fun (ehdr, _) =>
    (takeMany (takePhdr c) ehdr.e_phnum.toNat (content.drop ehdr.e_phoff.toNat)).map Prod.fst

def loadSegment {c : ElfClass} (content : Bytes) (ph : Phdr c) : LoadSegment where
  vaddr := ph.p_vaddr.toNat
  memsz := ph.p_memsz.toNat
  filesz := ph.p_filesz.toNat
  flags := ph.p_flags
  bytes := slice content ph.p_offset.toNat ph.p_filesz.toNat

def readLoads {c : ElfClass} (content : Bytes) (phdr : List (Phdr c)) : List LoadSegment :=
  (phdr.filter fun ph => ph.p_type == PT_LOAD).map (loadSegment content)

def mappedFile {c : ElfClass} (f : File c) (name : Bytes) : MappedFile :=
  ⟨f.beginAddr.toNat, f.endAddr.toNat, f.offset.toNat, name⟩

/-- The table of NT_FILE in the note segment. -/
def readMappedFiles {c : ElfClass} (content : Bytes) (phdr : List (Phdr c)) :
    Option (List MappedFile) := do
  let note ← phdr.find? fun ph => ph.p_type == PT_NOTE
  let notes ← readNotes (slice content note.p_offset.toNat note.p_filesz.toNat)
  let file ← notes.find? fun n => n.type == NT_FILE
  let table ← readFileTable c file.desc
  some ((table.entries.zip table.names).map fun (f, name) => mappedFile f name)

def decodeLoads (c : ElfClass) (content : Bytes) : Option (List LoadSegment) :=
  (readPhdrs c content).map (readLoads content)

def decodeFiles (c : ElfClass) (content : Bytes) : Option (List MappedFile) :=
  (readPhdrs c content).bind (readMappedFiles content)

/-! What a reader should find, in terms of the process and the filter. -/

/-- The tests of the filters that look at nothing but the area. -/
def isFiltered (filter : BitVec 32) (vma : VirtualMemoryArea) : Bool :=
  has filter FILTER_SPECIAL_VMA && isSpecialVma vma || isLaterFiltered filter vma

def permissions (vma : VirtualMemoryArea) : BitVec 32 :=
  (parserPhdr ELF_PAGE_SIZE vma ({} : Phdr .elf64)).p_flags

def memoryImage (mem : ProcMem) (addr : BitVec 64) (n : ℕ) : Bytes :=
  (List.range n).flatMap fun k => pageAt mem (addrAt addr (k * 4096))

def VirtualMemoryArea.size (vma : VirtualMemoryArea) : ℕ :=
  vma.endAddr.toNat - vma.beginAddr.toNat

def loadOf (filter : BitVec 32) (mem : ProcMem) (vma : VirtualMemoryArea) : LoadSegment where
  vaddr := vma.beginAddr.toNat
  memsz := vma.size
  filesz := if isFiltered filter vma then 0 else vma.size
  flags := permissions vma
  bytes := if isFiltered filter vma then [] else memoryImage mem vma.beginAddr (vma.size / 4096)

def fileOf (vma : VirtualMemoryArea) (name : Bytes) : MappedFile :=
  ⟨vma.beginAddr.toNat, vma.endAddr.toNat, (vma.offset >>> 12).toNat, name⟩

/-- The mappings, with the names as they are read back. -/
def filesOf (maps : List VirtualMemoryArea) (names : List Bytes) : List MappedFile :=
  (maps.zip names).map fun (vma, name) => fileOf vma name

section Headers

theorem readPhdrs_eq {c : ElfClass} {ehdr : Ehdr c} {phdr : List (Phdr c)}
    (hphoff : ehdr.e_phoff.toNat = sizeofEhdr c) (hphnum : ehdr.e_phnum.toNat ≤ phdr.length)
    (rest : Bytes) :
    readPhdrs c (ehdr.bytes ++ (phdr.flatMap Phdr.bytes ++ rest)) =
      some (phdr.take ehdr.e_phnum.toNat) := by
  have hone : ∀ ph ∈ phdr.take ehdr.e_phnum.toNat, ∀ rest, takePhdr c (ph.bytes ++ rest) =
      some (ph, rest) := fun ph _ => takePhdr_bytes ph
  have hphdrs := takeMany_flatMap hone ((phdr.drop ehdr.e_phnum.toNat).flatMap Phdr.bytes ++ rest)
  rw [List.length_take_of_le hphnum, ← List.append_assoc, ← List.flatMap_append,
    List.take_append_drop] at hphdrs
  rw [readPhdrs, takeEhdr_bytes, Option.bind_some]
  simp only [hphoff]
  rw [List.drop_left' (length_ehdrBytes ehdr), hphdrs, Option.map_some]

end Headers

section Filtered

/-- The program header of an area under a filter that looks at nothing but the area. -/
def filteredPhdr (c : ElfClass) (filter : BitVec 32) (vma : VirtualMemoryArea) : Phdr c :=
  applyVmaFlag (if isFiltered filter vma then VMA_NULL else VMA_NORMAL)
    (parserPhdr ELF_PAGE_SIZE vma {})

theorem filteredPhdr_eq (c : ElfClass) (filter : BitVec 32) (vma : VirtualMemoryArea) :
    filteredPhdr c filter vma = { (parserPhdr ELF_PAGE_SIZE vma {} : Phdr c) with
      p_filesz := if isFiltered filter vma then 0
        else vma.endAddr.setWidth c.bits - vma.beginAddr.setWidth c.bits } := by
  unfold filteredPhdr
  split_ifs <;> rfl

/-- Without the file filter and the minidump every area gets a verdict from its own fields. -/
theorem vmaFlag_filtered {d : Dumper a} (hfile : has d.filter FILTER_FILE_VMA = false)
    (hmini : has d.filter FILTER_MINIDUMP = false) (files : Bytes → Option FileImage)
    (vma : VirtualMemoryArea) :
    vmaFlag d files vma = some (if isFiltered d.filter vma then VMA_NULL else VMA_NORMAL) := by
  rw [vmaFlag_of_not_minidump hmini, isFilterSegment_eq, hfile, Bool.false_and]
  unfold isFiltered
  cases has d.filter FILTER_SPECIAL_VMA && isSpecialVma vma <;>
    cases isLaterFiltered d.filter vma <;> rfl

theorem specialCoreFilter_filtered {d : Dumper a} (hfile : has d.filter FILTER_FILE_VMA = false)
    (hmini : has d.filter FILTER_MINIDUMP = false)
    (hphdr : d.phdr = d.maps.map fun vma => parserPhdr ELF_PAGE_SIZE vma {})
    (files : Bytes → Option FileImage) :
    specialCoreFilter d files =
      some { d with phdr := d.maps.map (filteredPhdr a.cls d.filter) } := by
  have hflag : vmaFlag d files = fun vma =>
      pure (if isFiltered d.filter vma then VMA_NULL else VMA_NORMAL) :=
    funext fun vma => vmaFlag_filtered hfile hmini files vma
  have hflags : d.maps.mapM (vmaFlag d files) =
      some (d.maps.map fun vma => if isFiltered d.filter vma then VMA_NULL else VMA_NORMAL) := by
    rw [hflag]
    exact List.mapM_pure
  rw [specialCoreFilter, hflags, Option.map_some, hphdr, applyVmaFlags_map]
  rfl

theorem filteredPhdr_none (c : ElfClass) :
    filteredPhdr c FILTER_NONE = fun vma => parserPhdr ELF_PAGE_SIZE vma {} := by
  funext vma
  simp [filteredPhdr, isFiltered, isLaterFiltered, has_none]
  rfl

end Filtered

section Loads

variable {c : ElfClass}

theorem loadBytes_placeSegments (mem : ProcMem) (offset : BitVec c.bits) (phdr : List (Phdr c)) :
    loadBytes mem ELF_PAGE_SIZE (placeSegments offset phdr) = loadBytes mem ELF_PAGE_SIZE phdr := by
  induction phdr generalizing offset with
  | nil => rfl
  | cons ph phdr ih =>
    have hrest := ih (offset + ph.p_filesz)
    unfold loadBytes at hrest ⊢
    rw [placeSegments, List.flatMap_cons, List.flatMap_cons, hrest]
    rfl

/-- What the reader finds of a segment that was written where its header says. -/
def writtenLoad (mem : ProcMem) (ph : Phdr c) : LoadSegment where
  vaddr := ph.p_vaddr.toNat
  memsz := ph.p_memsz.toNat
  filesz := ph.p_filesz.toNat
  flags := ph.p_flags
  bytes := if ph.p_filesz > 0 then segmentBytes mem ELF_PAGE_SIZE ph else []

theorem length_writtenLoad (mem : ProcMem) {ph : Phdr c} (h : LoadPhdr ph) :
    (writtenLoad mem ph).bytes.length = ph.p_filesz.toNat := by
  have hone : ∀ p ∈ [ph], LoadPhdr p := fun p hp => List.mem_singleton.mp hp ▸ h
  have hlen := length_loadBytes mem hone
  simpa [loadBytes, segmentsSize, writtenLoad] using hlen

/-- By induction on the segments, with what stands before them in the file. -/
theorem map_loadSegment (mem : ProcMem) {phdr : List (Phdr c)} (h : ∀ ph ∈ phdr, LoadPhdr ph)
    (before : Bytes) (htotal : before.length + segmentsSize phdr < 2 ^ c.bits) :
    (placeSegments (BitVec.ofNat c.bits before.length) phdr).map
      (loadSegment (before ++ loadBytes mem ELF_PAGE_SIZE phdr)) =
      phdr.map (writtenLoad mem) := by
  induction phdr generalizing before with
  | nil => rfl
  | cons ph phdr ih =>
    have hlen := length_writtenLoad mem (h ph List.mem_cons_self)
    have hsize := segmentsSize_cons ph phdr
    have hcontent : before ++ loadBytes mem ELF_PAGE_SIZE (ph :: phdr) =
        (before ++ (writtenLoad mem ph).bytes) ++ loadBytes mem ELF_PAGE_SIZE phdr := by
      rw [loadBytes, List.flatMap_cons, List.append_assoc]
      rfl
    have hnext : BitVec.ofNat c.bits before.length + ph.p_filesz =
        BitVec.ofNat c.bits (before ++ (writtenLoad mem ph).bytes).length := by
      rw [List.length_append, hlen, BitVec.ofNat_add, BitVec.ofNat_toNat, BitVec.setWidth_eq]
    have hrest := ih (fun p hp => h p (List.mem_cons_of_mem ph hp))
      (before ++ (writtenLoad mem ph).bytes) (by rw [List.length_append, hlen]; omega)
    have hhead : loadSegment (before ++ loadBytes mem ELF_PAGE_SIZE (ph :: phdr))
        { ph with p_offset := BitVec.ofNat c.bits before.length } = writtenLoad mem ph := by
      have hslice := slice_mid_of_eq (a := before) (c := loadBytes mem ELF_PAGE_SIZE phdr)
        (toNat_ofNat_of_lt (by omega : before.length < 2 ^ c.bits)) hlen.symm
      rw [hcontent, List.append_assoc, loadSegment, hslice]
      rfl
    rw [placeSegments, List.map_cons, hhead, hnext, hcontent, hrest, List.map_cons]

end Loads

section Area

variable {c : ElfClass} {vma : VirtualMemoryArea}

/-- An area that both classes can address. -/
structure VirtualMemoryArea.Below4G (vma : VirtualMemoryArea) : Prop extends vma.Mapped where
  end_lt : vma.endAddr.toNat < 2 ^ 32

theorem VirtualMemoryArea.Below4G.begin_lt (h : vma.Below4G) : vma.beginAddr.toNat < 2 ^ 32 :=
  h.nonempty.trans h.end_lt

theorem toNat_setWidth_of_lt {w : ℕ} {x : BitVec w} (h : x.toNat < 2 ^ 32) :
    (x.setWidth c.bits).toNat = x.toNat := by
  have hwidth : 2 ^ 32 ≤ 2 ^ c.bits := Nat.pow_le_pow_right (by norm_num) c.bits_ge
  rw [BitVec.toNat_setWidth, Nat.mod_eq_of_lt (h.trans_le hwidth)]

theorem VirtualMemoryArea.Below4G.memsz (h : vma.Below4G) :
    (vma.endAddr.setWidth c.bits - vma.beginAddr.setWidth c.bits).toNat = vma.size := by
  have hwidth : 2 ^ 32 ≤ 2 ^ c.bits := Nat.pow_le_pow_right (by norm_num) c.bits_ge
  have hend := h.end_lt
  rw [memsz_toNat c h.nonempty.le, VirtualMemoryArea.size, Nat.mod_eq_of_lt (by omega)]

theorem permissions_eq (c : ElfClass) (vma : VirtualMemoryArea) :
    (parserPhdr ELF_PAGE_SIZE vma ({} : Phdr c)).p_flags = permissions vma := by
  cases c <;> rfl

theorem load_filteredPhdr (h : vma.Below4G) (filter : BitVec 32) :
    LoadPhdr (filteredPhdr c filter vma) := by
  have hend := h.end_lt
  exact (parserPhdr_load c h.toMapped (by omega)).applyVmaFlag _

theorem readPage_below (mem : ProcMem) {ph : Phdr c}
    (halign : ph.p_align = BitVec.ofNat c.bits 4096) {addr : BitVec 64}
    (hvaddr : ph.p_vaddr = addr.setWidth c.bits) {k : ℕ} (hlt : addr.toNat + k * 4096 < 2 ^ 32) :
    readPage mem ELF_PAGE_SIZE ph k = pageAt mem (addrAt addr (k * 4096)) := by
  have hwidth : 2 ^ 32 ≤ 2 ^ c.bits := Nat.pow_le_pow_right (by norm_num) c.bits_ge
  have haddr : (ph.p_vaddr + (BitVec.ofNat 32 k * ELF_PAGE_SIZE).setWidth c.bits).setWidth 64 =
      addrAt addr (k * 4096) := by
    apply BitVec.eq_of_toNat_eq
    have hbegin : (addr.setWidth c.bits).toNat = addr.toNat := toNat_setWidth_of_lt (by omega)
    have hoffset : ((BitVec.ofNat 32 k * ELF_PAGE_SIZE).setWidth c.bits).toNat = k * 4096 := by
      rw [ELF_PAGE_SIZE, show (0x1000 : BitVec 32) = BitVec.ofNat 32 4096 from rfl,
        ← BitVec.ofNat_mul, setWidth_ofNat_of_lt (by omega), toNat_ofNat_of_lt (by omega)]
    rw [addrAt, hvaddr, BitVec.toNat_setWidth, BitVec.toNat_add, BitVec.toNat_add, hbegin, hoffset,
      BitVec.toNat_ofNat, Nat.mod_eq_of_lt (by omega : addr.toNat + k * 4096 < 2 ^ c.bits)]
    omega
  have hcount : ph.p_align.toNat = 4096 := by
    rw [halign, toNat_ofNat_of_lt (by omega)]
  rw [readPage_pageAt mem hcount, haddr]

theorem segmentBytes_below (mem : ProcMem) (h : vma.Below4G) (filter : BitVec 32) :
    segmentBytes mem ELF_PAGE_SIZE (filteredPhdr c filter vma) =
      memoryImage mem vma.beginAddr (vma.size / 4096) := by
  have hload : LoadPhdr (filteredPhdr c filter vma) := load_filteredPhdr h filter
  have hmemsz : (filteredPhdr c filter vma).p_memsz.toNat = vma.size := by
    rw [filteredPhdr_eq]
    exact h.memsz
  have hvaddr : (filteredPhdr c filter vma).p_vaddr = vma.beginAddr.setWidth c.bits := by
    rw [filteredPhdr_eq]
    rfl
  rw [segmentBytes, pageCount_eq hload, hmemsz, memoryImage]
  apply List.flatMap_congr
  intro k hk
  have hpages := Nat.div_mul_le_self vma.size 4096
  have hk' := List.mem_range.mp hk
  have hend := h.end_lt
  have hsize : vma.beginAddr.toNat + vma.size = vma.endAddr.toNat :=
    Nat.add_sub_cancel' h.nonempty.le
  exact readPage_below mem hload.align hvaddr (by omega)

/-- The reader finds the same segment in both classes. -/
theorem writtenLoad_below (mem : ProcMem) (h : vma.Below4G) (filter : BitVec 32) :
    writtenLoad mem (filteredPhdr c filter vma) = loadOf filter mem vma := by
  have hpos : 0 < vma.size := Nat.sub_pos_of_lt h.nonempty
  have hbytes := segmentBytes_below (c := c) mem h filter
  have hzero : ¬ (0 : BitVec c.bits) > 0 := BitVec.lt_irrefl 0
  have hkept : vma.endAddr.setWidth c.bits - vma.beginAddr.setWidth c.bits > 0 := by
    rw [gt_iff_lt, BitVec.lt_def, h.memsz]
    exact hpos
  have hvaddr : (vma.beginAddr.setWidth c.bits).toNat = vma.beginAddr.toNat :=
    toNat_setWidth_of_lt h.begin_lt
  have hmemsz := h.memsz (c := c)
  have hflags := permissions_eq c vma
  unfold writtenLoad loadOf
  rw [hbytes, filteredPhdr_eq]
  cases isFiltered filter vma with
  | true =>
    simp only [if_true, hzero, if_false, hflags]
    simp only [parserPhdr, hvaddr, hmemsz]
    rfl
  | false =>
    simp only [Bool.false_eq_true, if_false, hkept, if_true, hflags, hmemsz]
    simp only [parserPhdr, hvaddr, hmemsz]

theorem mappedFile_below (h : vma.Below4G) (name : Bytes) :
    mappedFile (parserNtFile c vma) name = fileOf vma name := by
  have hbegin : (vma.beginAddr.setWidth c.bits).toNat = vma.beginAddr.toNat :=
    toNat_setWidth_of_lt h.begin_lt
  have hend : (vma.endAddr.setWidth c.bits).toNat = vma.endAddr.toNat :=
    toNat_setWidth_of_lt h.end_lt
  have hoffset : ((vma.offset >>> 12).setWidth c.bits).toNat = (vma.offset >>> 12).toNat :=
    toNat_setWidth_of_lt (vma.offset >>> 12).isLt
  simp only [mappedFile, parserNtFile, fileOf, hbegin, hend, hoffset]

end Area

section Decode

variable {view : ProcessView a} {d : Dumper a} {fp : FILE}

theorem regsetNotes_type (view : ProcessView a) (tid : BitVec 32) :
    ∀ n ∈ regsetNotes view tid, n.type ≠ NT_FILE := by
  cases a with
  | arm64 =>
    intro n hn
    simp only [regsetNotes, List.mem_cons, List.not_mem_nil, or_false] at hn
    rcases hn with rfl | rfl | rfl | rfl | rfl <;> dsimp only <;> decide
  | x86_64 => exact fun n hn => absurd hn List.not_mem_nil
  | arm => exact fun n hn => absurd hn List.not_mem_nil
  | x86 => exact fun n hn => absurd hn List.not_mem_nil

theorem slotNotes_type (d : Dumper a) (view : ProcessView a) (slot : PrStatus a × ℕ) :
    ∀ n ∈ slotNotes d view slot, n.type ≠ NT_FILE := by
  have hprstatus : NT_PRSTATUS ≠ NT_FILE := by decide
  have hsiginfo : NT_SIGINFO ≠ NT_FILE := by decide
  intro n hn
  simp only [slotNotes, List.cons_append, List.mem_cons, List.mem_append] at hn
  rcases hn with rfl | hn | hn
  · exact hprstatus
  · split_ifs at hn
    · obtain rfl := List.mem_singleton.mp hn
      exact hsiginfo
    · exact absurd hn List.not_mem_nil
  · exact regsetNotes_type view slot.1.pr_pid n hn

theorem find_fileNote (d : Dumper a) (view : ProcessView a) :
    (coreNotes d view).find? (fun n => n.type == NT_FILE) = some (fileNote d) := by
  have hslots : (slotsNotes d view).find? (fun n => n.type == NT_FILE) = none := by
    rw [List.find?_eq_none]
    intro n hn
    obtain ⟨slot, -, hn⟩ := List.mem_flatMap.mp hn
    exact fun htype => slotNotes_type d view slot n hn (beq_iff_eq.mp htype)
  rw [coreNotes, List.find?_append, hslots, Option.none_or]
  rfl

/-- The reader finds every mapping, with the names as the strings of NT_FILE have them. -/
theorem readMappedFiles_core (h : Collected view d) (hz : d.note.p_filesz = 0)
    (hfit : NotesFit view) (hauxv : sizeofAuxv a.cls * view.auxv.length < 2 ^ 32)
    (hfp : fp.Appending) (hempty : fp.content = []) (hmaps : ∀ vma ∈ view.maps, vma.Below4G)
    {names : List Bytes} {rest : Bytes}
    (hnames : takeMany takeString view.maps.length (nameStrings view.maps) = some (names, rest))
    (phdr : List (Phdr a.cls)) :
    readMappedFiles (writeCore d view fp).2.content ((placed d).note :: phdr) =
      some (filesOf view.maps names) := by
  obtain ⟨hsegment, -⟩ := noteSegment_eq h hz hfit hfp hempty
  have hnote : (writeCore d view fp).1.note = (placed d).note := by
    rw [writeCore_loads, writeHeaders_eq h hfit.loops hfp]
  have hfind : ((placed d).note :: phdr).find? (fun ph => ph.p_type == PT_NOTE) =
      some (placed d).note := by
    rw [List.find?_cons_of_pos (by rw [h.placed.note_type]; rfl)]
  have hread := readNotes_encode _ (coreNotes_fit h.placed hfit hauxv)
  have htable : readFileTable a.cls (fileNote (placed d)).desc =
      some ⟨pageSizeWord (placed d), view.maps.map (parserNtFile a.cls), names⟩ := by
    rw [fileNote_desc h.placed hfit.loops, readFileTable_strings _ _ (files_lt hfit.loops),
      List.length_map, hnames, Option.map_some]
  rw [hnote] at hsegment
  simp only [readMappedFiles, hfind, hsegment, hread, find_fileNote, htable, Option.bind_eq_bind,
    Option.bind_some, List.zip_map_left, List.map_map, Option.some.injEq]
  apply List.map_congr_left
  rintro ⟨vma, name⟩ hmem
  exact mappedFile_below (hmaps vma (List.of_mem_zip hmem).1) name

/-- The reader takes the placed program headers behind that of the notes, as far as the
16-bit count goes. -/
theorem readPhdrs_core (h : Collected view d)
    (hphoff : d.ehdr.e_phoff = BitVec.ofNat a.cls.bits (sizeofEhdr a.cls))
    (hphnum : d.ehdr.e_phnum = BitVec.ofNat 16 (view.maps.length + 1)) (rest : Bytes) :
    readPhdrs a.cls (headerBytes d ++ rest) =
      some (((placed d).note :: (placed d).phdr).take ((view.maps.length + 1) % 2 ^ 16)) := by
  have hoffset : d.ehdr.e_phoff.toNat = sizeofEhdr a.cls := by
    rw [hphoff]
    cases a <;> rfl
  have hcount : d.ehdr.e_phnum.toNat = (view.maps.length + 1) % 2 ^ 16 := by
    rw [hphnum, BitVec.toNat_ofNat]
  have hle : d.ehdr.e_phnum.toNat ≤ ((placed d).note :: (placed d).phdr).length := by
    rw [hcount, List.length_cons, h.placed.phnum]
    exact Nat.mod_le _ _
  have hphdrs := readPhdrs_eq hoffset hle rest
  rw [hcount] at hphdrs
  rw [← hphdrs, headerBytes, List.flatMap_cons]
  simp only [List.append_assoc]

theorem filteredPhdr_type (c : ElfClass) (filter : BitVec 32) (vma : VirtualMemoryArea) :
    (filteredPhdr c filter vma).p_type = PT_LOAD := by
  rw [filteredPhdr_eq]
  rfl

theorem readLoads_core (h : Collected view d) {filter : BitVec 32}
    (hphdr : d.phdr = view.maps.map (filteredPhdr a.cls filter)) {phdr : List (Phdr a.cls)}
    (hsub : ∀ ph ∈ phdr, ph ∈ (placed d).phdr) (content : Bytes) :
    readLoads content ((placed d).note :: phdr) = phdr.map (loadSegment content) := by
  have hnote : ((placed d).note.p_type == PT_LOAD) = false := by
    rw [h.placed.note_type]
    rfl
  have hloads : phdr.filter (fun ph => ph.p_type == PT_LOAD) = phdr := by
    rw [List.filter_eq_self]
    intro ph hph
    obtain ⟨orig, horig, offset, rfl⟩ := mem_placeSegments (hsub ph hph)
    rw [hphdr] at horig
    obtain ⟨vma, -, rfl⟩ := List.mem_map.mp horig
    exact beq_iff_eq.mpr (filteredPhdr_type a.cls filter vma)
  rw [readLoads, List.filter_cons_of_neg (by rw [hnote]; decide), hloads]

/-- The segments that a reader finds, one less than the 16-bit count. -/
theorem decodeLoads_writeCore (h : Collected view d) (hloops : LoopsFit view)
    (hfp : fp.Appending) (hempty : fp.content = []) {filter : BitVec 32}
    (hphdr : d.phdr = view.maps.map (filteredPhdr a.cls filter))
    (hphoff : d.ehdr.e_phoff = BitVec.ofNat a.cls.bits (sizeofEhdr a.cls))
    (hphnum : d.ehdr.e_phnum = BitVec.ofNat 16 (view.maps.length + 1)) {n : ℕ}
    (hcount : (view.maps.length + 1) % 2 ^ 16 = n + 1) :
    decodeLoads a.cls (writeCore d view fp).2.content =
      some (((placed d).phdr.take n).map (loadSegment (writeCore d view fp).2.content)) := by
  have hphdrs : readPhdrs a.cls (writeCore d view fp).2.content =
      some ((placed d).note :: (placed d).phdr.take n) := by
    obtain ⟨loads, hbytes⟩ := writeCore_content h hloops hfp hempty
    rw [hbytes]
    simp only [List.append_assoc]
    rw [readPhdrs_core h hphoff hphnum, hcount, List.take_succ_cons]
  rw [decodeLoads, hphdrs, Option.map_some,
    readLoads_core h hphdr fun ph hph => List.mem_of_mem_take hph]

/-- The decoded core in terms of the process, in either class. -/
theorem decode_writeCore (h : Collected view d) (hz : d.note.p_filesz = 0) (hfit : NotesFit view)
    (hauxv : sizeofAuxv a.cls * view.auxv.length < 2 ^ 32) (hfp : fp.Appending)
    (hempty : fp.content = []) (hmaps : ∀ vma ∈ view.maps, vma.Below4G) {mem : ProcMem}
    (hmem : view.mem = some mem) {filter : BitVec 32}
    (hphdr : d.phdr = view.maps.map (filteredPhdr a.cls filter))
    (hphoff : d.ehdr.e_phoff = BitVec.ofNat a.cls.bits (sizeofEhdr a.cls))
    (hphnum : d.ehdr.e_phnum = BitVec.ofNat 16 (view.maps.length + 1))
    (htotal : coreSize view d.phdr < 2 ^ a.cls.bits) {names : List Bytes} {rest : Bytes}
    (hnames : takeMany takeString view.maps.length (nameStrings view.maps) = some (names, rest)) :
    decodeLoads a.cls (writeCore d view fp).2.content =
        some (view.maps.map (loadOf filter mem)) ∧
      decodeFiles a.cls (writeCore d view fp).2.content = some (filesOf view.maps names) := by
  have happ := appending_beforeLoads h hfit.loops hfp
  have hload : ∀ ph ∈ d.phdr, LoadPhdr ph := by
    intro ph hph
    rw [hphdr] at hph
    obtain ⟨vma, hvma, rfl⟩ := List.mem_map.mp hph
    exact load_filteredPhdr (hmaps vma hvma) filter
  have hstart := length_beforeLoads_eq h hz hfit hfp hempty
  have hcontent : (writeCore d view fp).2.content =
      (beforeLoads d view fp).content ++ loadBytes mem ELF_PAGE_SIZE d.phdr := by
    rw [writeCore_eq h hfit.loops hfp hmem, writeSegments_eq happ, FILE.content_append, h.align,
      placed_phdr_eq h hz hfit, loadBytes_placeSegments]
  have hphdrs : readPhdrs a.cls (writeCore d view fp).2.content =
      some ((placed d).note :: (placed d).phdr) := by
    obtain ⟨loads, hbytes⟩ := writeCore_content h hfit.loops hfp hempty
    rw [hbytes]
    simp only [List.append_assoc]
    rw [readPhdrs_core h hphoff hphnum, Nat.mod_eq_of_lt hfit.phnum, List.take_of_length_le]
    rw [List.length_cons, h.placed.phnum]
  constructor
  · have hmap := map_loadSegment mem hload (beforeLoads d view fp).content (by rwa [hstart])
    rw [decodeLoads, hphdrs, Option.map_some, readLoads_core h hphdr fun ph hph => hph, hcontent,
      placed_phdr_eq h hz hfit, ← hstart, hmap, hphdr, List.map_map]
    congr 1
    exact List.map_congr_left fun vma hvma => writtenLoad_below mem (hmaps vma hvma) filter
  · rw [decodeFiles, hphdrs, Option.bind_some,
      readMappedFiles_core h hz hfit hauxv hfp hempty hmaps hnames]

end Decode

end Opencore
