import Opencore.Machine.Extent
import Opencore.Dumper.CoreReader

/-! The memory that a debugger reads from a core, at every address, under every filter. -/
namespace Opencore
open Machine Elf

variable {a : Arch}

def LoadSegment.extent (s : LoadSegment) : Extent := ⟨s.vaddr, s.bytes⟩

def readMemory (c : ElfClass) (content : Bytes) (addr : ℕ) : Option UInt8 :=
  (decodeLoads c content).bind fun loads => Extent.readByte (loads.map LoadSegment.extent) addr

/-- The byte of the process at an address, zero where its page cannot be read. -/
def memoryByte (mem : ProcMem) (addr : ℕ) : UInt8 :=
  (pageAt mem (BitVec.ofNat 64 (addr / 4096 * 4096))).getD (addr % 4096) 0

/-- The verdict of the filters leaves the memory of an area in the core. -/
def KeepsMemory (d : Dumper a) (files : Bytes → Option FileImage) (vma : VirtualMemoryArea) :
    Prop :=
  ∃ vma_flag, vmaFlag d files vma = some vma_flag ∧
    (has vma_flag VMA_INCLUDE = true ∨ has vma_flag VMA_NULL = false)

/-- An area whose pages the `uint32_t` product reaches. -/
structure VirtualMemoryArea.Imaged (c : ElfClass) (vma : VirtualMemoryArea) : Prop
    extends vma.Mapped where
  size_le : c = .elf64 → vma.size ≤ 2 ^ 32
  end_lt : c = .elf32 → vma.endAddr.toNat < 2 ^ 32

/-- The kernel lists the areas in ascending order, and none of them overlap. -/
def Ascending (maps : List VirtualMemoryArea) : Prop :=
  maps.Pairwise fun v w => v.endAddr.toNat ≤ w.beginAddr.toNat

section Image

variable {mem : ProcMem} {addr : BitVec 64} {n : ℕ}

theorem getElem?_slice (b : Bytes) (pos : ℕ) {len i : ℕ} (h : i < len) :
    (slice b pos len)[i]? = b[pos + i]? := by
  rw [slice, List.getElem?_take_of_lt h, List.getElem?_drop]

theorem length_memoryImage (mem : ProcMem) (addr : BitVec 64) (n : ℕ) :
    (memoryImage mem addr n).length = n * 4096 := by
  rw [memoryImage, length_flatMap_const _ 4096 _ fun _ _ => length_pageAt mem _, List.length_range]

theorem page_add {base : ℕ} (h : 4096 ∣ base) (i : ℕ) :
    (base + i) / 4096 * 4096 = base + i / 4096 * 4096 ∧ (base + i) % 4096 = i % 4096 := by
  obtain ⟨page, rfl⟩ := h
  omega

/-- The bytes of an image are those of the process at their addresses. -/
theorem memoryImage_getElem? (hpage : 4096 ∣ addr.toNat) {i : ℕ} (hi : i < n * 4096) :
    (memoryImage mem addr n)[i]? = some (memoryByte mem (addr.toNat + i)) := by
  have hk : i / 4096 < n := by omega
  have hlen : ∀ k ∈ List.range n, (pageAt mem (addrAt addr (k * 4096))).length = 4096 :=
    fun k _ => length_pageAt mem _
  have hslice := slice_flatMap _ 4096 _ hlen (by rwa [List.length_range])
  rw [List.getElem_range] at hslice
  have hsplit : i / 4096 * 4096 + i % 4096 = i := Nat.div_add_mod' i 4096
  have hbyte := getElem?_slice (memoryImage mem addr n) (i / 4096 * 4096)
    (Nat.mod_lt i (by norm_num : 0 < 4096))
  obtain ⟨hpages, hmod⟩ := page_add hpage i
  have haddr :
      BitVec.ofNat 64 ((addr.toNat + i) / 4096 * 4096) = addrAt addr (i / 4096 * 4096) := by
    rw [hpages, addrAt, BitVec.ofNat_add, BitVec.ofNat_toNat, BitVec.setWidth_eq]
  rw [hsplit, memoryImage, hslice] at hbyte
  have hin : i % 4096 < (pageAt mem (addrAt addr (i / 4096 * 4096))).length := by
    rw [length_pageAt]
    exact Nat.mod_lt i (by norm_num)
  rw [memoryImage, ← hbyte, memoryByte, haddr, hmod, List.getElem?_eq_getElem hin,
    List.getD_eq_getElem _ _ hin]

end Image

section Segment

variable {c : ElfClass} {vma : VirtualMemoryArea} {mem : ProcMem} {ph : Phdr c}

/-- The program header of an area, with or without its memory. -/
structure AreaPhdr (vma : VirtualMemoryArea) (ph : Phdr c) : Prop extends LoadPhdr ph where
  type : ph.p_type = PT_LOAD
  vaddr : ph.p_vaddr = vma.beginAddr.setWidth c.bits
  memsz : ph.p_memsz.toNat = vma.size
  flags : ph.p_flags = permissions vma

theorem VirtualMemoryArea.Imaged.below (h : vma.Imaged .elf32) : vma.Below4G :=
  { h.toMapped with end_lt := h.end_lt rfl }

theorem VirtualMemoryArea.Imaged.short (h : vma.Imaged c) : vma.size < 2 ^ 43 := by
  cases c with
  | elf32 => exact (Nat.sub_le _ _).trans_lt ((h.end_lt rfl).trans (by norm_num))
  | elf64 => exact (h.size_le rfl).trans_lt (by norm_num)

theorem VirtualMemoryArea.Imaged.begin_lt (h : vma.Imaged c) :
    vma.beginAddr.toNat < 2 ^ c.bits := by
  cases c with
  | elf32 => exact h.below.begin_lt
  | elf64 => exact vma.beginAddr.isLt

theorem areaPhdr_parserPhdr (h : vma.Imaged c) :
    AreaPhdr vma (parserPhdr ELF_PAGE_SIZE vma ({} : Phdr c)) where
  toLoadPhdr := parserPhdr_load c h.toMapped h.short
  type := rfl
  vaddr := rfl
  memsz := by
    refine (memsz_toNat c h.nonempty.le).trans (Nat.mod_eq_of_lt ?_)
    cases c with
    | elf32 => exact (Nat.sub_le _ _).trans_lt (h.end_lt rfl)
    | elf64 => exact (h.size_le rfl).trans_lt (by norm_num [ElfClass.bits])
  flags := permissions_eq c vma

theorem AreaPhdr.applyVmaFlag (h : AreaPhdr vma ph) (vma_flag : BitVec 32) :
    AreaPhdr vma (applyVmaFlag vma_flag ph) where
  toLoadPhdr := h.toLoadPhdr.applyVmaFlag vma_flag
  type := by
    unfold Opencore.applyVmaFlag
    split_ifs <;> exact h.type
  vaddr := by
    unfold Opencore.applyVmaFlag
    split_ifs <;> exact h.vaddr
  memsz := by rw [applyVmaFlag_memsz, h.memsz]
  flags := by
    unfold Opencore.applyVmaFlag
    split_ifs <;> exact h.flags

theorem readPage_imaged (hvma : vma.Imaged c) (h : AreaPhdr vma ph) {k : ℕ}
    (hk : k * 4096 < vma.size) :
    readPage mem ELF_PAGE_SIZE ph k = pageAt mem (addrAt vma.beginAddr (k * 4096)) := by
  cases c with
  | elf32 =>
    have hend := hvma.end_lt rfl
    have hsize : vma.beginAddr.toNat + vma.size = vma.endAddr.toNat :=
      Nat.add_sub_cancel' hvma.nonempty.le
    exact readPage_below mem h.align h.vaddr (by omega)
  | elf64 =>
    have hsize := hvma.size_le rfl
    have hvaddr : ph.p_vaddr = vma.beginAddr := h.vaddr.trans (BitVec.setWidth_eq _)
    rw [readPage_eq mem h.align, hvaddr, Nat.mod_eq_of_lt (by omega)]

theorem segmentBytes_imaged (mem : ProcMem) (hvma : vma.Imaged c) (h : AreaPhdr vma ph) :
    segmentBytes mem ELF_PAGE_SIZE ph = memoryImage mem vma.beginAddr (vma.size / 4096) := by
  rw [segmentBytes, pageCount_eq h.toLoadPhdr, h.memsz, memoryImage]
  apply List.flatMap_congr
  intro k hk
  have hpages := Nat.div_mul_le_self vma.size 4096
  have hk' := List.mem_range.mp hk
  exact readPage_imaged hvma h (by omega)

theorem hasByte_writtenLoad (hvma : vma.Imaged c) (h : AreaPhdr vma ph) {addr : ℕ} {b : UInt8} :
    (writtenLoad mem ph).extent.HasByte addr b ↔ 0 < ph.p_filesz.toNat ∧
      vma.beginAddr.toNat ≤ addr ∧ addr < vma.endAddr.toNat ∧ b = memoryByte mem addr := by
  have hvaddr : (writtenLoad mem ph).extent.start = vma.beginAddr.toNat := by
    change ph.p_vaddr.toNat = _
    rw [h.vaddr, BitVec.toNat_setWidth, Nat.mod_eq_of_lt hvma.begin_lt]
  have hwhole : 4096 ∣ vma.size := Nat.dvd_sub hvma.end_dvd hvma.begin_dvd
  have hsize : vma.beginAddr.toNat + vma.size = vma.endAddr.toNat :=
    Nat.add_sub_cancel' hvma.nonempty.le
  have hbytes : (writtenLoad mem ph).extent.bytes =
      if ph.p_filesz > 0 then memoryImage mem vma.beginAddr (vma.size / 4096) else [] := by
    rw [← segmentBytes_imaged mem hvma h]
    rfl
  have hkept : ph.p_filesz > 0 ↔ 0 < ph.p_filesz.toNat := by
    rw [gt_iff_lt, BitVec.lt_def]
    rfl
  rw [Extent.HasByte, hvaddr, hbytes, ← hkept]
  split_ifs with hpos
  · constructor
    · rintro ⟨hle, hbyte⟩
      have hlt := (List.getElem?_eq_some_iff.mp hbyte).1
      rw [length_memoryImage] at hlt
      rw [memoryImage_getElem? hvma.begin_dvd hlt, Nat.add_sub_cancel' hle] at hbyte
      exact ⟨hpos, hle, by omega, (Option.some.inj hbyte).symm⟩
    · rintro ⟨-, hle, hlt, rfl⟩
      refine ⟨hle, ?_⟩
      rw [memoryImage_getElem? hvma.begin_dvd (by omega), Nat.add_sub_cancel' hle]
  · constructor
    · rintro ⟨-, hbyte⟩
      exact nomatch hbyte
    · rintro ⟨hf, -⟩
      exact absurd hf hpos

end Segment

section Filtered

variable {c : ElfClass} {mem : ProcMem}

/-- A filtered program header and its area. -/
structure FilteredArea (d : Dumper a) (files : Bytes → Option FileImage)
    (vma : VirtualMemoryArea) (ph : Phdr a.cls) : Prop extends AreaPhdr vma ph where
  keeps : 0 < ph.p_filesz.toNat ↔ KeepsMemory d files vma

theorem filteredArea_of_flag {d : Dumper a} {files : Bytes → Option FileImage}
    {vma : VirtualMemoryArea} (hvma : vma.Imaged a.cls) {vma_flag : BitVec 32}
    (hflag : vmaFlag d files vma = some vma_flag) :
    FilteredArea d files vma (applyVmaFlag vma_flag (parserPhdr ELF_PAGE_SIZE vma {})) where
  toAreaPhdr := (areaPhdr_parserPhdr hvma).applyVmaFlag vma_flag
  keeps := by
    have hsize : 0 < (parserPhdr ELF_PAGE_SIZE vma ({} : Phdr a.cls)).p_memsz.toNat := by
      rw [(areaPhdr_parserPhdr hvma).memsz]
      exact Nat.sub_pos_of_lt hvma.nonempty
    have hfilesz : (parserPhdr ELF_PAGE_SIZE vma ({} : Phdr a.cls)).p_filesz =
        (parserPhdr ELF_PAGE_SIZE vma ({} : Phdr a.cls)).p_memsz := rfl
    have hkeeps : KeepsMemory d files vma ↔
        has vma_flag VMA_INCLUDE = true ∨ has vma_flag VMA_NULL = false := by
      constructor
      · rintro ⟨flag, hflag', hkept⟩
        obtain rfl := Option.some.inj (hflag.symm.trans hflag')
        exact hkept
      · intro hkept
        exact ⟨vma_flag, hflag, hkept⟩
    rw [applyVmaFlag_filesz, hkeeps]
    split_ifs with hinclude hnull
    · exact iff_of_true hsize (Or.inl hinclude)
    · refine iff_of_false (by simp) ?_
      rintro (h | h)
      · exact hinclude h
      · exact absurd (hnull.symm.trans h) (by decide)
    · refine iff_of_true (hfilesz ▸ hsize) (Or.inr ?_)
      exact Bool.eq_false_of_not_eq_true hnull

theorem filteredAreas {d d' : Dumper a} {files : Bytes → Option FileImage}
    (hphdr : d.phdr = d.maps.map fun vma => parserPhdr ELF_PAGE_SIZE vma {})
    (hmaps : ∀ vma ∈ d.maps, vma.Imaged a.cls) (h : specialCoreFilter d files = some d') :
    List.Forall₂ (FilteredArea d files) d.maps d'.phdr := by
  obtain ⟨flags, hflags, rfl⟩ := Option.map_eq_some_iff.mp h
  change List.Forall₂ _ d.maps (applyVmaFlags flags d.phdr)
  rw [hphdr]
  clear h hphdr
  generalize d.maps = maps at hmaps hflags
  induction maps generalizing flags with
  | nil =>
    obtain rfl := Option.some.inj hflags
    exact .nil
  | cons vma maps ih =>
    rw [List.mapM_cons] at hflags
    obtain ⟨vma_flag, hflag, hflags⟩ := Option.bind_eq_some_iff.mp hflags
    obtain ⟨rest, hrest, hflags⟩ := Option.bind_eq_some_iff.mp hflags
    obtain rfl := Option.some.inj hflags
    rw [List.map_cons, applyVmaFlags]
    exact .cons (filteredArea_of_flag (hmaps vma List.mem_cons_self) hflag)
      (ih rest (fun v hv => hmaps v (List.mem_cons_of_mem vma hv)) hrest)

variable {d : Dumper a} {files : Bytes → Option FileImage} {maps : List VirtualMemoryArea}
  {phdr : List (Phdr a.cls)}

theorem exists_hasByte (hareas : List.Forall₂ (FilteredArea d files) maps phdr)
    (hmaps : ∀ vma ∈ maps, vma.Imaged a.cls) {addr : ℕ} {b : UInt8} :
    (∃ e ∈ (phdr.map (writtenLoad mem)).map LoadSegment.extent, e.HasByte addr b) ↔
      ∃ vma ∈ maps, KeepsMemory d files vma ∧ vma.beginAddr.toNat ≤ addr ∧
        addr < vma.endAddr.toNat ∧ b = memoryByte mem addr := by
  induction hareas with
  | nil => exact iff_of_false (fun ⟨_, he, _⟩ => nomatch he) fun ⟨_, hv, _⟩ => nomatch hv
  | @cons vma ph maps phdr harea _ ih =>
    have hhead : (writtenLoad mem ph).extent.HasByte addr b ↔ _ :=
      hasByte_writtenLoad (hmaps vma List.mem_cons_self) harea.toAreaPhdr
    rw [harea.keeps] at hhead
    have htail := ih fun v hv => hmaps v (List.mem_cons_of_mem vma hv)
    simp only [List.map_cons, List.mem_cons, exists_eq_or_imp, hhead]
    exact or_congr_right htail

theorem separate_loads (hareas : List.Forall₂ (FilteredArea d files) maps phdr)
    (hmaps : ∀ vma ∈ maps, vma.Imaged a.cls) (hasc : Ascending maps) :
    Extent.Separate ((phdr.map (writtenLoad mem)).map LoadSegment.extent) := by
  have hstart {vma : VirtualMemoryArea} {ph : Phdr a.cls} (hvma : vma.Imaged a.cls)
      (h : FilteredArea d files vma ph) :
      (writtenLoad mem ph).extent.start = vma.beginAddr.toNat := by
    change ph.p_vaddr.toNat = _
    rw [h.vaddr, BitVec.toNat_setWidth, Nat.mod_eq_of_lt hvma.begin_lt]
  have hstop {vma : VirtualMemoryArea} {ph : Phdr a.cls} (hvma : vma.Imaged a.cls)
      (h : FilteredArea d files vma ph) :
      vma.beginAddr.toNat + (writtenLoad mem ph).extent.bytes.length ≤ vma.endAddr.toNat := by
    have hlen : (writtenLoad mem ph).extent.bytes.length = ph.p_filesz.toNat :=
      length_writtenLoad mem h.toLoadPhdr
    have hsize : vma.beginAddr.toNat + vma.size = vma.endAddr.toNat :=
      Nat.add_sub_cancel' hvma.nonempty.le
    rw [hlen]
    rcases h.kept with hzero | hfull
    · rw [hzero]
      simpa using hvma.nonempty.le
    · rw [hfull, h.memsz, hsize]
  induction hareas with
  | nil => exact List.Pairwise.nil
  | @cons vma ph maps phdr harea hareas ih =>
    obtain ⟨hfirst, hrest⟩ := List.pairwise_cons.mp hasc
    have hvma := hmaps vma List.mem_cons_self
    have hmaps' : ∀ v ∈ maps, v.Imaged a.cls := fun v hv => hmaps v (List.mem_cons_of_mem vma hv)
    refine List.pairwise_cons.mpr ⟨fun e he => Or.inl ?_, ih hmaps' hrest⟩
    obtain ⟨s, hs, rfl⟩ := List.mem_map.mp he
    obtain ⟨ph', hph', rfl⟩ := List.mem_map.mp hs
    obtain ⟨vma', hvma', harea'⟩ := exists_of_mem_right hareas hph'
    rw [hstart hvma harea, hstart (hmaps' vma' hvma') harea']
    exact (hstop hvma harea).trans (hfirst vma' hvma')

end Filtered

section Core

/-- The segments that a reader finds are those that the program headers describe. -/
theorem decodeLoads_placed {view : ProcessView a} {d : Dumper a} {fp : FILE} {mem : ProcMem}
    (h : Collected view d) (hz : d.note.p_filesz = 0) (hfit : NotesFit view) (hfp : fp.Appending)
    (hempty : fp.content = []) (hmem : view.mem = some mem) (hload : ∀ ph ∈ d.phdr, LoadPhdr ph)
    (htype : ∀ ph ∈ d.phdr, ph.p_type = PT_LOAD)
    (hphoff : d.ehdr.e_phoff = BitVec.ofNat a.cls.bits (sizeofEhdr a.cls))
    (hphnum : d.ehdr.e_phnum = BitVec.ofNat 16 (view.maps.length + 1))
    (htotal : coreSize view d.phdr < 2 ^ a.cls.bits) :
    decodeLoads a.cls (writeCore d view fp).2.content = some (d.phdr.map (writtenLoad mem)) := by
  have happ := appending_beforeLoads h hfit.loops hfp
  have hstart := length_beforeLoads_eq h hz hfit hfp hempty
  have hcontent : (writeCore d view fp).2.content =
      (beforeLoads d view fp).content ++ loadBytes mem ELF_PAGE_SIZE d.phdr := by
    rw [writeCore_eq h hfit.loops hfp hmem, writeSegments_eq happ, FILE.content_append, h.align,
      placed_phdr_eq h hz hfit, loadBytes_placeSegments]
  have hphdrs : readPhdrs a.cls (writeCore d view fp).2.content =
      some ((placed d).note :: (placed d).phdr) := by
    obtain ⟨loads, hbytes⟩ := writeCore_content h hfit.loops hfp hempty
    rw [hbytes]
    simp only [List.append_assoc]
    rw [readPhdrs_core h hphoff hphnum, Nat.mod_eq_of_lt hfit.phnum, List.take_of_length_le]
    rw [List.length_cons, h.placed.phnum]
  have hnote : ((placed d).note.p_type == PT_LOAD) = false := by
    rw [h.placed.note_type]
    rfl
  have hloads : (placed d).phdr.filter (fun ph => ph.p_type == PT_LOAD) = (placed d).phdr := by
    rw [List.filter_eq_self]
    intro ph hph
    obtain ⟨orig, horig, offset, rfl⟩ := mem_placeSegments hph
    exact beq_iff_eq.mpr (htype orig horig)
  have hmap := map_loadSegment mem hload (beforeLoads d view fp).content (by rwa [hstart])
  rw [decodeLoads, hphdrs, Option.map_some, readLoads,
    List.filter_cons_of_neg (by rw [hnote]; decide), hloads, hcontent,
    placed_phdr_eq h hz hfit, ← hstart, hmap]

/-- What the kernel grants of the areas, and the sizes that the words of a core hold. -/
structure Coverable (view : ProcessView a) : Prop where
  areas : ∀ vma ∈ view.maps, vma.Imaged a.cls
  ascending : Ascending view.maps
  phnum : view.maps.length + 1 ≤ 65535
  counters : a.cls = .elf64 → CountersFit view

/-- A core with its segments: they are separate, and have the bytes of the kept areas. -/
structure HasImage (d : Dumper a) (view : ProcessView a) (mem : ProcMem) (content : Bytes) :
    Prop where
  loads : ∃ loads, decodeLoads a.cls content = some loads ∧
    Extent.Separate (loads.map LoadSegment.extent) ∧
    ∀ addr b, (∃ e ∈ loads.map LoadSegment.extent, e.HasByte addr b) ↔
      ∃ vma ∈ view.maps, KeepsMemory d view.files vma ∧ vma.beginAddr.toNat ≤ addr ∧
        addr < vma.endAddr.toNat ∧ b = memoryByte mem addr

theorem HasImage.readMemory_iff {d : Dumper a} {view : ProcessView a} {mem : ProcMem}
    {content : Bytes} (h : HasImage d view mem content) {addr : ℕ} {b : UInt8} :
    readMemory a.cls content addr = some b ↔
      ∃ vma ∈ view.maps, KeepsMemory d view.files vma ∧ vma.beginAddr.toNat ≤ addr ∧
        addr < vma.endAddr.toNat ∧ b = memoryByte mem addr := by
  obtain ⟨loads, hdecode, hsep, hbytes⟩ := h.loads
  rw [readMemory, hdecode, Option.bind_some, Extent.readByte_iff hsep, hbytes]

variable {d d' : Dumper a} {fp : FILE} {view : ProcessView a} {mem : ProcMem}
  {plan : ℕ → WriteResult}

/-- The dump behind its filters, and the room that the words of the core leave. -/
theorem doCoredump_filtered (hd : d.Fresh) (hcover : Coverable view)
    (h32 : a.cls = .elf32 → coreSize view d'.phdr < 2 ^ 32) (hplan : ∀ n, plan n = .ok)
    (hrun : doCoredump d view plan = some (d', fp)) :
    ∃ d2 : Dumper a, Collected view d2 ∧ SameSettings d d2 ∧ d2.note.p_filesz = 0 ∧
      NotesFit view ∧ List.Forall₂ (FilteredArea d' view.files) view.maps d2.phdr ∧
      d2.ehdr.e_phoff = BitVec.ofNat a.cls.bits (sizeofEhdr a.cls) ∧
      d2.ehdr.e_phnum = BitVec.ofNat 16 (view.maps.length + 1) ∧
      coreSize view d2.phdr < 2 ^ a.cls.bits ∧ d' = placed d2 ∧
      writeCore d2 view (FILE.create plan) = (d', fp) := by
  have hphnum := hcover.phnum
  have hphnum' : view.maps.length + 1 < 2 ^ 16 := by omega
  have hstart : ∀ c, a.cls = c → loadStart view < 2 ^ c.bits := fun c hc => by
    cases c with
    | elf32 => exact (Nat.le_add_right _ _).trans_lt (h32 hc)
    | elf64 =>
      exact (loadStart_lt_of_counters hc (hcover.counters hc) hphnum').trans (by decide)
  have hfit : NotesFit view :=
    ⟨hphnum', hcover.counters, (le_loadStart view).trans_lt (hstart a.cls rfl)⟩
  obtain ⟨d1, hcollect, hcol, hset, hz, hphdr⟩ := collect_spec hd view hfit.tasks
  obtain ⟨hphoff, hcount⟩ := collect_ehdr hd hcollect
  rw [doCoredump_eq, hcollect, Option.bind_some] at hrun
  obtain ⟨d2, hfilter, hwrite⟩ := Option.map_eq_some_iff.mp hrun
  obtain ⟨flags, hflags⟩ := specialCoreFilter_flags hfilter
  have hcol2 : Collected view d2 := hflags ▸ hcol.filtered flags
  have hplaced : (writeCore d2 view (FILE.create plan)).1 = placed d2 := by
    rw [writeCore_loads, writeHeaders_eq hcol2 hfit.loops (FILE.appending_create hplan)]
  have hd' : d' = placed d2 := (congrArg Prod.fst hwrite).symm.trans hplaced
  have hareas : List.Forall₂ (FilteredArea d1 view.files) view.maps d2.phdr := by
    rw [← hcol.maps]
    exact filteredAreas (by rw [hphdr, hcol.maps]) (by rw [hcol.maps]; exact hcover.areas) hfilter
  have hkeeps : ∀ vma, KeepsMemory d' view.files vma ↔ KeepsMemory d1 view.files vma := by
    intro vma
    rw [hd', hflags]
    exact Iff.rfl
  have hload : ∀ ph ∈ d2.phdr, LoadPhdr ph := by
    intro ph hph
    obtain ⟨vma, -, harea⟩ := exists_of_mem_right hareas hph
    exact harea.toLoadPhdr
  have htotal : ∀ c, a.cls = c → coreSize view d2.phdr < 2 ^ c.bits := fun c hc => by
    cases c with
    | elf32 =>
      have hsize := h32 hc
      rwa [hd', coreSize, segmentsSize_placed] at hsize
    | elf64 =>
      have hsize := segmentsSize_le hload
      have hlen := hcol2.phnum
      have hlt := loadStart_lt_of_counters hc (hcover.counters hc) hphnum'
      calc loadStart view + segmentsSize d2.phdr < 2 ^ 40 + 2 ^ 16 * 2 ^ 43 := by omega
        _ < 2 ^ ElfClass.elf64.bits := by decide
  refine ⟨d2, hcol2, ?_, ?_, hfit, ?_, ?_, ?_, htotal a.cls rfl, hd', hwrite⟩
  · rw [hflags]
    exact ⟨hset.page_size, hset.ucontext_raw, hset.siginfo, hset.tid, hset.filter⟩
  · rw [hflags]
    exact hz
  · exact hareas.imp fun vma ph h => { h with keeps := h.keeps.trans (hkeeps vma).symm }
  · rw [hflags]
    exact hphoff
  · rw [hflags]
    exact hcount

theorem hasImage_doCoredump (hd : d.Fresh) (hcover : Coverable view) (hmem : view.mem = some mem)
    (h32 : a.cls = .elf32 → coreSize view d'.phdr < 2 ^ 32) (hplan : ∀ n, plan n = .ok)
    (hrun : doCoredump d view plan = some (d', fp)) : HasImage d' view mem fp.content := by
  obtain ⟨d2, hcol, -, hz, hfit, hareas, hphoff, hcount, htotal, -, hwrite⟩ :=
    doCoredump_filtered hd hcover h32 hplan hrun
  have hload : ∀ ph ∈ d2.phdr, LoadPhdr ph ∧ ph.p_type = PT_LOAD := by
    intro ph hph
    obtain ⟨vma, -, harea⟩ := exists_of_mem_right hareas hph
    exact ⟨harea.toLoadPhdr, harea.type⟩
  have hdecode := decodeLoads_placed hcol hz hfit (FILE.appending_create hplan) rfl hmem
    (fun ph hph => (hload ph hph).1) (fun ph hph => (hload ph hph).2) hphoff hcount htotal
  rw [hwrite] at hdecode
  refine ⟨_, hdecode, separate_loads hareas hcover.areas hcover.ascending, fun addr b => ?_⟩
  exact exists_hasByte hareas hcover.areas

end Core

/-- A reader of a core finds a byte exactly at the addresses of the areas that the filters have
kept, and it is the byte of the process there. On lp32 the file must stay below 4 GiB. -/
theorem core_memory_iff {d d' : Dumper a} {fp : FILE} {view : ProcessView a} {mem : ProcMem}
    {plan : ℕ → WriteResult} (hd : d.Fresh) (hcover : Coverable view) (hmem : view.mem = some mem)
    (h32 : a.cls = .elf32 → coreSize view d'.phdr < 2 ^ 32) (hplan : ∀ n, plan n = .ok)
    (hrun : doCoredump d view plan = some (d', fp)) (addr : ℕ) (b : UInt8) :
    readMemory a.cls fp.content addr = some b ↔
      ∃ vma ∈ view.maps, KeepsMemory d' view.files vma ∧ vma.beginAddr.toNat ≤ addr ∧
        addr < vma.endAddr.toNat ∧ b = memoryByte mem addr :=
  (hasImage_doCoredump hd hcover hmem h32 hplan hrun).readMemory_iff

theorem onePageProcess_coverable (a : Arch) (tasks : List Tid)
    (hcounters : a.cls = .elf64 → CountersFit (onePageProcess a tasks)) :
    Coverable (onePageProcess a tasks) where
  areas := by
    intro vma hvma
    obtain ⟨hmapped, -⟩ := onePageProcess_mapped a tasks vma hvma
    obtain rfl := List.mem_singleton.mp hvma
    exact { hmapped with size_le := fun _ => by decide, end_lt := fun _ => by decide }
  ascending := List.pairwise_singleton _ _
  phnum := by
    change 1 + 1 ≤ 65535
    decide
  counters := hcounters

theorem keeps_unfiltered {d : Dumper a} (h : d.filter = FILTER_NONE)
    (files : Bytes → Option FileImage) (vma : VirtualMemoryArea) : KeepsMemory d files vma := by
  have hbit : ∀ bit, has d.filter bit = false := fun bit => by rw [h, has_none]
  refine ⟨VMA_NORMAL, ?_, Or.inr (by decide)⟩
  simp [vmaFlag, isFilterSegment, isSpecialFilterSegment, hbit, VMA_NORMAL]

theorem memoryByte_unreadable {mem : ProcMem} (h : ∀ addr n, mem.pread64 addr n = none)
    (addr : ℕ) : memoryByte mem addr = 0 := by
  have hpage : ∀ page, pageAt mem page = zeros 4096 := fun page => by rw [pageAt, h]
  rw [memoryByte, hpage, zeros, List.getD_eq_getElem?_getD, List.getElem?_replicate]
  split_ifs <;> rfl

/-- The page of a process without threads reads as zeros, since none of it can be read. -/
theorem core_memory_page : ∃ d' fp,
    doCoredump (Dumper.new .arm64 4096) (onePageProcess .arm64 []) (fun _ => .ok) =
      some (d', fp) ∧ readMemory .elf64 fp.content 0x1234 = some 0 := by
  obtain ⟨d', fp, hrun⟩ : ∃ d' fp, doCoredump (Dumper.new .arm64 4096)
      (onePageProcess .arm64 []) (fun _ => .ok) = some (d', fp) := by
    obtain ⟨d1, -, -, -, -, -, hrun⟩ := doCoredump_unfiltered (fresh_new .arm64 4096) rfl
      (onePageProcess .arm64 []) (by decide) fun _ => .ok
    exact ⟨_, _, hrun⟩
  have hcover : Coverable (onePageProcess .arm64 []) :=
    onePageProcess_coverable .arm64 [] fun _ => ⟨by decide, by decide, by decide⟩
  obtain ⟨d2, -, hset, -, -, -, -, -, -, hd', -⟩ :=
    doCoredump_filtered (fresh_new .arm64 4096) hcover nofun (fun _ => rfl) hrun
  have hfilter : d'.filter = FILTER_NONE := by
    rw [hd']
    exact hset.filter
  have hkeeps := keeps_unfiltered hfilter (onePageProcess .arm64 []).files
    (anonymousVma 0x1000 0x2000)
  refine ⟨d', fp, hrun, (core_memory_iff (fresh_new .arm64 4096) hcover rfl nofun (fun _ => rfl)
    hrun 0x1234 0).mpr ⟨_, List.mem_singleton_self _, hkeeps, by decide, by decide, ?_⟩⟩
  exact (memoryByte_unreadable (fun _ _ => rfl) 0x1234).symm

end Opencore
