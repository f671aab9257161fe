import Opencore.Dumper.CoreReader

/-! The writers of the two classes: the core that lp32 and the core that lp64 write for one
process decode to the same segments and mappings. -/
namespace Opencore
open Machine Elf

variable {a : Arch}

def mapsSize (maps : List VirtualMemoryArea) : ℕ := (maps.map VirtualMemoryArea.size).sum

theorem segmentsSize_filtered (c : ElfClass) (filter : BitVec 32) {maps : List VirtualMemoryArea}
    (hmaps : ∀ vma ∈ maps, vma.Below4G) :
    segmentsSize (maps.map (filteredPhdr c filter)) ≤ mapsSize maps := by
  unfold segmentsSize mapsSize
  rw [List.map_map]
  apply List.sum_le_sum
  intro vma hvma
  have hfilesz := congrArg LoadSegment.filesz
    (writtenLoad_below (c := c) (markedMem 0) (hmaps vma hvma) filter)
  change (filteredPhdr c filter vma).p_filesz.toNat = ite _ _ _ at hfilesz
  rw [Function.comp_apply, hfilesz]
  split_ifs
  · exact Nat.zero_le _
  · exact le_rfl

/-- Every name ends in a NUL. -/
theorem length_le_count (maps : List VirtualMemoryArea) :
    maps.length ≤ (nameStrings maps).count 0 := by
  have hnames : maps.length ≤ (maps.flatMap fun vma => vma.file ++ [0]).count 0 := by
    induction maps with
    | nil => exact Nat.zero_le _
    | cons vma maps ih =>
      rw [List.flatMap_cons, List.count_append, List.count_append, List.count_singleton_self,
        List.length_cons]
      omega
  rw [nameStrings, List.count_append]
  exact hnames.trans (Nat.le_add_right _ _)

theorem decode_doCoredump {d d' : Dumper a} {fp : FILE} (hd : d.Fresh)
    (hfile : has d.filter FILTER_FILE_VMA = false) (hmini : has d.filter FILTER_MINIDUMP = false)
    {view : ProcessView a} {mem : ProcMem} (hmem : view.mem = some mem)
    (hmaps : ∀ vma ∈ view.maps, vma.Below4G) (hphnum : view.maps.length + 1 ≤ 65535)
    (h64 : a.cls = .elf64 → CountersFit view) (hsize : loadStart view + mapsSize view.maps < 2 ^ 32)
    {plan : ℕ → WriteResult} (hplan : ∀ n, plan n = .ok)
    (hrun : doCoredump d view plan = some (d', fp)) {names : List Bytes} {rest : Bytes}
    (hnames : takeMany takeString view.maps.length (nameStrings view.maps) = some (names, rest)) :
    decodeLoads a.cls fp.content = some (view.maps.map (loadOf d.filter mem)) ∧
      decodeFiles a.cls fp.content = some (filesOf view.maps names) := by
  have hwidth : 2 ^ 32 ≤ 2 ^ a.cls.bits := Nat.pow_le_pow_right (by norm_num) a.cls.bits_ge
  have hnotes := le_loadStart view
  have hfit : NotesFit view := ⟨by omega, h64, by omega⟩
  have hauxv : sizeofAuxv a.cls * view.auxv.length < 2 ^ 32 := by
    unfold notesSize namelessSize at hnotes
    omega
  obtain ⟨d1, hcollect, hcol, hset, hz, hphdr⟩ := collect_spec hd view hfit.tasks
  obtain ⟨hphoff, hcount⟩ := collect_ehdr hd hcollect
  have hfilter := specialCoreFilter_filtered (d := d1) (hset.filter ▸ hfile)
    (hset.filter ▸ hmini) (by rw [hphdr, hcol.maps]) view.files
  rw [doCoredump_eq, hcollect, Option.bind_some, hfilter, Option.map_some] at hrun
  let d2 : Dumper a := { d1 with phdr := d1.maps.map (filteredPhdr a.cls d1.filter) }
  have hphdr2 : d2.phdr = view.maps.map (filteredPhdr a.cls d.filter) := by
    change d1.maps.map (filteredPhdr a.cls d1.filter) = _
    rw [hset.filter, hcol.maps]
  have hcol2 : Collected view d2 :=
    { hcol with phnum := (congrArg List.length hphdr2).trans (List.length_map _) }
  have hsegments := segmentsSize_filtered a.cls d.filter hmaps
  have htotal : coreSize view d2.phdr < 2 ^ a.cls.bits := by
    rw [coreSize, hphdr2]
    omega
  have hdecode := decode_writeCore hcol2 hz hfit hauxv (FILE.appending_create hplan) rfl hmaps hmem
    hphdr2 hphoff hcount htotal hnames
  rwa [Option.some.inj hrun] at hdecode

/-- One process, as a dumper of either class sees it: the same areas below 4 GiB and the same
memory, small enough for the file offsets of lp32. -/
structure SameProcess {a32 a64 : Arch} (view32 : ProcessView a32) (view64 : ProcessView a64) :
    Prop where
  maps : view32.maps = view64.maps
  mem : view32.mem = view64.mem
  below : ∀ vma ∈ view64.maps, vma.Below4G
  size32 : loadStart view32 + mapsSize view32.maps < 2 ^ 32
  size64 : loadStart view64 + mapsSize view64.maps < 2 ^ 32

/-- A core of lp32 and a core of lp64 decode alike: the segments with the bytes at their
offsets, and the mappings. On lp64 the `int` counters must hold what they count. -/
theorem writers_agree {a32 a64 : Arch} (hc32 : a32.cls = .elf32) (hc64 : a64.cls = .elf64)
    {d32 d32' : Dumper a32} {d64 d64' : Dumper a64} (hd32 : d32.Fresh) (hd64 : d64.Fresh)
    (hfilter : d32.filter = d64.filter) (hfile : has d64.filter FILTER_FILE_VMA = false)
    (hmini : has d64.filter FILTER_MINIDUMP = false) {view32 : ProcessView a32}
    {view64 : ProcessView a64} (hsame : SameProcess view32 view64) {mem : ProcMem}
    (hmem : view64.mem = some mem) (hphnum : view64.maps.length + 1 ≤ 65535)
    (hcounters : CountersFit view64) {plan32 plan64 : ℕ → WriteResult}
    (hplan32 : ∀ n, plan32 n = .ok) (hplan64 : ∀ n, plan64 n = .ok) {core32 core64 : FILE}
    (hrun32 : doCoredump d32 view32 plan32 = some (d32', core32))
    (hrun64 : doCoredump d64 view64 plan64 = some (d64', core64)) :
    (∃ loads, decodeLoads .elf32 core32.content = some loads ∧
      decodeLoads .elf64 core64.content = some loads) ∧
    ∃ files, decodeFiles .elf32 core32.content = some files ∧
      decodeFiles .elf64 core64.content = some files := by
  obtain ⟨hmaps, hmems, hbelow, hsize32, hsize64⟩ := hsame
  obtain ⟨names, rest, hnames⟩ := takeMany_takeString (length_le_count view64.maps)
  obtain ⟨hloads32, hfiles32⟩ := decode_doCoredump hd32 (hfilter ▸ hfile) (hfilter ▸ hmini)
    (hmems.trans hmem) (hmaps ▸ hbelow) (hmaps ▸ hphnum)
    (fun hc => absurd (hc32.symm.trans hc) (by decide)) hsize32 hplan32 hrun32 (hmaps ▸ hnames)
  obtain ⟨hloads64, hfiles64⟩ := decode_doCoredump hd64 hfile hmini hmem hbelow hphnum
    (fun _ => hcounters) hsize64 hplan64 hrun64 hnames
  rw [hc32, hmaps] at hloads32 hfiles32
  rw [hc64] at hloads64 hfiles64
  exact ⟨⟨_, hfilter ▸ hloads32, hloads64⟩, _, hfiles32, hfiles64⟩

theorem onePageProcess_below (a : Arch) (tasks : List Tid) :
    ∀ vma ∈ (onePageProcess a tasks).maps, vma.Below4G := by
  intro vma hvma
  obtain ⟨hmapped, -⟩ := onePageProcess_mapped a tasks vma hvma
  obtain rfl := List.mem_singleton.mp hvma
  exact { hmapped with end_lt := by decide }

theorem writers_agree_one : ∃ d32 core32 d64 core64,
    doCoredump (Dumper.new .arm 4096) (onePageProcess .arm [⟨1, by decide⟩]) (fun _ => .ok) =
      some (d32, core32) ∧
    doCoredump (Dumper.new .arm64 4096) (onePageProcess .arm64 [⟨1, by decide⟩]) (fun _ => .ok) =
      some (d64, core64) ∧
    ∃ loads, decodeLoads .elf32 core32.content = some loads ∧
      decodeLoads .elf64 core64.content = some loads := by
  obtain ⟨d32, -, -, -, -, -, hrun32⟩ := doCoredump_unfiltered (fresh_new .arm 4096) rfl
    (onePageProcess .arm [⟨1, by decide⟩]) (by decide) fun _ => .ok
  obtain ⟨d64, -, -, -, -, -, hrun64⟩ := doCoredump_unfiltered (fresh_new .arm64 4096) rfl
    (onePageProcess .arm64 [⟨1, by decide⟩]) (by decide) fun _ => .ok
  obtain ⟨hloads, -⟩ := writers_agree rfl rfl (fresh_new .arm 4096) (fresh_new .arm64 4096) rfl rfl
    rfl ⟨rfl, rfl, onePageProcess_below .arm64 _, by decide, by decide⟩ rfl (by decide)
    ⟨by decide, by decide, by decide⟩ (fun _ => rfl) (fun _ => rfl) hrun32 hrun64
  exact ⟨_, _, _, _, hrun32, hrun64, hloads⟩

section Disagree

/-- An unfiltered dump, and the segments that a reader finds in it. -/
theorem decodeLoads_unfiltered {d : Dumper a} (hd : d.Fresh) (hfilter : d.filter = FILTER_NONE)
    {view : ProcessView a} (hloops : LoopsFit view) {n : ℕ}
    (hcount : (view.maps.length + 1) % 2 ^ 16 = n + 1) :
    ∃ d1, Collected view d1 ∧ d1.note.p_filesz = 0 ∧
      d1.phdr = (view.maps.map fun vma => parserPhdr ELF_PAGE_SIZE vma {}) ∧
      doCoredump d view (fun _ => .ok) = some (writeCore d1 view (FILE.create fun _ => .ok)) ∧
      decodeLoads a.cls (writeCore d1 view (FILE.create fun _ => .ok)).2.content =
        some (((placed d1).phdr.take n).map
          (loadSegment (writeCore d1 view (FILE.create fun _ => .ok)).2.content)) := by
  obtain ⟨d1, hcollect, hcol, hz, hphdr, -, hrun⟩ :=
    doCoredump_unfiltered hd hfilter view hloops.tasks fun _ => .ok
  obtain ⟨hphoff, hphnum⟩ := collect_ehdr hd hcollect
  have hfiltered : d1.phdr = view.maps.map (filteredPhdr a.cls FILTER_NONE) := by
    rw [hphdr, filteredPhdr_none]
  exact ⟨d1, hcol, hz, hphdr, hrun, decodeLoads_writeCore hcol hloops
    (FILE.appending_create fun _ => rfl) rfl hfiltered hphoff hphnum hcount⟩

/-- The core of arm64 with as many threads as make `extra_note_filesz` negative: nothing is
found at the offset of the segment. -/
theorem decodeLoads_crowded64 : ∃ d64 core64 load,
    doCoredump (Dumper.new .arm64 4096) crowdedProcess (fun _ => .ok) = some (d64, core64) ∧
      decodeLoads .elf64 core64.content = some [load] ∧ load.bytes = [] := by
  have hmaps : crowdedProcess.maps.length = 1 := rfl
  have hfp : (FILE.create fun _ => .ok).Appending := FILE.appending_create fun _ => rfl
  obtain ⟨d, hcol, hz, hphdr, hrun, hdecode⟩ := decodeLoads_unfiltered (n := 1)
    (fresh_new .arm64 4096) rfl crowdedProcess_loops (by omega)
  obtain ⟨hpad, ph, hplaced, hstart, -⟩ := crowdedProcess_placed hcol hz hphdr
  rw [hplaced] at hdecode
  refine ⟨_, _, _, hrun, hdecode, ?_⟩
  have hload : ∀ ph ∈ d.phdr, LoadPhdr ph := by
    intro ph hph
    rw [hphdr] at hph
    obtain ⟨vma, hvma, rfl⟩ := List.mem_map.mp hph
    obtain ⟨hmapped, hshort⟩ := onePageProcess_mapped .arm64 _ vma hvma
    exact parserPhdr_load _ hmapped hshort
  have hbefore := length_beforeLoads hcol crowdedProcess_loops hfp rfl
  have hheaders : headersSize Arch.arm64.cls 1 = 176 := rfl
  have hnames : namesSize crowdedProcess.maps = 1 := rfl
  have hsegments := segmentsSize_le (load_placed hload)
  have hend : (writeCore d crowdedProcess (FILE.create fun _ => .ok)).2.content.length ≤
      ph.p_offset.toNat := by
    rw [writeCore_eq hcol crowdedProcess_loops hfp rfl,
      writeSegments_eq (appending_beforeLoads hcol crowdedProcess_loops hfp), FILE.content_append,
      List.length_append, hbefore, hcol.align, length_loadBytes _ (load_placed hload), hpad, hmaps,
      writtenSize, hnames, crowdedProcess_nameless, hheaders, hstart]
    rw [hplaced] at hsegments ⊢
    simp only [List.length_cons, List.length_nil] at hsegments
    omega
  rw [loadSegment, slice, List.drop_of_length_le hend, List.take_nil]

def pagesProcess (a : Arch) (n : ℕ) : ProcessView a :=
  { onePageProcess a [] with
    maps := (List.range n).map fun i =>
      anonymousVma (BitVec.ofNat 64 (4096 * (i + 1))) (BitVec.ofNat 64 (4096 * (i + 2))) }

variable {n : ℕ}

theorem pagesProcess_length (a : Arch) (n : ℕ) : (pagesProcess a n).maps.length = n := by
  simp only [pagesProcess, List.length_map, List.length_range]

theorem pagesProcess_names (a : Arch) (n : ℕ) : namesSize (pagesProcess a n).maps = n := by
  simp only [namesSize, pagesProcess, anonymousVma, List.map_map, Function.comp_def,
    List.length_nil, List.map_const', List.length_range, List.sum_replicate, smul_eq_mul]
  ring

theorem pagesProcess_vma (a : Arch) (hn : n < 2 ^ 19) : ∀ vma ∈ (pagesProcess a n).maps,
    vma.Below4G ∧ vma.size = 4096 := by
  intro vma hvma
  obtain ⟨i, hi, rfl⟩ := List.mem_map.mp hvma
  have hi' := List.mem_range.mp hi
  have hbegin : (anonymousVma (BitVec.ofNat 64 (4096 * (i + 1)))
      (BitVec.ofNat 64 (4096 * (i + 2)))).beginAddr.toNat = 4096 * (i + 1) :=
    toNat_ofNat_of_lt (by omega)
  have hend : (anonymousVma (BitVec.ofNat 64 (4096 * (i + 1)))
      (BitVec.ofNat 64 (4096 * (i + 2)))).endAddr.toNat = 4096 * (i + 2) :=
    toNat_ofNat_of_lt (by omega)
  refine ⟨⟨⟨?_, ?_, ?_⟩, ?_⟩, ?_⟩
  · rw [hbegin]
    exact Nat.dvd_mul_right _ _
  · rw [hend]
    exact Nat.dvd_mul_right _ _
  · omega
  · omega
  · rw [VirtualMemoryArea.size, hbegin, hend]
    omega

theorem pagesProcess_size (a : Arch) (hn : n < 2 ^ 19) :
    mapsSize (pagesProcess a n).maps = n * 4096 := by
  have hsizes : (pagesProcess a n).maps.map VirtualMemoryArea.size =
      (pagesProcess a n).maps.map fun _ => 4096 :=
    List.map_congr_left fun vma hvma => (pagesProcess_vma a hn vma hvma).2
  rw [mapsSize, hsizes, List.map_const', pagesProcess_length, List.sum_replicate, smul_eq_mul]

theorem placeSegments_getElem? {c : ElfClass} (start : ℕ) {size : ℕ} {phdr : List (Phdr c)}
    (hsize : ∀ ph ∈ phdr, ph.p_filesz.toNat = size) {k : ℕ} {ph : Phdr c}
    (hph : phdr[k]? = some ph) :
    (placeSegments (BitVec.ofNat c.bits start) phdr)[k]? =
      some { ph with p_offset := BitVec.ofNat c.bits (start + k * size) } := by
  induction phdr generalizing start k with
  | nil => cases hph
  | cons p phdr ih =>
    have hnext : BitVec.ofNat c.bits start + p.p_filesz = BitVec.ofNat c.bits (start + size) := by
      rw [← hsize p List.mem_cons_self, BitVec.ofNat_add, BitVec.ofNat_toNat, BitVec.setWidth_eq]
    rw [placeSegments, hnext]
    cases k with
    | zero =>
      obtain rfl := Option.some.inj hph
      rw [Nat.zero_mul, Nat.add_zero]
      rfl
    | succ k =>
      have hrest := ih (start + size) (fun q hq => hsize q (List.mem_cons_of_mem p hq)) hph
      rw [List.getElem?_cons_succ, hrest, Nat.succ_mul, Nat.add_assoc, Nat.add_comm size]

theorem content_phdr {d : Dumper a} {rest : Bytes} {k r : ℕ} {ph : Phdr a.cls}
    (hph : (placed d).phdr[k]? = some ph) (hr : r < sizeofPhdr a.cls) :
    (headerBytes d ++ rest)[sizeofEhdr a.cls + sizeofPhdr a.cls + (k * sizeofPhdr a.cls + r)]? =
      ph.bytes[r]? := by
  obtain ⟨hk, rfl⟩ := List.getElem?_eq_some_iff.mp hph
  have hblock := slice_flatMap Phdr.bytes (sizeofPhdr a.cls) (placed d).phdr (by simp) hk
  have htable := length_flatMap_const Phdr.bytes (sizeofPhdr a.cls) (placed d).phdr (by simp)
  have hfront : (d.ehdr.bytes ++ (placed d).note.bytes).length =
      sizeofEhdr a.cls + sizeofPhdr a.cls := by
    rw [List.length_append, length_ehdrBytes, length_phdrBytes]
  have hmul : (k + 1) * sizeofPhdr a.cls ≤ (placed d).phdr.length * sizeofPhdr a.cls :=
    Nat.mul_le_mul_right _ hk
  rw [Nat.succ_mul] at hmul
  rw [headerBytes, List.append_assoc, List.getElem?_append_right (by omega), hfront,
    Nat.add_sub_cancel_left, List.getElem?_append_left (by omega), ← hblock, slice,
    List.getElem?_take_of_lt hr, List.getElem?_drop]

theorem loadSegment_byte {c : ElfClass} (content : Bytes) {ph : Phdr c} {start k : ℕ}
    (hstart : ph.p_offset.toNat = start) (hk : k < ph.p_filesz.toNat) :
    (loadSegment content ph).bytes[k]? = content[start + k]? := by
  rw [loadSegment, slice, List.getElem?_take_of_lt hk, List.getElem?_drop, hstart]

theorem pagesProcess_loops (a : Arch) (hn : n < 2 ^ 19) : LoopsFit (pagesProcess a n) := by
  have hmaps := pagesProcess_length a n
  exact ⟨by omega, Nat.two_pow_pos 31, Nat.two_pow_pos 31⟩

/-- Where the first of 65537 segments is placed: the 16-bit count takes them for one. -/
def wrappedStart (c : ElfClass) : ℕ :=
  alignUp (sizeofEhdr c + 2 * sizeofPhdr c + (countedSize c 0 0 65537 + 65540)) 4096

theorem pagesProcess_counters (a : Arch) : CountersFit (pagesProcess a 65537) := by
  have hslots : slotsSize a (pagesProcess a 65537).tasks.length = 0 := rfl
  have hauxv : (pagesProcess a 65537).auxv.length = 0 := rfl
  exact ⟨by rw [hslots]; norm_num, by rw [pagesProcess_names]; decide, by omega⟩

theorem pagesProcess_placed {d : Dumper a} (h : Collected (pagesProcess a 65537) d)
    (hz : d.note.p_filesz = 0)
    (hphdr : d.phdr = (pagesProcess a 65537).maps.map fun vma => parserPhdr ELF_PAGE_SIZE vma {})
    {k : ℕ} (hk : k < 65537) :
    ∃ ph, (placed d).phdr[k]? = some ph ∧ ph.p_filesz.toNat = 4096 ∧ ph.p_paddr = 0 ∧
      ph.p_offset = BitVec.ofNat a.cls.bits (wrappedStart a.cls + k * 4096) := by
  have hmaps := pagesProcess_length a 65537
  have hnames := pagesProcess_names a 65537
  have hslots : slotsSize a (pagesProcess a 65537).tasks.length = 0 := rfl
  have hauxv : (pagesProcess a 65537).auxv.length = 0 := rfl
  have hsz := (h.counters fun _ => pagesProcess_counters a).noteFilesz_eq hz
  have hpad : alignUp 65537 4 = 65540 := by decide
  rw [hslots, hauxv, hnames, h.phnum, hmaps, hpad] at hsz
  have hoffset : d.note.p_offset =
      BitVec.ofNat a.cls.bits (sizeofEhdr a.cls + 2 * sizeofPhdr a.cls) := by
    have hcount : (65537 + 1) % 2 ^ 16 = 2 := by norm_num
    rw [h.note_offset, hmaps, hcount]
  have hstart : RoundUp (d.note.p_offset + noteFilesz d) (d.align_size.setWidth a.cls.bits) =
      BitVec.ofNat a.cls.bits (wrappedStart a.cls) := by
    rw [hsz, hoffset, alignSize_eq h.align, ← BitVec.ofNat_add,
      RoundUp_ofNat (by have := a.cls.bits_ge; omega)]
    rfl
  have hsizes : ∀ ph ∈ d.phdr, ph.p_filesz.toNat = 4096 := by
    intro ph hph
    rw [hphdr] at hph
    obtain ⟨vma, hvma, rfl⟩ := List.mem_map.mp hph
    obtain ⟨hbelow, hsize⟩ := pagesProcess_vma a (by norm_num) vma hvma
    exact hbelow.memsz.trans hsize
  obtain ⟨ph, hph⟩ : ∃ ph, d.phdr[k]? = some ph :=
    ⟨_, List.getElem?_eq_getElem (by rw [h.phnum, hmaps]; exact hk)⟩
  have hmem := List.mem_of_getElem? hph
  refine ⟨{ ph with p_offset := BitVec.ofNat a.cls.bits (wrappedStart a.cls + k * 4096) },
    ?_, hsizes ph hmem, ?_, rfl⟩
  · rw [placed, hstart]
    exact placeSegments_getElem? _ hsizes hph
  · rw [hphdr] at hmem
    obtain ⟨vma, -, rfl⟩ := List.mem_map.mp hmem
    rfl

/-- The first segment that a reader finds, and the program headers in the file. -/
theorem decodeLoads_pages (a : Arch) : ∃ d core load,
    doCoredump (Dumper.new a 4096) (pagesProcess a 65537) (fun _ => .ok) = some (d, core) ∧
      decodeLoads a.cls core.content = some [load] ∧
      load.bytes[1]? = core.content[wrappedStart a.cls % 2 ^ a.cls.bits + 1]? ∧
      ∀ k < 65537, ∃ ph : Phdr a.cls, ph.p_paddr = 0 ∧
        ph.p_offset = BitVec.ofNat a.cls.bits (wrappedStart a.cls + k * 4096) ∧
        ∀ r < sizeofPhdr a.cls, core.content[sizeofEhdr a.cls + sizeofPhdr a.cls +
          (k * sizeofPhdr a.cls + r)]? = ph.bytes[r]? := by
  have hloops := pagesProcess_loops a (n := 65537) (by norm_num)
  obtain ⟨d, hcol, hz, hphdr, hrun, hdecode⟩ := decodeLoads_unfiltered (n := 1)
    (fresh_new a 4096) rfl hloops (by rw [pagesProcess_length]; norm_num)
  have hfp : (FILE.create fun _ => .ok).Appending := FILE.appending_create fun _ => rfl
  obtain ⟨loads, hcontent⟩ := writeCore_content hcol hloops hfp rfl
  simp only [List.append_assoc] at hcontent
  generalize writeCore d (pagesProcess a 65537) (FILE.create fun _ => .ok) = written at *
  obtain ⟨d', core⟩ := written
  obtain ⟨first, hfirst, hfilesz, -, hoffset⟩ := pagesProcess_placed hcol hz hphdr (k := 0)
    (by norm_num)
  have htake : (placed d).phdr.take 1 = [first] := by
    rw [List.take_one, List.head?_eq_getElem?, hfirst]
    rfl
  rw [htake] at hdecode
  refine ⟨d', core, _, hrun, hdecode, ?_, fun k hk => ?_⟩
  · have hstart : first.p_offset.toNat = wrappedStart a.cls % 2 ^ a.cls.bits := by
      rw [hoffset, BitVec.toNat_ofNat, Nat.zero_mul, Nat.add_zero]
    exact loadSegment_byte _ hstart (by omega)
  · obtain ⟨ph, hph, -, hpaddr, hplaced⟩ := pagesProcess_placed hcol hz hphdr hk
    refine ⟨ph, hpaddr, hplaced, fun r hr => ?_⟩
    dsimp only at hcontent
    rw [hcontent]
    exact content_phdr hph hr

/-- Unfiltered dumps of the two classes in which a reader finds different segments. -/
def WritersDisagree (view32 : ProcessView .arm) (view64 : ProcessView .arm64) : Prop :=
  ∃ d32 core32 d64 core64,
    doCoredump (Dumper.new .arm 4096) view32 (fun _ => .ok) = some (d32, core32) ∧
    doCoredump (Dumper.new .arm64 4096) view64 (fun _ => .ok) = some (d64, core64) ∧
    decodeLoads .elf32 core32.content ≠ decodeLoads .elf64 core64.content

theorem loadStart_lt (view : ProcessView a) :
    loadStart view < headersSize a.cls view.maps.length + writtenSize view + 4096 :=
  alignUp_lt (by norm_num)

theorem onePageProcess_size {tasks : List Tid} (htasks : tasks.length = 1973790) :
    loadStart (onePageProcess .arm tasks) + mapsSize (onePageProcess .arm tasks).maps < 2 ^ 32 := by
  have hlt := loadStart_lt (onePageProcess .arm tasks)
  have hlen : (onePageProcess .arm tasks).tasks.length = 1973790 := htasks
  have hauxv : (onePageProcess .arm tasks).auxv.length = 0 := rfl
  have hmaps : (onePageProcess .arm tasks).maps.length = 1 := rfl
  have hnames : namesSize (onePageProcess .arm tasks).maps = 1 := rfl
  have hsize : mapsSize (onePageProcess .arm tasks).maps = 4096 := rfl
  have hheaders : headersSize Arch.arm.cls 1 = 116 := rfl
  rw [writtenSize, namelessSize, hlen, hauxv, hmaps, hnames, hheaders, slotsSize,
    if_neg (by norm_num)] at hlt
  simp only [slotSize, Arch.cls, sizeofFile, ElfClass.bits] at hlt
  omega

theorem crowded_same :
    SameProcess (onePageProcess .arm crowdedProcess.tasks) crowdedProcess where
  maps := rfl
  mem := rfl
  below := onePageProcess_below .arm64 _
  size32 := onePageProcess_size crowdedProcess_tasks
  size64 := by
    have hlt := loadStart_lt crowdedProcess
    have hmaps : crowdedProcess.maps.length = 1 := rfl
    have hnames : namesSize crowdedProcess.maps = 1 := rfl
    have hsize : mapsSize crowdedProcess.maps = 4096 := rfl
    have hheaders : headersSize Arch.arm64.cls 1 = 176 := rfl
    rw [writtenSize, crowdedProcess_nameless, hmaps, hnames, hheaders] at hlt
    omega

theorem decodeLoads_onePage32 {tasks : List Tid} (htasks : tasks.length = 1973790) :
    ∃ d32 core32 load,
      doCoredump (Dumper.new .arm 4096) (onePageProcess .arm tasks) (fun _ => .ok) =
        some (d32, core32) ∧
      decodeLoads .elf32 core32.content = some [load] ∧ load.bytes.length = 4096 := by
  have hlen : (onePageProcess .arm tasks).tasks.length = 1973790 := htasks
  obtain ⟨d32, -, -, -, -, -, hrun⟩ := doCoredump_unfiltered (fresh_new .arm 4096) rfl
    (onePageProcess .arm tasks) (by omega) fun _ => .ok
  obtain ⟨names, rest, hnames⟩ :=
    takeMany_takeString (length_le_count (onePageProcess .arm tasks).maps)
  obtain ⟨hloads, -⟩ := decode_doCoredump (fresh_new .arm 4096) rfl rfl rfl
    (onePageProcess_below .arm tasks) (by norm_num [onePageProcess])
    (fun hc => absurd hc (by decide)) (onePageProcess_size htasks) (fun _ => rfl) hrun hnames
  refine ⟨_, _, _, hrun, hloads, ?_⟩
  exact length_flatMap_const _ 4096 (List.range 1) fun k _ => length_pageAt _ _

theorem pages_size (a : Arch) :
    loadStart (pagesProcess a 65537) + mapsSize (pagesProcess a 65537).maps < 2 ^ 32 := by
  have hlt := loadStart_lt (pagesProcess a 65537)
  have hsize := pagesProcess_size a (show 65537 < 2 ^ 19 by norm_num)
  have hslots : slotsSize a (pagesProcess a 65537).tasks.length = 0 := rfl
  have hauxv : (pagesProcess a 65537).auxv.length = 0 := rfl
  have hsizes : sizeofEhdr a.cls ≤ 64 ∧ sizeofPhdr a.cls ≤ 56 ∧ sizeofFile a.cls ≤ 24 ∧
      a.cls.bits / 8 ≤ 8 := by cases a <;> decide
  rw [writtenSize, namelessSize, hslots, hauxv, pagesProcess_length, pagesProcess_names,
    headersSize] at hlt
  omega

theorem pages_same : SameProcess (pagesProcess .arm 65537) (pagesProcess .arm64 65537) where
  maps := rfl
  mem := rfl
  below := fun vma hvma => (pagesProcess_vma .arm64 (by norm_num) vma hvma).1
  size32 := pages_size .arm
  size64 := pages_size .arm64

theorem crowded_disagree :
    WritersDisagree (onePageProcess .arm crowdedProcess.tasks) crowdedProcess := by
  obtain ⟨d32, core32, load32, hrun32, hloads32, hlen⟩ :=
    decodeLoads_onePage32 crowdedProcess_tasks
  obtain ⟨d64, core64, load64, hrun64, hloads64, hbytes⟩ := decodeLoads_crowded64
  refine ⟨d32, core32, d64, core64, hrun32, hrun64, fun heq => ?_⟩
  rw [hloads32, hloads64] at heq
  obtain rfl := (List.cons.inj (Option.some.inj heq)).1
  rw [hbytes] at hlen
  exact absurd hlen (by decide)

/-- Byte 13 of a program header of lp32 belongs to `p_paddr`. -/
theorem phdrBytes_paddr {ph : Phdr .elf32} (h : ph.p_paddr = 0) : ph.bytes[13]? = some 0 := by
  have hfront : (wordBytes ph.p_type ++ wordBytes ph.p_offset ++ wordBytes ph.p_vaddr).length =
      12 := by
    simp only [List.length_append, length_wordBytes]
    rfl
  simp only [Phdr.bytes, List.append_assoc]
  rw [← List.append_assoc, ← List.append_assoc, List.getElem?_append_right (by omega), hfront,
    List.getElem?_append_left (by rw [length_wordBytes]; decide), h]
  rfl

/-- Byte 9 of a program header of lp64 belongs to `p_offset`. -/
theorem phdrBytes_offset {ph : Phdr .elf64} {v : ℕ} (h : ph.p_offset = BitVec.ofNat 64 v) :
    ph.bytes[9]? = (wordBytes (BitVec.ofNat 64 v))[1]? := by
  have hfront : (wordBytes ph.p_type ++ wordBytes ph.p_flags).length = 8 := by simp
  simp only [Phdr.bytes, List.append_assoc]
  rw [← List.append_assoc, List.getElem?_append_right (by omega), hfront,
    List.getElem?_append_left (by rw [length_wordBytes]; decide), h]
  rfl

theorem pages_disagree : WritersDisagree (pagesProcess .arm 65537) (pagesProcess .arm64 65537) := by
  obtain ⟨d32, core32, load32, hrun32, hloads32, hbyte32, htable32⟩ := decodeLoads_pages .arm
  obtain ⟨d64, core64, load64, hrun64, hloads64, hbyte64, htable64⟩ := decodeLoads_pages .arm64
  refine ⟨d32, core32, d64, core64, hrun32, hrun64, fun heq => ?_⟩
  have hloads := hloads32.symm.trans (heq.trans hloads64)
  obtain rfl := (List.cons.inj (Option.some.inj hloads)).1
  -- both readers are sent into the program header table
  obtain ⟨ph32, hpaddr, -, htable32⟩ := htable32 26749 (by norm_num)
  obtain ⟨ph64, -, hoffset, htable64⟩ := htable64 29328 (by norm_num)
  have h32 : load32.bytes[1]? = some 0 := by
    rw [hbyte32]
    exact (htable32 13 (by decide)).trans (phdrBytes_paddr hpaddr)
  have h64 : load32.bytes[1]? = some 0x10 := by
    rw [hbyte64]
    exact (htable64 9 (by decide)).trans (phdrBytes_offset hoffset)
  rw [h32] at h64
  exact absurd h64 (by decide)

/-- The `int` counters of lp64 and the 16-bit count of program headers make a difference. -/
theorem writers_disagree :
    (SameProcess (onePageProcess .arm crowdedProcess.tasks) crowdedProcess ∧
      crowdedProcess.maps.length + 1 ≤ 65535 ∧
      WritersDisagree (onePageProcess .arm crowdedProcess.tasks) crowdedProcess) ∧
    SameProcess (pagesProcess .arm 65537) (pagesProcess .arm64 65537) ∧
      CountersFit (pagesProcess .arm64 65537) ∧
      WritersDisagree (pagesProcess .arm 65537) (pagesProcess .arm64 65537) := by
  have hmaps : crowdedProcess.maps.length = 1 := rfl
  exact ⟨⟨crowded_same, by omega, crowded_disagree⟩, pages_same, pagesProcess_counters .arm64,
    pages_disagree⟩

end Disagree

end Opencore
