import Opencore.Machine.Codec
import Opencore.Dumper.NoteSizes

/-! Reading the notes back: a note reader that is given the note segment returns exactly
the records that were written, and NT_FILE decodes to the mappings. -/
namespace Opencore
open Machine Elf

variable {a : Arch}

/-- What a reader finds in the descriptor of NT_FILE. -/
structure FileTable (c : ElfClass) where
  page_size : BitVec c.bits
  entries : List (File c)
  names : List Bytes
  deriving DecidableEq

def takeFile (c : ElfClass) (bs : Bytes) : Option (File c × Bytes) :=
  (takeWord c.bits bs).bind fun (beginAddr, bs) => (takeWord c.bits bs).bind fun (endAddr, bs) =>
    (takeWord c.bits bs).map fun (offset, bs) => (⟨beginAddr, endAddr, offset⟩, bs)

/-- A count, a page size, the entries, and as many NUL-terminated names. -/
def readFileTable (c : ElfClass) (desc : Bytes) : Option (FileTable c) :=
  (takeWord c.bits desc).bind fun (count, bs) => (takeWord c.bits bs).bind fun (page_size, bs) =>
    (takeMany (takeFile c) count.toNat bs).bind fun (entries, bs) =>
      (takeMany takeString count.toNat bs).map fun (names, _) => ⟨page_size, entries, names⟩

theorem takeFile_bytes {c : ElfClass} (f : File c) (rest : Bytes) :
    takeFile c (f.bytes ++ rest) = some (f, rest) := by
  have hword := fun x => takeWord_wordBytes c.eight_dvd_bits x
  simp only [takeFile, File.bytes, List.append_assoc, hword, Option.bind_some, Option.map_some]

/-- Behind the entries the reader takes the names, whatever they are. -/
theorem readFileTable_strings {c : ElfClass} (page_size : BitVec c.bits) (entries : List (File c))
    (hcount : entries.length < 2 ^ c.bits) (strings : Bytes) :
    readFileTable c (wordBytes (BitVec.ofNat c.bits entries.length) ++ wordBytes page_size ++
      entries.flatMap File.bytes ++ strings) =
      (takeMany takeString entries.length strings).map fun (names, _) =>
        ⟨page_size, entries, names⟩ := by
  have hword := fun x => takeWord_wordBytes c.eight_dvd_bits x
  have hentries : ∀ rest, takeMany (takeFile c) entries.length
      (entries.flatMap File.bytes ++ rest) = some (entries, rest) :=
    takeMany_flatMap fun f _ => takeFile_bytes f
  simp only [readFileTable, List.append_assoc, hword, Option.bind_some, toNat_ofNat_of_lt hcount,
    hentries]

theorem readFileTable_bytes {c : ElfClass} (page_size : BitVec c.bits) (entries : List (File c))
    (names : List Bytes) (hcount : entries.length < 2 ^ c.bits)
    (hnames : names.length = entries.length) (hnul : ∀ name ∈ names, (0 : UInt8) ∉ name)
    (rest : Bytes) :
    readFileTable c (wordBytes (BitVec.ofNat c.bits entries.length) ++ wordBytes page_size ++
      entries.flatMap File.bytes ++ (names.flatMap fun name => name ++ [0]) ++ rest) =
      some ⟨page_size, entries, names⟩ := by
  have hstrings : takeMany takeString names.length
      ((names.flatMap fun name => name ++ [0]) ++ rest) = some (names, rest) :=
    takeMany_flatMap (fun name hn => takeString_append (hnul name hn)) rest
  rw [List.append_assoc _ (names.flatMap fun name => name ++ [0]),
    readFileTable_strings page_size entries hcount, ← hnames, hstrings, Option.map_some]

def pageSizeWord (d : Dumper a) : BitVec a.cls.bits :=
  BitVec.ofNat a.cls.bits (ofLe ((bytesFromPageSize d).take (a.cls.bits / 8)))

/-- NT_FILE as a reader sees it: the padding of the names belongs to the descriptor. -/
def fileNote (d : Dumper a) : Note :=
  ⟨coreName, NT_FILE, ntFileBody d ++ zeros (alignUp (namesSize d.maps) 4 - namesSize d.maps)⟩

section

variable {view : ProcessView a} {d : Dumper a}

theorem length_fileNote_desc (h : Collected view d) (hloops : LoopsFit view) :
    (fileNote d).desc.length = 2 * (a.cls.bits / 8) + sizeofFile a.cls * view.maps.length +
      alignUp (namesSize view.maps) 4 := by
  have hle := le_alignUp (v := namesSize view.maps) (n := 4) (by norm_num)
  rw [fileNote, List.length_append, length_ntFileBody h hloops, length_zeros, h.maps]
  omega

theorem fileRecord_padded (h : Collected view d) (hloops : LoopsFit view) :
    fileRecord d ++ zeros (alignUp (namesSize view.maps) 4 - namesSize view.maps) =
      (fileNote d).encode := by
  obtain ⟨-, -, -, hword, hfile⟩ := sizes_spec a.cls
  have hlen := length_fileNote_desc h hloops
  have h4 : 4 ∣ (fileNote d).desc.length := by
    have hfiles := hfile.mul_right view.maps.length
    have hnames := dvd_alignUp (namesSize view.maps) 4
    rw [hlen]
    omega
  have hdescsz : ntFileDescsz d = BitVec.ofNat 32 (fileNote d).desc.length := by
    rw [ntFileDescsz, h.phnum, h.fileslen, show (4 : BitVec 32) = BitVec.ofNat 32 (2 ^ 2) from rfl,
      RoundUp_ofNat (by norm_num), show (2 : BitVec 32) = BitVec.ofNat 32 2 from rfl,
      ← BitVec.ofNat_mul, ← BitVec.ofNat_mul, ← BitVec.ofNat_add, ← BitVec.ofNat_add, hlen]
    congr 1
    change _ + alignUp (namesSize view.maps) 4 = _
    omega
  rw [Note.encode, pad4_eq_self h4, fileRecord, hdescsz, fileNote, pad4_coreName, h.maps,
    List.append_assoc]
  rfl

def coreNotes (d : Dumper a) (view : ProcessView a) : List Note :=
  slotsNotes d view ++ [auxvNote d, fileNote d]

theorem noteBytes_padded (h : Collected view d) (hloops : LoopsFit view) :
    noteBytes d view ++ zeros (notesSize view - writtenSize view) =
      (coreNotes d view).flatMap Note.encode := by
  have hpad : notesSize view - writtenSize view =
      alignUp (namesSize view.maps) 4 - namesSize view.maps := by
    unfold notesSize writtenSize
    omega
  rw [hpad, noteBytes, List.append_assoc, fileRecord_padded h hloops]
  simp [coreNotes]

/-- The records start behind the headers, with the padding of the last one. -/
theorem writeCore_records (h : Collected view d) (hz : d.note.p_filesz = 0)
    (hfit : NotesFit view) {fp : FILE} (hfp : fp.Appending) (hempty : fp.content = []) :
    ∃ rest, (writeCore d view fp).2.content =
      headerBytes d ++ ((coreNotes (placed d) view).flatMap Note.encode ++ rest) := by
  obtain ⟨loads, hcontent⟩ := writeCore_content h hfit.loops hfp hempty
  have hle := le_loadStart view
  have hwritten := writtenSize_le view
  have hzeros : zeros (notePadding (placed d)) = zeros (notesSize view - writtenSize view) ++
      zeros (loadStart view - (headersSize a.cls view.maps.length + notesSize view)) := by
    rw [notePadding_eq h hz hfit, zeros, zeros, zeros, List.replicate_append_replicate]
    congr 1
    omega
  refine ⟨zeros (loadStart view -
    (headersSize a.cls view.maps.length + notesSize view)) ++ loads, ?_⟩
  rw [hcontent, hzeros, ← noteBytes_padded h.placed hfit.loops]
  simp only [List.append_assoc]

theorem noteSegment_eq (h : Collected view d) (hz : d.note.p_filesz = 0) (hfit : NotesFit view)
    {fp : FILE} (hfp : fp.Appending) (hempty : fp.content = []) :
    slice (writeCore d view fp).2.content (writeCore d view fp).1.note.p_offset.toNat
      (writeCore d view fp).1.note.p_filesz.toNat =
        (coreNotes (placed d) view).flatMap Note.encode ∧
    ((coreNotes (placed d) view).flatMap Note.encode).length =
      (writeCore d view fp).1.note.p_filesz.toNat := by
  have htotal := hfit.total
  have hwritten := writtenSize_le view
  have hnote : (writeCore d view fp).1.note = (placed d).note := by
    rw [writeCore_loads, writeHeaders_eq h hfit.loops hfp]
  have hoffset : (placed d).note.p_offset.toNat = headersSize a.cls view.maps.length := by
    rw [note_offset_eq h.placed hfit, toNat_ofNat_of_lt (by omega)]
  have hfilesz : (placed d).note.p_filesz.toNat = notesSize view := by
    change (noteFilesz d).toNat = notesSize view
    rw [noteFilesz_eq h hz hfit.counters, toNat_ofNat_of_lt (by omega)]
  have hlen : ((coreNotes (placed d) view).flatMap Note.encode).length = notesSize view := by
    rw [← noteBytes_padded h.placed hfit.loops, List.length_append,
      length_noteBytes h.placed hfit.loops, length_zeros]
    omega
  obtain ⟨rest, hcontent⟩ := writeCore_records h hz hfit hfp hempty
  rw [hcontent, hnote, hoffset, hfilesz]
  exact ⟨slice_mid_of_eq (length_headerBytes h).symm hlen.symm, hlen⟩

theorem slotNotes_fit (d : Dumper a) (view : ProcessView a) (slot : PrStatus a × ℕ) :
    ∀ n ∈ slotNotes d view slot, n.Fits := by
  have hcore : coreName.length < 2 ^ 32 := by decide
  have hlinux : linuxName.length < 2 ^ 32 := by decide
  have hslot : (prstatusNote slot.1).Fits :=
    ⟨hcore, by rw [prstatusNote, length_prStatusBytes]; cases a <;> decide⟩
  have hsig : (siginfoNote d).Fits := ⟨hcore, by rw [siginfoNote, length_siginfoBytes]; norm_num⟩
  have hregs : ∀ n ∈ regsetNotes view slot.1.pr_pid, n.Fits := by
    cases a with
    | arm64 =>
      intro n hn
      simp only [regsetNotes, List.mem_cons, List.not_mem_nil, or_false] at hn
      rcases hn with rfl | rfl | rfl | rfl | rfl
      · exact ⟨hcore, by simp⟩
      all_goals exact ⟨hlinux, by simp⟩
    | x86_64 => exact fun n hn => absurd hn List.not_mem_nil
    | arm => exact fun n hn => absurd hn List.not_mem_nil
    | x86 => exact fun n hn => absurd hn List.not_mem_nil
  intro n hn
  simp only [slotNotes, List.cons_append, List.mem_cons, List.mem_append] at hn
  rcases hn with rfl | hn | hn
  · exact hslot
  · split_ifs at hn
    · obtain rfl := List.mem_singleton.mp hn
      exact hsig
    · exact absurd hn List.not_mem_nil
  · exact hregs n hn

theorem coreNotes_fit (h : Collected view d) (hfit : NotesFit view)
    (hauxv : sizeofAuxv a.cls * view.auxv.length < 2 ^ 32) : ∀ n ∈ coreNotes d view, n.Fits := by
  have hname : coreName.length = 5 := by decide
  have hsizes : sizeofFile a.cls ≤ 24 ∧ a.cls.bits / 8 ≤ 8 := by cases a <;> decide
  have hfile : (fileNote d).desc.length < 2 ^ 32 := by
    rw [length_fileNote_desc h hfit.loops]
    refine hfit.lt_of (fun hc => ?_) (fun hlt => ?_)
    · have hnames := hc.names
      have hphnum := hfit.phnum
      have hfiles := Nat.mul_le_mul_right view.maps.length hsizes.1
      omega
    · unfold notesSize namelessSize at hlt
      omega
  intro n hn
  rw [coreNotes, List.mem_append] at hn
  rcases hn with hn | hn
  · obtain ⟨slot, -, hn⟩ := List.mem_flatMap.mp hn
    exact slotNotes_fit d view slot n hn
  · simp only [List.mem_cons, List.not_mem_nil, or_false] at hn
    rcases hn with rfl | rfl
    · refine ⟨by rw [auxvNote, hname]; norm_num, ?_⟩
      rw [auxvNote, h.auxv hfit.auxv, length_auxvDesc]
      exact hauxv
    · exact ⟨by rw [fileNote, hname]; norm_num, hfile⟩

/-- The names at the end of NT_FILE, with their padding. -/
def nameStrings (maps : List VirtualMemoryArea) : Bytes :=
  (maps.flatMap fun vma => vma.file ++ [0]) ++ zeros (alignUp (namesSize maps) 4 - namesSize maps)

theorem fileNote_desc (h : Collected view d) (hloops : LoopsFit view) :
    (fileNote d).desc =
      wordBytes (BitVec.ofNat a.cls.bits (view.maps.map (parserNtFile a.cls)).length) ++
        wordBytes (pageSizeWord d) ++ (view.maps.map (parserNtFile a.cls)).flatMap File.bytes ++
        nameStrings view.maps := by
  have hmaps := hloops.maps
  have hnumber : (BitVec.ofNat 32 view.maps.length).signExtend a.cls.bits =
      BitVec.ofNat a.cls.bits (view.maps.map (parserNtFile a.cls)).length := by
    rw [List.length_map, signExtend_ofNat a.cls.bits_ge hmaps]
  have hentries : d.file.take view.maps.length = view.maps.map (parserNtFile a.cls) := by
    rw [h.file, List.take_of_length_le (by rw [List.length_map])]
  have hpage : (bytesFromPageSize d).take (a.cls.bits / 8) = wordBytes (pageSizeWord d) :=
    (wordBytes_ofLe a.cls.eight_dvd_bits (length_pageSizeBytes d)).symm
  simp only [fileNote, ntFileBody, nameStrings, h.phnum, tripCount_ofNat hmaps, hnumber, hentries,
    h.maps, List.take_length, hpage, List.append_assoc]

theorem files_lt (hloops : LoopsFit view) :
    (view.maps.map (parserNtFile a.cls)).length < 2 ^ a.cls.bits := by
  have hmaps := hloops.maps
  have hwidth : 2 ^ 32 ≤ 2 ^ a.cls.bits := Nat.pow_le_pow_right (by norm_num) a.cls.bits_ge
  rw [List.length_map]
  omega

/-- NT_FILE decodes to the page-size word, the entries and the names of the mappings. -/
theorem readFileTable_fileNote (h : Collected view d) (hloops : LoopsFit view)
    (hnul : ∀ vma ∈ view.maps, (0 : UInt8) ∉ vma.file) :
    readFileTable a.cls (fileNote d).desc = some ⟨pageSizeWord d,
      view.maps.map (parserNtFile a.cls), view.maps.map VirtualMemoryArea.file⟩ := by
  have hnames : (view.maps.flatMap fun vma => vma.file ++ [0]) =
      (view.maps.map VirtualMemoryArea.file).flatMap fun name => name ++ [0] :=
    (List.flatMap_map VirtualMemoryArea.file (fun name => name ++ [0]) view.maps).symm
  rw [fileNote_desc h hloops, nameStrings, hnames, ← List.append_assoc]
  exact readFileTable_bytes (pageSizeWord d) (view.maps.map (parserNtFile a.cls))
    (view.maps.map VirtualMemoryArea.file) (files_lt hloops) (by simp) (by simpa using hnul) _

end

/-- A note reader gets back every record that was written, in order, and NT_FILE lists the
mappings. The sizes must fit the words that store them. -/
theorem writeCore_note_stream {d d' : Dumper a} (hd : d.Fresh) (view : ProcessView a)
    (hrun : (collect d view).bind (fun d => specialCoreFilter d view.files) = some d')
    (hphnum : view.maps.length + 1 ≤ 65535) (hnul : ∀ vma ∈ view.maps, (0 : UInt8) ∉ vma.file)
    (h64 : a.cls = .elf64 →
      CountersFit view ∧ sizeofAuxv a.cls * view.auxv.length < 2 ^ 32)
    (h32 : a.cls = .elf32 → headersSize a.cls view.maps.length + notesSize view < 2 ^ 32)
    (plan : ℕ → WriteResult) (hplan : ∀ n, plan n = .ok) :
    let core := writeCore d' view (FILE.create plan)
    let segment := slice core.2.content core.1.note.p_offset.toNat core.1.note.p_filesz.toNat
    segment.length = core.1.note.p_filesz.toNat ∧ ∃ desc page_size,
      readNotes segment = some (slotsNotes d' view ++
        [⟨coreName, NT_AUXV, view.auxv.flatMap Auxv.bytes⟩, ⟨coreName, NT_FILE, desc⟩]) ∧
      readFileTable a.cls desc = some ⟨page_size, view.maps.map (parserNtFile a.cls),
        view.maps.map VirtualMemoryArea.file⟩ := by
  have htotal : ∀ c, a.cls = c →
      headersSize a.cls view.maps.length + notesSize view < 2 ^ c.bits := fun c hc => by
    cases c with
    | elf32 => exact h32 hc
    | elf64 =>
      have hstart := loadStart_lt_of_counters hc (h64 hc).1 (by omega)
      exact ((le_loadStart view).trans_lt hstart).trans (by decide)
  have hfit : NotesFit view := ⟨by omega, fun hc => (h64 hc).1, htotal a.cls rfl⟩
  have hauxv : sizeofAuxv a.cls * view.auxv.length < 2 ^ 32 := by
    rcases a.cls.cases_eq with hc | hc
    · have := h32 hc
      unfold notesSize namelessSize at this
      omega
    · exact (h64 hc).2
  obtain ⟨d1, hcollect, hcol, -, hz, -⟩ := collect_spec hd view hfit.tasks
  rw [hcollect, Option.bind_some] at hrun
  obtain ⟨flags, hflags⟩ := specialCoreFilter_flags hrun
  have hcol' : Collected view d' := hflags ▸ hcol.filtered flags
  have hz' : d'.note.p_filesz = 0 := by rw [hflags]; exact hz
  obtain ⟨hsegment, hlen⟩ := noteSegment_eq hcol' hz' hfit (FILE.appending_create hplan) rfl
  have hread := readNotes_encode _ (coreNotes_fit hcol'.placed hfit hauxv)
  have hauxvNote : auxvNote (placed d') = ⟨coreName, NT_AUXV, view.auxv.flatMap Auxv.bytes⟩ := by
    rw [auxvNote, hcol'.placed.auxv hfit.auxv]
  rw [coreNotes, hauxvNote] at hread hsegment hlen
  intro core segment
  have heq : segment = _ := hsegment
  rw [heq]
  exact ⟨hlen, (fileNote (placed d')).desc, pageSizeWord (placed d'), hread,
    readFileTable_fileNote hcol'.placed hfit.loops hnul⟩

theorem writeCore_note_stream_one : ∃ d',
    ((collect (Dumper.new .arm 4096) (onePageProcess .arm [⟨1, by decide⟩])).bind fun d =>
      specialCoreFilter d fun _ => none) = some d' ∧
    let core := writeCore d' (onePageProcess .arm [⟨1, by decide⟩]) (FILE.create fun _ => .ok)
    ∃ desc, readNotes
      (slice core.2.content core.1.note.p_offset.toNat core.1.note.p_filesz.toNat) =
      some (slotsNotes d' (onePageProcess .arm [⟨1, by decide⟩]) ++
        [⟨coreName, NT_AUXV, []⟩, ⟨coreName, NT_FILE, desc⟩]) := by
  obtain ⟨d, hcollect, -, hset, -⟩ :=
    collect_spec (fresh_new .arm 4096) (onePageProcess .arm [⟨1, by decide⟩]) (by decide)
  have hrun : ((collect (Dumper.new .arm 4096) (onePageProcess .arm [⟨1, by decide⟩])).bind
      fun d => specialCoreFilter d fun _ => none) = some d := by
    rw [hcollect, Option.bind_some, specialCoreFilter_none hset.filter]
  obtain ⟨-, desc, -, hread, -⟩ := writeCore_note_stream (fresh_new .arm 4096)
    (onePageProcess .arm [⟨1, by decide⟩]) hrun (by decide) (by decide)
    (fun hc => absurd hc (by decide)) (fun _ => by decide) (fun _ => .ok) (fun _ => rfl)
  exact ⟨d, hrun, desc, hread⟩

def wideProcess : ProcessView .x86_64 :=
  { onePageProcess .x86_64 [] with
    maps := (List.range 65535).map fun i =>
      anonymousVma (BitVec.ofNat 64 (8192 * (i + 1))) (BitVec.ofNat 64 (8192 * (i + 1) + 4096)) }

/-- `e_phnum` is zero for that many mappings, so `p_offset` points at the program headers
and the reader takes the first of them for a record. -/
theorem writeCore_note_stream_wide : ∃ d',
    ((collect (Dumper.new .x86_64 4096) wideProcess).bind fun d =>
      specialCoreFilter d wideProcess.files) = some d' ∧
    (∀ vma ∈ wideProcess.maps, (0 : UInt8) ∉ vma.file) ∧
    let core := writeCore d' wideProcess (FILE.create fun _ => .ok)
    ∀ desc, readNotes
      (slice core.2.content core.1.note.p_offset.toNat core.1.note.p_filesz.toNat) ≠
      some (slotsNotes d' wideProcess ++
        [⟨coreName, NT_AUXV, []⟩, ⟨coreName, NT_FILE, desc⟩]) := by
  have hmaps : wideProcess.maps.length = 65535 := by
    simp only [wideProcess, List.length_map, List.length_range]
  have hnames : namesSize wideProcess.maps = 65535 := by
    simp only [namesSize, wideProcess, anonymousVma, List.map_map, Function.comp_def,
      List.length_nil, List.map_const', List.length_range, List.sum_replicate, smul_eq_mul]
  have htasks : wideProcess.tasks.length = 0 := rfl
  have hauxv : wideProcess.auxv.length = 0 := rfl
  have hloops : LoopsFit wideProcess := ⟨by omega, by omega, by omega⟩
  have hcounters : CountersFit wideProcess :=
    ⟨by rw [htasks, slotsSize, if_pos rfl]; norm_num, by rw [hnames]; decide, by omega⟩
  obtain ⟨d, hcollect, hcol, hset, hz, -⟩ :=
    collect_spec (fresh_new .x86_64 4096) wideProcess (by omega)
  refine ⟨d, ?_, ?_, ?_⟩
  · rw [hcollect, Option.bind_some, specialCoreFilter_none hset.filter]
  · intro vma hvma
    simp only [wideProcess, List.mem_map] at hvma
    obtain ⟨i, -, rfl⟩ := hvma
    exact List.not_mem_nil
  intro core desc hread
  have hslots : slotsNotes d wideProcess = [] := by
    rw [slotsNotes, List.length_eq_zero_iff.mp (hcol.prnum.trans htasks)]
    rfl
  have hnote : core.1.note = (placed d).note := by
    change (writeCore d wideProcess _).1.note = _
    rw [writeCore_loads, writeHeaders_eq hcol hloops (FILE.appending_create fun _ => rfl)]
  have hoffset : (placed d).note.p_offset.toNat = 64 := by
    rw [hcol.placed.note_offset, hmaps]
    rfl
  have hfilesz : 4 ≤ (placed d).note.p_filesz.toNat := by
    change 4 ≤ (noteFilesz d).toNat
    rw [noteFilesz_eq hcol hz fun _ => hcounters, notesSize, namelessSize, htasks, hauxv, hmaps,
      hnames]
    decide
  have hfp : (FILE.create fun _ => .ok).Appending := FILE.appending_create fun _ => rfl
  obtain ⟨loads, hcontent⟩ := writeCore_content hcol hloops hfp rfl
  obtain ⟨rest, hphdr⟩ := phdrBytes_type (placed d).note
  -- the reader starts at the program header of the notes, and `PT_NOTE` is 4
  have hfirst : slice (slice core.2.content 64 (placed d).note.p_filesz.toNat) 0 4 =
      wordBytes PT_NOTE := by
    rw [slice_slice hfilesz]
    change slice (writeCore d wideProcess _).2.content 64 4 = _
    rw [hcontent, headerBytes, hphdr, hcol.placed.note_type]
    simp only [List.append_assoc]
    exact slice_mid_of_eq (length_ehdrBytes d.ehdr).symm (length_wordBytes PT_NOTE).symm
  rw [hnote, hoffset, hslots, List.nil_append] at hread
  have hname := congrArg List.length (readNotes_head hread)
  rw [hfirst] at hname
  have hshort := List.length_take_le 4
    (List.drop 12 (slice core.2.content 64 (placed d).note.p_filesz.toNat))
  exact absurd (hname.trans_le hshort) (by decide)

end Opencore
