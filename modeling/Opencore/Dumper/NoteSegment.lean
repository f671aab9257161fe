import Opencore.Dumper.Collected

/-! What stands in the file before the segments: the headers, the notes and the padding. -/
namespace Opencore
open Machine Elf

variable {a : Arch}

/-- Bytes of the ELF header and of the program headers of the notes and `n` segments. -/
def headersSize (c : ElfClass) (n : ℕ) : ℕ := sizeofEhdr c + (n + 1) * sizeofPhdr c

/-- Bytes of the notes without the names of NT_FILE. -/
def namelessSize (view : ProcessView a) : ℕ :=
  slotsSize a view.tasks.length + (20 + sizeofAuxv a.cls * view.auxv.length) +
    (20 + 2 * (a.cls.bits / 8) + sizeofFile a.cls * view.maps.length)

def writtenSize (view : ProcessView a) : ℕ := namelessSize view + namesSize view.maps

/-- The `int` loop counters reach the end of the lists they run over. -/
structure LoopsFit (view : ProcessView a) : Prop where
  maps : view.maps.length < 2 ^ 31
  tasks : view.tasks.length < 2 ^ 31
  auxv : view.auxv.length < 2 ^ 31

theorem sizes_spec (c : ElfClass) :
    4 ∣ sizeofEhdr c ∧ 4 ∣ sizeofPhdr c ∧ 4 ∣ sizeofAuxv c ∧ 4 ∣ c.bits / 8 ∧ 4 ∣ sizeofFile c := by
  cases c <;> decide

@[simp] theorem length_placeSegments {c : ElfClass} (offset : BitVec c.bits)
    (phdr : List (Phdr c)) : (placeSegments offset phdr).length = phdr.length := by
  induction phdr generalizing offset with
  | nil => rfl
  | cons ph phdr ih => rw [placeSegments, List.length_cons, List.length_cons, ih]

def placed (d : Dumper a) : Dumper a :=
  { d with
    note := { d.note with p_filesz := noteFilesz d }
    phdr := placeSegments
      (RoundUp (d.note.p_offset + noteFilesz d) (d.align_size.setWidth a.cls.bits)) d.phdr }

theorem Collected.placed {view : ProcessView a} {d : Dumper a} (h : Collected view d) :
    Collected view (placed d) :=
  { h with phnum := (length_placeSegments _ _).trans h.phnum }

theorem Collected.phnum_count {view : ProcessView a} {d : Dumper a} (h : Collected view d)
    (hloops : LoopsFit view) : tripCount (BitVec.ofNat 32 d.phdr.length) = d.phdr.length :=
  tripCount_ofNat (h.phnum ▸ hloops.maps)

theorem writeCoreProgramHeaders_eq {d : Dumper a} {fp : FILE} (hfp : fp.Appending)
    (hphnum : tripCount (BitVec.ofNat 32 d.phdr.length) = d.phdr.length) :
    let phdr := placeSegments
      (RoundUp (d.note.p_offset + d.note.p_filesz) (d.align_size.setWidth a.cls.bits)) d.phdr
    writeCoreProgramHeaders d fp =
      ({ d with phdr := phdr }, fp.append (phdr.flatMap Phdr.bytes)) := by
  unfold writeCoreProgramHeaders
  split_ifs with hnil
  · simp only
    rw [hnil, placeSegments, List.flatMap_nil, FILE.append_nil hfp, ← hnil]
  · have hpos := List.length_pos_of_ne_nil hnil
    have htake : max 1 (tripCount (BitVec.ofNat 32 d.phdr.length)) = d.phdr.length := by omega
    simp only [htake, List.take_length, List.drop_length, List.append_nil, FILE.foldl_write hfp]

def headerBytes (d : Dumper a) : Bytes :=
  d.ehdr.bytes ++ (placed d).note.bytes ++ (placed d).phdr.flatMap Phdr.bytes

theorem length_headerBytes {view : ProcessView a} {d : Dumper a} (h : Collected view d) :
    (headerBytes d).length = headersSize a.cls view.maps.length := by
  have hphdrs := length_flatMap_const Phdr.bytes (sizeofPhdr a.cls) (placed d).phdr (by simp)
  rw [h.placed.phnum] at hphdrs
  rw [headerBytes, List.length_append, List.length_append, length_ehdrBytes, length_phdrBytes,
    hphdrs, headersSize]
  ring

theorem writeHeaders_placed {d : Dumper a}
    (hphnum : tripCount (BitVec.ofNat 32 d.phdr.length) = d.phdr.length) {fp : FILE}
    (hfp : fp.Appending) :
    writeHeaders d fp = (placed d, fp.append (headerBytes d)) := by
  let d1 : Dumper a := { d with note := { d.note with p_filesz := noteFilesz d } }
  have hphdrs := writeCoreProgramHeaders_eq (d := d1) (hfp.append (d.ehdr.bytes ++ d1.note.bytes))
    hphnum
  simp only [FILE.append_append] at hphdrs
  simp only [writeHeaders, writeCoreHeader_eq hfp, writeCoreNoteHeader]
  rw [FILE.write_eq (hfp.append _), FILE.append_append]
  exact hphdrs

theorem writeHeaders_eq {view : ProcessView a} {d : Dumper a} (h : Collected view d)
    (hloops : LoopsFit view) {fp : FILE} (hfp : fp.Appending) :
    writeHeaders d fp = (placed d, fp.append (headerBytes d)) :=
  writeHeaders_placed (h.phnum_count hloops) hfp

def slotsNotes (d : Dumper a) (view : ProcessView a) : List Note :=
  d.prstatus.zipIdx.flatMap (slotNotes d view)

/-- NT_FILE up to the end of the last name. -/
def fileRecord (d : Dumper a) : Bytes :=
  nhdrBytes NOTE_CORE_NAME_SZ (ntFileDescsz d) NT_FILE ++ coreMagic ++ ntFileBody d

def noteBytes (d : Dumper a) (view : ProcessView a) : Bytes :=
  (slotsNotes d view).flatMap Note.encode ++ (auxvNote d).encode ++ fileRecord d

theorem length_slotNotes (d : Dumper a) (view : ProcessView a) (slot : PrStatus a × ℕ) :
    ((slotNotes d view slot).flatMap Note.encode).length =
      slotSize a + if slot.2 = 0 then 148 else 0 := by
  have hname : coreName.length = 5 := by decide
  have hlinux : linuxName.length = 6 := by decide
  have hsig : ((if slot.2 = 0 then [siginfoNote d] else []).flatMap Note.encode).length =
      if slot.2 = 0 then 148 else 0 := by
    split_ifs <;> simp [length_encode, siginfoNote, hname, alignUp]
  have hslot : (prstatusNote slot.1).encode.length +
      ((regsetNotes view slot.1.pr_pid).flatMap Note.encode).length = slotSize a := by
    cases a <;> simp [regsetNotes, prstatusNote, length_encode, hname, hlinux, alignUp,
      Arch.sizeofPrStatus, slotSize]
  simp only [slotNotes, List.cons_append, List.flatMap_cons, List.flatMap_append,
    List.length_append, hsig]
  omega

/-- Only the slot with index 0 carries NT_SIGINFO. -/
theorem length_slotsNotes (d : Dumper a) (view : ProcessView a) :
    ((slotsNotes d view).flatMap Note.encode).length = slotsSize a d.prstatus.length := by
  unfold slotsNotes slotsSize
  rw [List.flatMap_assoc]
  cases d.prstatus with
  | nil => rfl
  | cons p prstatus =>
    have hrest := length_flatMap_const
      (fun slot => (slotNotes d view slot).flatMap Note.encode) (slotSize a)
      (prstatus.zipIdx 1) (fun slot hs => by
        have hpos : slot.2 ≠ 0 := by
          have := List.le_snd_of_mem_zipIdx hs
          omega
        rw [length_slotNotes, if_neg hpos, Nat.add_zero])
    rw [List.zipIdx_cons, List.flatMap_cons, List.length_append, length_slotNotes, hrest,
      List.length_zipIdx, List.length_cons]
    simp only [if_true, Nat.add_eq_zero_iff, one_ne_zero, and_false, if_false]
    ring

theorem length_auxvDesc (entries : List (Auxv a.cls)) :
    (entries.flatMap Auxv.bytes).length = sizeofAuxv a.cls * entries.length := by
  rw [length_flatMap_const Auxv.bytes (sizeofAuxv a.cls) entries (by simp), Nat.mul_comm]

theorem length_auxvNote {view : ProcessView a} {d : Dumper a} (hauxv : d.auxv = view.auxv) :
    (auxvNote d).encode.length = 20 + sizeofAuxv a.cls * view.auxv.length := by
  have hname : coreName.length = 5 := by decide
  obtain ⟨-, -, h4, -⟩ := sizes_spec a.cls
  have hpad := alignUp_add (v := 0) (n := 4) (by norm_num) (h4.mul_right view.auxv.length)
  rw [length_encode, auxvNote, hauxv, hname, length_auxvDesc]
  simp only [Nat.add_zero] at hpad
  rw [hpad]
  rfl

theorem writeCoreAUXV_note {view : ProcessView a} {d : Dumper a} (h : Collected view d)
    (hloops : LoopsFit view) {fp : FILE} (hfp : fp.Appending) :
    writeCoreAUXV d fp = fp.append (auxvNote d).encode := by
  obtain ⟨-, -, h4, -⟩ := sizes_spec a.cls
  have hdesc := length_auxvDesc d.auxv
  have hauxv := h.auxv hloops.auxv
  rw [writeCoreAUXV_eq hfp, h.auxvnum, tripCount_ofNat hloops.auxv, ← hauxv, List.take_length,
    ← BitVec.ofNat_mul, ← hdesc, Note.encode, auxvNote, pad4_coreName,
    pad4_eq_self (hdesc ▸ h4.mul_right d.auxv.length)]
  rfl

theorem length_namesBytes (maps : List VirtualMemoryArea) :
    (maps.flatMap fun vma => vma.file ++ [0]).length = namesSize maps := by
  simp [namesSize, List.length_flatMap]

theorem length_pageSizeBytes (d : Dumper a) :
    ((bytesFromPageSize d).take (a.cls.bits / 8)).length = a.cls.bits / 8 := by
  rw [List.length_take]
  simp only [bytesFromPageSize, List.length_append, length_wordBytes]
  omega

theorem length_ntFileBody {view : ProcessView a} {d : Dumper a} (h : Collected view d)
    (hloops : LoopsFit view) : (ntFileBody d).length =
      2 * (a.cls.bits / 8) + sizeofFile a.cls * view.maps.length + namesSize view.maps := by
  have hfile := length_flatMap_const File.bytes (sizeofFile a.cls) d.file (by simp)
  have hlen : d.file.length = view.maps.length := by rw [h.file, List.length_map]
  simp only [ntFileBody, List.length_append, length_wordBytes, length_pageSizeBytes, h.phnum,
    tripCount_ofNat hloops.maps, h.maps]
  rw [← hlen, List.take_length, hfile, hlen, List.take_length, length_namesBytes]
  ring

theorem length_fileRecord {view : ProcessView a} {d : Dumper a} (h : Collected view d)
    (hloops : LoopsFit view) :
    (fileRecord d).length =
      20 + 2 * (a.cls.bits / 8) + sizeofFile a.cls * view.maps.length + namesSize view.maps := by
  rw [fileRecord, List.length_append, List.length_append, length_nhdrBytes, length_coreMagic,
    length_ntFileBody h hloops]
  ring

theorem length_noteBytes {view : ProcessView a} {d : Dumper a} (h : Collected view d)
    (hloops : LoopsFit view) : (noteBytes d view).length = writtenSize view := by
  rw [noteBytes, List.length_append, List.length_append, length_slotsNotes, h.prnum,
    length_auxvNote (h.auxv hloops.auxv), length_fileRecord h hloops]
  simp only [writtenSize, namelessSize]
  ring

theorem writeNotes_eq {view : ProcessView a} {d : Dumper a} (h : Collected view d)
    (hloops : LoopsFit view) {fp : FILE} (hfp : fp.Appending) :
    writeNotes d view fp = fp.append (noteBytes d view) := by
  have hprnum : tripCount (BitVec.ofNat 32 d.prstatus.length) = d.prstatus.length :=
    tripCount_ofNat (h.prnum ▸ hloops.tasks)
  rw [writeNotes, writeCorePrStatus_eq hfp, hprnum, List.take_length,
    writeCoreAUXV_note h hloops (hfp.append _), FILE.append_append, writeNtFile_eq (hfp.append _),
    FILE.append_append]
  rfl

def notePadding (d : Dumper a) : ℕ :=
  let w := a.cls.bits
  let align_filesz := d.note.p_filesz - (RoundUp d.fileslen 4).signExtend w +
    d.fileslen.signExtend w
  (RoundUp (d.note.p_offset + align_filesz) (d.align_size.setWidth w) -
    (d.note.p_offset + align_filesz)).toNat

theorem alignNoteSegment_eq {fp : FILE} (hfp : fp.Appending) (d : Dumper a) :
    alignNoteSegment d fp = fp.append (zeros (notePadding d)) := FILE.write_eq hfp _

/-- The stream when `WriteCoreLoadSegment` starts. -/
def beforeLoads (d : Dumper a) (view : ProcessView a) (fp : FILE) : FILE :=
  let (d, fp) := writeHeaders d fp
  alignNoteSegment d (writeNotes d view fp)

theorem writeCore_loads (d : Dumper a) (view : ProcessView a) (fp : FILE) :
    writeCore d view fp = ((writeHeaders d fp).1,
      writeCoreLoadSegment (writeHeaders d fp).1 view.mem (beforeLoads d view fp)) := rfl

theorem beforeLoads_eq {view : ProcessView a} {d : Dumper a} (h : Collected view d)
    (hloops : LoopsFit view) {fp : FILE} (hfp : fp.Appending) :
    beforeLoads d view fp = fp.append
      (headerBytes d ++ noteBytes (placed d) view ++ zeros (notePadding (placed d))) := by
  rw [beforeLoads, writeHeaders_eq h hloops hfp]
  simp only
  rw [writeNotes_eq h.placed hloops (hfp.append _), FILE.append_append,
    alignNoteSegment_eq (hfp.append _), FILE.append_append]

theorem length_beforeLoads {view : ProcessView a} {d : Dumper a} (h : Collected view d)
    (hloops : LoopsFit view) {fp : FILE} (hfp : fp.Appending) (hempty : fp.content = []) :
    (beforeLoads d view fp).content.length =
      headersSize a.cls view.maps.length + writtenSize view + notePadding (placed d) := by
  rw [beforeLoads_eq h hloops hfp, FILE.content_append, hempty, List.nil_append,
    List.length_append, List.length_append, length_headerBytes h,
    length_noteBytes h.placed hloops, length_zeros]

/-- Whatever the loads are, the file starts with the headers and the notes. -/
theorem writeCore_content {view : ProcessView a} {d : Dumper a} (h : Collected view d)
    (hloops : LoopsFit view) {fp : FILE} (hfp : fp.Appending) (hempty : fp.content = []) :
    ∃ loads, (writeCore d view fp).2.content =
      headerBytes d ++ noteBytes (placed d) view ++ zeros (notePadding (placed d)) ++ loads := by
  have happ : (beforeLoads d view fp).Appending := by
    rw [beforeLoads_eq h hloops hfp]
    exact hfp.append _
  have hstart : (beforeLoads d view fp).content =
      headerBytes d ++ noteBytes (placed d) view ++ zeros (notePadding (placed d)) := by
    rw [beforeLoads_eq h hloops hfp, FILE.content_append, hempty, List.nil_append]
  rw [writeCore_loads, ← hstart]
  cases view.mem with
  | none => exact ⟨[], (List.append_nil _).symm⟩
  | some mem => exact ⟨_, congrArg FILE.content (writeSegments_eq happ mem _ _)⟩

end Opencore
