import Opencore.Dumper.NoteSizes

/-! The file layout: every segment is written where its program header says. -/
namespace Opencore
open Machine Elf

variable {a : Arch}

/-- What the kernel guarantees of a mapping. -/
structure VirtualMemoryArea.Mapped (vma : VirtualMemoryArea) : Prop where
  begin_dvd : 4096 ∣ vma.beginAddr.toNat
  end_dvd : 4096 ∣ vma.endAddr.toNat
  nonempty : vma.beginAddr.toNat < vma.endAddr.toNat

/-- What the page loop relies on in a program header. -/
structure LoadPhdr {c : ElfClass} (ph : Phdr c) : Prop where
  kept : ph.p_filesz = 0 ∨ ph.p_filesz = ph.p_memsz
  whole : 4096 ∣ ph.p_memsz.toNat
  short : ph.p_memsz.toNat < 2 ^ 43
  align : ph.p_align = BitVec.ofNat c.bits 4096

theorem memsz_toNat (c : ElfClass) {vma : VirtualMemoryArea}
    (h : vma.beginAddr.toNat ≤ vma.endAddr.toNat) :
    (vma.endAddr.setWidth c.bits - vma.beginAddr.setWidth c.bits).toNat =
      (vma.endAddr.toNat - vma.beginAddr.toNat) % 2 ^ c.bits := by
  have hword (x : BitVec 64) : x.setWidth c.bits = BitVec.ofNat c.bits x.toNat :=
    BitVec.eq_of_toNat_eq (by rw [BitVec.toNat_setWidth, BitVec.toNat_ofNat])
  rw [hword, hword, ofNat_sub_of_le h, BitVec.toNat_ofNat]

theorem parserPhdr_load (c : ElfClass) {vma : VirtualMemoryArea} (h : vma.Mapped)
    (hshort : vma.endAddr.toNat - vma.beginAddr.toNat < 2 ^ 43) :
    LoadPhdr (parserPhdr ELF_PAGE_SIZE vma ({} : Phdr c)) where
  kept := Or.inr rfl
  whole := by
    change 4096 ∣ (vma.endAddr.setWidth c.bits - vma.beginAddr.setWidth c.bits).toNat
    rw [memsz_toNat c h.nonempty.le]
    have hbits : 4096 ∣ 2 ^ c.bits := by cases c <;> exact Nat.pow_dvd_pow 2 (by decide : 12 ≤ _)
    exact (Nat.dvd_mod_iff hbits).mpr (Nat.dvd_sub h.end_dvd h.begin_dvd)
  short := by
    change (vma.endAddr.setWidth c.bits - vma.beginAddr.setWidth c.bits).toNat < 2 ^ 43
    rw [memsz_toNat c h.nonempty.le]
    exact (Nat.mod_le _ _).trans_lt hshort
  align := setWidth_ofNat_of_lt (by norm_num)

theorem LoadPhdr.applyVmaFlag {c : ElfClass} {ph : Phdr c} (h : LoadPhdr ph)
    (vma_flag : BitVec 32) : LoadPhdr (applyVmaFlag vma_flag ph) where
  kept := by
    rw [applyVmaFlag_filesz, applyVmaFlag_memsz]
    split_ifs
    · exact Or.inr rfl
    · exact Or.inl rfl
    · exact h.kept
  whole := by simpa using h.whole
  short := by simpa using h.short
  align := by simpa using h.align

theorem length_readPage {c : ElfClass} (mem : ProcMem) {ph : Phdr c}
    (h : ph.p_align = BitVec.ofNat c.bits 4096) (i : ℕ) :
    (readPage mem ELF_PAGE_SIZE ph i).length = 4096 := by
  have halign : ph.p_align.toNat = 4096 := by
    rw [h, toNat_ofNat_of_lt]
    cases c <;> decide
  simp only [readPage]
  split
  · exact length_zeros _
  · next b hb =>
    have hle := mem.bounded _ _ b hb
    have hpage : ELF_PAGE_SIZE.toNat = 4096 := rfl
    rw [List.length_append, List.length_drop, length_zeros]
    omega

theorem pageCount_eq {c : ElfClass} {ph : Phdr c} (h : LoadPhdr ph) :
    tripCount (pageCount ELF_PAGE_SIZE ph) = ph.p_memsz.toNat / 4096 := by
  have hshort := h.short
  have hdiv : ph.p_memsz / ELF_PAGE_SIZE.setWidth c.bits =
      BitVec.ofNat c.bits (ph.p_memsz.toNat / 4096) := by
    apply BitVec.eq_of_toNat_eq
    have hsize : (ELF_PAGE_SIZE.setWidth c.bits).toNat = 4096 := by cases c <;> decide
    have hlt := ph.p_memsz.isLt
    rw [BitVec.toNat_udiv, hsize, toNat_ofNat_of_lt (by omega)]
  rw [pageCount, hdiv, setWidth_ofNat_of_le c.bits_ge, tripCount_ofNat (by omega)]

theorem length_segmentBytes {c : ElfClass} (mem : ProcMem) {ph : Phdr c} (h : LoadPhdr ph) :
    (segmentBytes mem ELF_PAGE_SIZE ph).length = ph.p_memsz.toNat := by
  rw [segmentBytes, length_flatMap_const _ 4096 _ (fun i _ => length_readPage mem h.align i),
    List.length_range, pageCount_eq h, Nat.div_mul_cancel h.whole]

def segmentsSize {c : ElfClass} (phdr : List (Phdr c)) : ℕ :=
  (phdr.map fun ph => ph.p_filesz.toNat).sum

theorem segmentsSize_cons {c : ElfClass} (ph : Phdr c) (phdr : List (Phdr c)) :
    segmentsSize (ph :: phdr) = ph.p_filesz.toNat + segmentsSize phdr := by
  rw [segmentsSize, List.map_cons, List.sum_cons]
  rfl

theorem segmentsSize_append {c : ElfClass} (before after : List (Phdr c)) :
    segmentsSize (before ++ after) = segmentsSize before + segmentsSize after := by
  rw [segmentsSize, List.map_append, List.sum_append]
  rfl

theorem dvd_segmentsSize {c : ElfClass} {phdr : List (Phdr c)} (h : ∀ ph ∈ phdr, LoadPhdr ph) :
    4096 ∣ segmentsSize phdr := by
  apply List.dvd_sum
  intro size hsize
  obtain ⟨ph, hph, rfl⟩ := List.mem_map.mp hsize
  rcases (h ph hph).kept with h0 | hmemsz
  · simp [h0]
  · exact hmemsz ▸ (h ph hph).whole

theorem length_loadBytes {c : ElfClass} (mem : ProcMem) {phdr : List (Phdr c)}
    (h : ∀ ph ∈ phdr, LoadPhdr ph) :
    (loadBytes mem ELF_PAGE_SIZE phdr).length = segmentsSize phdr := by
  induction phdr with
  | nil => rfl
  | cons ph phdr ih =>
    have hph := h ph List.mem_cons_self
    have hrest := ih fun p hp => h p (List.mem_cons_of_mem ph hp)
    simp only [loadBytes, segmentsSize, List.flatMap_cons, List.length_append, List.map_cons,
      List.sum_cons] at hrest ⊢
    rw [hrest]
    split_ifs with hsz
    · have hne : ph.p_filesz ≠ 0 := fun h0 => by simp [h0] at hsz
      rw [length_segmentBytes mem hph, hph.kept.resolve_left hne]
    · have h0 : ph.p_filesz.toNat = 0 := by
        rw [gt_iff_lt, BitVec.lt_def] at hsz
        exact Nat.eq_zero_of_not_pos hsz
      rw [h0]
      rfl

theorem mem_placeSegments {c : ElfClass} {offset : BitVec c.bits} {phdr : List (Phdr c)}
    {ph : Phdr c} (h : ph ∈ placeSegments offset phdr) :
    ∃ orig ∈ phdr, ∃ p_offset, ph = { orig with p_offset := p_offset } := by
  induction phdr generalizing offset with
  | nil => cases h
  | cons p phdr ih =>
    rcases List.mem_cons.mp h with rfl | h
    · exact ⟨p, List.mem_cons_self, offset, rfl⟩
    · obtain ⟨orig, horig, heq⟩ := ih h
      exact ⟨orig, List.mem_cons_of_mem p horig, heq⟩

theorem segmentsSize_placeSegments {c : ElfClass} (offset : BitVec c.bits)
    (phdr : List (Phdr c)) : segmentsSize (placeSegments offset phdr) = segmentsSize phdr := by
  induction phdr generalizing offset with
  | nil => rfl
  | cons ph phdr ih => rw [placeSegments, segmentsSize_cons, ih, segmentsSize_cons]

/-- Segments that have their place keep it. -/
theorem placeSegments_placeSegments {c : ElfClass} (offset : BitVec c.bits)
    (phdr : List (Phdr c)) :
    placeSegments offset (placeSegments offset phdr) = placeSegments offset phdr := by
  induction phdr generalizing offset with
  | nil => rfl
  | cons ph phdr ih => rw [placeSegments, placeSegments, ih]

theorem placeSegments_offset {c : ElfClass} {start : ℕ} {phdr before after : List (Phdr c)}
    {ph : Phdr c} (h : placeSegments (BitVec.ofNat c.bits start) phdr = before ++ ph :: after) :
    ph.p_offset = BitVec.ofNat c.bits (start + segmentsSize before) := by
  induction before generalizing start phdr with
  | nil =>
    cases phdr with
    | nil => cases h
    | cons p phdr =>
      obtain ⟨rfl, -⟩ := List.cons.inj h
      rfl
  | cons b before ih =>
    cases phdr with
    | nil => cases h
    | cons p phdr =>
      obtain ⟨rfl, hrest⟩ := List.cons.inj h
      have hnext : BitVec.ofNat c.bits start + p.p_filesz =
          BitVec.ofNat c.bits (start + p.p_filesz.toNat) := by
        rw [BitVec.ofNat_add, BitVec.ofNat_toNat, BitVec.setWidth_eq]
      have hoffset := ih (hnext ▸ hrest)
      rw [hoffset, segmentsSize_cons, Nat.add_assoc]

theorem writeSegments_append {c : ElfClass} (mem : ProcMem) (align_size : BitVec 32)
    {fp : FILE} (h : fp.Appending) (before after : List (Phdr c)) :
    writeSegments mem align_size (before ++ after) fp =
      writeSegments mem align_size after (writeSegments mem align_size before fp) := by
  rw [writeSegments_eq h, writeSegments_eq h, writeSegments_eq (h.append _), FILE.append_append]
  simp [loadBytes]

/-- The size of the core file: headers and notes up to a page, then the kept segments. -/
def coreSize (view : ProcessView a) (phdr : List (Phdr a.cls)) : ℕ :=
  loadStart view + segmentsSize phdr

/-- What the program headers promise holds of the file. -/
structure CoreLayout (d : Dumper a) (view : ProcessView a) (mem : ProcMem) (fp : FILE) : Prop where
  note_start : (writeHeaders d fp).2.pos = (writeHeaders d fp).1.note.p_offset.toNat
  note_end : ∀ ph ∈ (writeHeaders d fp).1.phdr.head?,
    (writeNotes (writeHeaders d fp).1 view (writeHeaders d fp).2).pos ≤ ph.p_offset.toNat ∧
    (writeHeaders d fp).1.note.p_offset.toNat + (writeHeaders d fp).1.note.p_filesz.toNat ≤
      ph.p_offset.toNat
  aligned : ∀ ph ∈ (writeHeaders d fp).1.phdr, d.align_size.toNat ∣ ph.p_offset.toNat
  segments : ∀ before ph after, (writeHeaders d fp).1.phdr = before ++ ph :: after →
    0 < ph.p_filesz.toNat →
    let here := writeSegments mem d.align_size before (beforeLoads d view fp)
    here.pos = ph.p_offset.toNat ∧
      (∃ bytes, bytes.length = ph.p_filesz.toNat ∧
        writeSegment mem d.align_size ph here = (false, here.append bytes)) ∧
      (writeCore d view fp).2 = writeSegments mem d.align_size (ph :: after) here
  size : (writeCore d view fp).2.content.length = coreSize view d.phdr

section Run

variable {view : ProcessView a} {d : Dumper a} {fp : FILE}

theorem length_beforeLoads_eq (h : Collected view d) (hz : d.note.p_filesz = 0)
    (hfit : NotesFit view) (hfp : fp.Appending) (hempty : fp.content = []) :
    (beforeLoads d view fp).content.length = loadStart view := by
  have hle := written_le_loadStart view
  rw [length_beforeLoads h hfit.loops hfp hempty, notePadding_eq h hz hfit]
  omega

theorem writeCore_eq (h : Collected view d) (hloops : LoopsFit view) (hfp : fp.Appending)
    {mem : ProcMem} (hmem : view.mem = some mem) :
    (writeCore d view fp).2 =
      writeSegments mem d.align_size (placed d).phdr (beforeLoads d view fp) := by
  rw [writeCore_loads, writeHeaders_eq h hloops hfp, hmem]
  simp only [writeCoreLoadSegment, h.placed.phnum_count hloops, List.take_length]
  rfl

theorem appending_beforeLoads (h : Collected view d) (hloops : LoopsFit view)
    (hfp : fp.Appending) : (beforeLoads d view fp).Appending := by
  rw [beforeLoads_eq h hloops hfp]
  exact hfp.append _

theorem load_placed (hload : ∀ ph ∈ d.phdr, LoadPhdr ph) :
    ∀ ph ∈ (placed d).phdr, LoadPhdr ph := by
  intro ph hp
  obtain ⟨orig, horig, offset, rfl⟩ := mem_placeSegments hp
  exact { hload orig horig with }

theorem segmentsSize_placed (d : Dumper a) :
    segmentsSize (placed d).phdr = segmentsSize d.phdr :=
  segmentsSize_placeSegments _ _

theorem placed_note_offset (h : Collected view d) (hfit : NotesFit view) :
    (placed d).note.p_offset.toNat = headersSize a.cls view.maps.length := by
  have hnotes := hfit.total
  rw [note_offset_eq h.placed hfit, toNat_ofNat_of_lt (by omega)]

/-- A program header promises the offset behind the notes and the segments before it. -/
theorem placed_offset (h : Collected view d) (hz : d.note.p_filesz = 0) (hfit : NotesFit view)
    (htotal : coreSize view d.phdr < 2 ^ a.cls.bits) {before after : List (Phdr a.cls)}
    {ph : Phdr a.cls} (hsplit : (placed d).phdr = before ++ ph :: after) :
    ph.p_offset.toNat = loadStart view + segmentsSize before := by
  have hbefore : segmentsSize before ≤ segmentsSize d.phdr := by
    rw [← segmentsSize_placed, hsplit, segmentsSize_append]
    exact Nat.le_add_right _ _
  unfold coreSize at htotal
  rw [placed_phdr_eq h hz hfit] at hsplit
  rw [placeSegments_offset hsplit, toNat_ofNat_of_lt (by omega)]

theorem pos_writeSegments (h : Collected view d) (hz : d.note.p_filesz = 0)
    (hfit : NotesFit view) (hfp : fp.Appending) (hempty : fp.content = []) (mem : ProcMem)
    {before : List (Phdr a.cls)} (hbefore : ∀ ph ∈ before, LoadPhdr ph) :
    (writeSegments mem d.align_size before (beforeLoads d view fp)).pos =
      loadStart view + segmentsSize before := by
  rw [writeSegments_eq (appending_beforeLoads h hfit.loops hfp), FILE.pos_append,
    length_beforeLoads_eq h hz hfit hfp hempty, h.align, length_loadBytes mem hbefore]

theorem coreLayout_of_collected (h : Collected view d) (hz : d.note.p_filesz = 0)
    (hfit : NotesFit view) (hfp : fp.Appending) (hempty : fp.content = []) {mem : ProcMem}
    (hmem : view.mem = some mem) (hload : ∀ ph ∈ d.phdr, LoadPhdr ph)
    (htotal : coreSize view d.phdr < 2 ^ a.cls.bits) : CoreLayout d view mem fp := by
  have hheaders := writeHeaders_eq h hfit.loops hfp
  have hnote := placed_note_offset h hfit
  have hplaced := load_placed hload
  have happ := appending_beforeLoads h hfit.loops hfp
  constructor
  case note_start =>
    rw [hheaders, FILE.pos_append, hempty, hnote, length_headerBytes h]
    simp
  case note_end =>
    intro ph hp
    rw [hheaders] at hp ⊢
    obtain ⟨after, hsplit⟩ := List.head?_eq_some_iff.mp hp
    have hstart := placed_offset h hz hfit htotal (show _ = [] ++ ph :: after from hsplit)
    have hnotes := hfit.total
    have hwritten := written_le_loadStart view
    have hpromised := le_loadStart view
    have hfilesz : (placed d).note.p_filesz.toNat = notesSize view := by
      change (noteFilesz d).toNat = notesSize view
      rw [noteFilesz_eq h hz hfit.counters, toNat_ofNat_of_lt (by omega)]
    rw [writeNotes_eq h.placed hfit.loops (hfp.append _), FILE.append_append, FILE.pos_append,
      hempty, List.length_append, length_headerBytes h, length_noteBytes h.placed hfit.loops,
      hstart, hnote, hfilesz]
    simp [segmentsSize, hwritten, hpromised]
  case aligned =>
    intro ph hp
    rw [hheaders] at hp
    obtain ⟨before, after, hsplit⟩ := List.append_of_mem hp
    rw [placed_offset h hz hfit htotal hsplit, h.align]
    exact Nat.dvd_add (dvd_alignUp _ 4096) (dvd_segmentsSize fun p hp =>
      hplaced p (hsplit ▸ List.mem_append_left _ hp))
  case segments =>
    intro before ph after hsplit hkept
    rw [hheaders] at hsplit
    have hbefore : ∀ p ∈ before, LoadPhdr p := fun p hp =>
      hplaced p (hsplit ▸ List.mem_append_left _ hp)
    have hph : LoadPhdr ph := hplaced ph (hsplit ▸ by simp)
    have hne : ph.p_filesz ≠ 0 := fun h0 => by simp [h0] at hkept
    have hhere : (writeSegments mem d.align_size before (beforeLoads d view fp)).Appending := by
      rw [writeSegments_eq happ]
      exact happ.append _
    have hpos := pos_writeSegments h hz hfit hfp hempty mem hbefore
    refine ⟨hpos.trans (placed_offset h hz hfit htotal hsplit).symm,
      ⟨segmentBytes mem d.align_size ph, ?_, writeSegment_eq hhere mem d.align_size ph⟩, ?_⟩
    · rw [h.align, length_segmentBytes mem hph, hph.kept.resolve_left hne]
    · rw [writeCore_eq h hfit.loops hfp hmem, hsplit, writeSegments_append mem d.align_size happ]
  case size =>
    rw [writeCore_eq h hfit.loops hfp hmem, writeSegments_eq happ, FILE.content_append,
      List.length_append, length_beforeLoads_eq h hz hfit hfp hempty, h.align,
      length_loadBytes mem hplaced, segmentsSize_placed, coreSize]

end Run

theorem segmentsSize_le {c : ElfClass} {phdr : List (Phdr c)} (h : ∀ ph ∈ phdr, LoadPhdr ph) :
    segmentsSize phdr ≤ phdr.length * 2 ^ 43 := by
  have hle := List.sum_le_card_nsmul (phdr.map fun ph => ph.p_filesz.toNat) (2 ^ 43)
    (fun size hsize => by
      obtain ⟨ph, hph, rfl⟩ := List.mem_map.mp hsize
      rcases (h ph hph).kept with h0 | hmemsz
      · simp [h0]
      · exact hmemsz ▸ (h ph hph).short.le)
  rwa [List.length_map, smul_eq_mul] at hle

/-- The segments of a filtered dump, whatever the filters said. -/
theorem loadPhdr_of_filter {view : ProcessView a} {d d' : Dumper a}
    (hphdr : d.phdr = view.maps.map fun vma => parserPhdr ELF_PAGE_SIZE vma {})
    (hmaps : ∀ vma ∈ view.maps,
      vma.Mapped ∧ vma.endAddr.toNat - vma.beginAddr.toNat < 2 ^ 43)
    {flags : List (BitVec 32)} (hd' : d' = { d with phdr := applyVmaFlags flags d.phdr }) :
    ∀ ph ∈ d'.phdr, LoadPhdr ph := by
  intro ph hp
  rw [hd', hphdr] at hp
  obtain ⟨orig, horig, hcase⟩ := mem_applyVmaFlags hp
  obtain ⟨vma, hvma, rfl⟩ := List.mem_map.mp horig
  have hload := parserPhdr_load a.cls (hmaps vma hvma).1 (hmaps vma hvma).2
  rcases hcase with rfl | ⟨vma_flag, rfl⟩
  · exact hload
  · exact hload.applyVmaFlag vma_flag

/-- Every segment is written where its program header says, and the notes end before the
first one. On lp64 this needs the `int` counters to hold, on lp32 a file below 4 GiB. -/
theorem writeCore_layout {d d' : Dumper a} (hd : d.Fresh) (view : ProcessView a)
    {mem : ProcMem} (hmem : view.mem = some mem)
    (hrun : (collect d view).bind (fun d => specialCoreFilter d view.files) = some d')
    (hmaps : ∀ vma ∈ view.maps,
      vma.Mapped ∧ vma.endAddr.toNat - vma.beginAddr.toNat < 2 ^ 43)
    (hphnum : view.maps.length + 1 ≤ 65535)
    (h64 : a.cls = .elf64 → CountersFit view)
    (h32 : a.cls = .elf32 → coreSize view d'.phdr < 2 ^ 32)
    (plan : ℕ → WriteResult) (hplan : ∀ n, plan n = .ok) :
    CoreLayout d' view mem (FILE.create plan) := by
  have hphnum' : view.maps.length + 1 < 2 ^ 16 := by omega
  have htotal : loadStart view < 2 ^ a.cls.bits := by
    cases hc : a.cls with
    | elf64 => exact (loadStart_lt_of_counters hc (h64 hc) hphnum').trans (by decide)
    | elf32 => exact (Nat.le_add_right _ _).trans_lt (h32 hc)
  have hfit : NotesFit view := ⟨hphnum', h64, (le_loadStart view).trans_lt htotal⟩
  obtain ⟨d1, hcollect, hcol, -, hz, hphdr⟩ := collect_spec hd view hfit.tasks
  rw [hcollect, Option.bind_some] at hrun
  obtain ⟨flags, hflags⟩ := specialCoreFilter_flags hrun
  have hload := loadPhdr_of_filter hphdr hmaps hflags
  have hcol' : Collected view d' := hflags ▸ hcol.filtered flags
  have hz' : d'.note.p_filesz = 0 := by rw [hflags]; exact hz
  refine coreLayout_of_collected hcol' hz' hfit (FILE.appending_create hplan) rfl hmem hload ?_
  have hsegments := segmentsSize_le hload
  rw [hcol'.phnum] at hsegments
  unfold coreSize at h32 ⊢
  have hwidth : ∀ c, a.cls = c → loadStart view + segmentsSize d'.phdr < 2 ^ c.bits := by
    intro c hc
    cases c with
    | elf64 =>
      have := loadStart_lt_of_counters hc (h64 hc) hphnum'
      calc loadStart view + segmentsSize d'.phdr < 2 ^ 40 + 2 ^ 16 * 2 ^ 43 := by omega
        _ < 2 ^ ElfClass.elf64.bits := by decide
    | elf32 => exact h32 hc
  exact hwidth a.cls rfl

theorem onePageProcess_mapped (a : Arch) (tasks : List Tid) :
    ∀ vma ∈ (onePageProcess a tasks).maps,
      vma.Mapped ∧ vma.endAddr.toNat - vma.beginAddr.toNat < 2 ^ 43 := by
  intro vma hvma
  obtain rfl := List.mem_singleton.mp hvma
  exact ⟨⟨by decide, by decide, by decide⟩, by decide⟩

theorem writeCore_layout_one : ∃ d',
    ((collect (Dumper.new .arm64 4096) (onePageProcess .arm64 [⟨1, by decide⟩])).bind fun d =>
      specialCoreFilter d fun _ => none) = some d' ∧
    CoreLayout d' (onePageProcess .arm64 [⟨1, by decide⟩]) ⟨fun _ _ => none, nofun⟩
      (FILE.create fun _ => .ok) := by
  obtain ⟨d, hcollect, -, hset, -⟩ :=
    collect_spec (fresh_new .arm64 4096) (onePageProcess .arm64 [⟨1, by decide⟩]) (by decide)
  have hrun : ((collect (Dumper.new .arm64 4096) (onePageProcess .arm64 [⟨1, by decide⟩])).bind
      fun d => specialCoreFilter d fun _ => none) = some d := by
    rw [hcollect, Option.bind_some, specialCoreFilter_none hset.filter]
  exact ⟨d, hrun, writeCore_layout (fresh_new .arm64 4096) _ rfl hrun
    (onePageProcess_mapped .arm64 _) (by decide)
    (fun _ => ⟨by decide, by decide, by decide⟩) (fun hc => absurd hc (by decide)) _ (fun _ => rfl)⟩

theorem CoreLayout.first {view : ProcessView a} {d : Dumper a} {mem : ProcMem} {fp : FILE}
    (hlayout : CoreLayout d view mem fp) (h : Collected view d) (hloops : LoopsFit view)
    (hfp : fp.Appending) (hempty : fp.content = []) {ph : Phdr a.cls} {rest : List (Phdr a.cls)}
    (hphdr : (placed d).phdr = ph :: rest) (hkept : 0 < ph.p_filesz.toNat) :
    headersSize a.cls view.maps.length + writtenSize view + notePadding (placed d) =
      ph.p_offset.toNat := by
  have hsplit : (writeHeaders d fp).1.phdr = [] ++ ph :: rest := by
    rw [writeHeaders_eq h hloops hfp]
    exact hphdr
  obtain ⟨hpos, -⟩ := hlayout.segments [] ph rest hsplit hkept
  have happ := appending_beforeLoads h hloops hfp
  rw [← length_beforeLoads h hloops hfp hempty, ← happ.at_end]
  exact hpos

def crowdedProcess : ProcessView .arm64 :=
  onePageProcess .arm64 (List.ofFn fun i : Fin 1973790 =>
    ⟨BitVec.ofNat 32 (i + 1), toInt_ofNat_pos (by omega) (by omega)⟩)

theorem crowdedProcess_tasks : crowdedProcess.tasks.length = 1973790 := by
  simp only [crowdedProcess, onePageProcess, List.length_ofFn]

theorem crowdedProcess_nameless : namelessSize crowdedProcess = 2147483748 := by
  have hauxv : crowdedProcess.auxv.length = 0 := rfl
  have hmaps : crowdedProcess.maps.length = 1 := rfl
  rw [namelessSize, crowdedProcess_tasks, hauxv, hmaps]
  simp [slotsSize, slotSize, Arch.cls, sizeofFile, ElfClass.bits]

theorem crowdedProcess_loops : LoopsFit crowdedProcess := by
  have htasks := crowdedProcess_tasks
  have hmaps : crowdedProcess.maps.length = 1 := rfl
  exact ⟨by omega, by omega, by decide⟩

/-- With that many threads `extra_note_filesz` is negative, and the only segment is placed
far behind the end of the file. -/
theorem crowdedProcess_placed {d : Dumper .arm64} (h : Collected crowdedProcess d)
    (hz : d.note.p_filesz = 0)
    (hphdr : d.phdr = crowdedProcess.maps.map fun vma => parserPhdr ELF_PAGE_SIZE vma {}) :
    notePadding (placed d) = 3819 ∧ ∃ ph, (placed d).phdr = [ph] ∧
      ph.p_offset.toNat = 18446744071562072064 ∧ 0 < ph.p_filesz.toNat := by
  have hmaps : crowdedProcess.maps.length = 1 := rfl
  have hnames : namesSize crowdedProcess.maps = 1 := rfl
  have hauxv : crowdedProcess.auxv.length = 0 := rfl
  have hextra : d.extra_note_filesz = 0x80000014 := by
    rw [h.extra, crowdedProcess_tasks]
    rfl
  have hsz : noteFilesz d = (0xFFFFFFFF80000068 : BitVec 64) := by
    simp only [noteFilesz, hz, h.auxvnum, h.phnum, h.fileslen, hextra, hmaps, hnames, hauxv]
    rfl
  have hoffset : d.note.p_offset = (176 : BitVec 64) := by
    rw [h.note_offset, hmaps]
    rfl
  constructor
  · simp only [notePadding, placed, hsz, hoffset, h.align, h.fileslen, hnames]
    rfl
  · simp only [placed, hphdr, hsz, hoffset, h.align]
    exact ⟨_, rfl, rfl, by decide⟩

/-- The only segment is not written where its program header says. -/
theorem writeCore_layout_overflow : ∃ d',
    ((collect (Dumper.new .arm64 4096) crowdedProcess).bind fun d =>
      specialCoreFilter d crowdedProcess.files) = some d' ∧
    (∀ vma ∈ crowdedProcess.maps,
      vma.Mapped ∧ vma.endAddr.toNat - vma.beginAddr.toNat < 2 ^ 43) ∧
    crowdedProcess.maps.length + 1 ≤ 65535 ∧
    ¬ CoreLayout d' crowdedProcess ⟨fun _ _ => none, nofun⟩ (FILE.create fun _ => .ok) := by
  have hmaps : crowdedProcess.maps.length = 1 := rfl
  obtain ⟨d, hcollect, hcol, hset, hz, hphdr⟩ :=
    collect_spec (fresh_new .arm64 4096) crowdedProcess crowdedProcess_loops.tasks
  refine ⟨d, ?_, onePageProcess_mapped .arm64 _, by omega, fun hlayout => ?_⟩
  · rw [hcollect, Option.bind_some, specialCoreFilter_none hset.filter]
  · have hnames : namesSize crowdedProcess.maps = 1 := rfl
    obtain ⟨hpad, ph, hplaced, hstart, hkept⟩ := crowdedProcess_placed hcol hz hphdr
    have hfirst := hlayout.first hcol crowdedProcess_loops
      (FILE.appending_create fun _ => rfl) rfl hplaced hkept
    have hheaders : headersSize Arch.arm64.cls 1 = 176 := rfl
    rw [hpad, hmaps, writtenSize, hnames, hheaders, crowdedProcess_nameless, hstart] at hfirst
    omega

end Opencore
