import Opencore.Dumper.Agreement

/-! The counts and offsets that the headers store, against the exact numbers they stand for. -/
namespace Opencore
open Machine Elf

variable {a : Arch} {view : ProcessView a} {d0 d1 d : Dumper a}

/-- The number that an `int` holds after it has counted to `n`. -/
def intOf (n : ℕ) : ℤ := (BitVec.ofNat 32 n).toInt

/-- The size of the notes as `WriteCoreNoteHeader` adds it up from its `int` counters. -/
def countedNotesSize (view : ProcessView a) : ℤ :=
  intOf (slotsSize a view.tasks.length) + (20 + sizeofAuxv a.cls * intOf view.auxv.length) +
    (20 + 2 * (a.cls.bits / 8 : ℕ) + sizeofFile a.cls * view.maps.length +
      intOf (alignUp (namesSize view.maps) 4))

/-- `note.p_filesz`, the counted size as a word of the class. -/
def storedNotesSize (view : ProcessView a) : ℕ := (countedNotesSize view % 2 ^ a.cls.bits).toNat

/-- How often an `int` that counts to `n` wraps around. -/
def intWraps (n : ℕ) : ℕ := (n + 2 ^ 31) / 2 ^ 32

/-- What the counted size lacks, in units of 4 GiB. -/
def counterWraps (view : ProcessView a) : ℕ :=
  intWraps (slotsSize a view.tasks.length) + sizeofAuxv a.cls * intWraps view.auxv.length +
    intWraps (alignUp (namesSize view.maps) 4)

/-- Every header field is the exact number: the count of the program headers that are written,
the size of the headers, and the aligned end of the notes with the sizes in front of each
segment. -/
structure HeadersExact (view : ProcessView a) (core : Dumper a × FILE) : Prop where
  phnum : ∃ written : List (Phdr a.cls),
    core.2.content = core.1.ehdr.bytes ++ written.flatMap Phdr.bytes ∧
      core.1.ehdr.e_phnum.toNat = written.length ∧
      core.1.note.p_offset.toNat = sizeofEhdr a.cls + written.length * sizeofPhdr a.cls
  load_offset : ∀ before ph after, core.1.phdr = before ++ ph :: after →
    ph.p_offset.toNat =
      alignUp (headersSize a.cls view.maps.length + notesSize view) 4096 + segmentsSize before

/-- What `DoCoredump` has when it starts to write, as far as the headers need it. -/
structure HeaderInput (view : ProcessView a) (d : Dumper a) : Prop where
  align : d.align_size = ELF_PAGE_SIZE
  phnum : d.phdr.length = view.maps.length
  unplaced : ∀ ph ∈ d.phdr, ph.p_offset = 0
  e_phnum : d.ehdr.e_phnum = BitVec.ofNat 16 (view.maps.length + 1)
  note_offset : d.note.p_offset = BitVec.ofNat a.cls.bits
    (sizeofEhdr a.cls + (view.maps.length + 1) % 2 ^ 16 * sizeofPhdr a.cls)
  note_filesz : d.note.p_filesz = 0
  fileslen : d.fileslen = BitVec.ofNat 32 (namesSize view.maps)
  extra : d.extra_note_filesz = BitVec.ofNat 32 (slotsSize a view.tasks.length)
  auxvnum : d.auxvnum = BitVec.ofNat 32 view.auxv.length

theorem collect_headerInput (hd : d0.Fresh) (h : collect d0 view = some d1) :
    HeaderInput view d1 := by
  rw [collect_gather] at h
  obtain ⟨d2, hpr, rfl⟩ := Option.map_eq_some_iff.mp h
  obtain ⟨prstatus, rfl⟩ := createCorePrStatus_frame hpr
  simp only [gather, gather_eq hd, createCoreNoteHeader, createCoreHeader, createCoreAUXV,
    List.length_map, phnum_eq]
  constructor
  case align => exact hd.align
  case phnum => exact List.length_map _
  case unplaced =>
    intro ph hph
    obtain ⟨vma, -, rfl⟩ := List.mem_map.mp hph
    rfl
  case e_phnum => rfl
  case note_offset =>
    dsimp only
    rw [setWidth_phnum, ← BitVec.ofNat_mul, ← BitVec.ofNat_add]
  case note_filesz => rfl
  case fileslen => rfl
  case extra =>
    dsimp only
    rw [hd.extra]
    exact BitVec.zero_add _
  case auxvnum =>
    dsimp only
    rw [hd.auxvnum]
    exact BitVec.zero_add _

theorem applyVmaFlag_offset {c : ElfClass} (vma_flag : BitVec 32) (ph : Phdr c) :
    (applyVmaFlag vma_flag ph).p_offset = ph.p_offset := by
  unfold applyVmaFlag
  split_ifs <;> rfl

theorem HeaderInput.filtered (h : HeaderInput view d1)
    (hfilter : specialCoreFilter d1 view.files = some d) : HeaderInput view d := by
  obtain ⟨flags, rfl⟩ := specialCoreFilter_flags hfilter
  exact { h with
    phnum := (length_applyVmaFlags flags d1.phdr).trans h.phnum
    unplaced := by
      intro ph hph
      obtain ⟨orig, horig, rfl | ⟨vma_flag, rfl⟩⟩ := mem_applyVmaFlags hph
      · exact h.unplaced ph horig
      · rw [applyVmaFlag_offset]
        exact h.unplaced orig horig }

section Counters

theorem intOf_eq (n : ℕ) : intOf n = n - 2 ^ 32 * intWraps n := by
  unfold intOf intWraps
  rw [BitVec.toInt_eq_toNat_cond, BitVec.toNat_ofNat]
  split_ifs <;> omega

theorem countedNotesSize_eq (view : ProcessView a) :
    countedNotesSize view = notesSize view - 2 ^ 32 * counterWraps view := by
  simp only [countedNotesSize, notesSize, namelessSize, counterWraps, intOf_eq]
  push_cast
  ring

theorem storedNotesSize_modEq (view : ProcessView a) :
    storedNotesSize view + 2 ^ 32 * counterWraps view ≡ notesSize view [MOD 2 ^ a.cls.bits] := by
  have hpos : (0 : ℤ) < 2 ^ a.cls.bits := by positivity
  have hstored : (storedNotesSize view : ℤ) = countedNotesSize view % 2 ^ a.cls.bits :=
    Int.toNat_of_nonneg (Int.emod_nonneg _ hpos.ne')
  rw [← Int.natCast_modEq_iff]
  simp only [Nat.cast_add, Nat.cast_mul, Nat.cast_pow, Nat.cast_ofNat]
  rw [hstored, countedNotesSize_eq]
  exact ((Int.mod_modEq _ _).add_right _).trans (by rw [sub_add_cancel])

/-- Where the first segment is placed, against the aligned end of the notes. -/
theorem placeStart_modEq (view : ProcessView a) :
    alignUp (headersSize a.cls view.maps.length + storedNotesSize view) 4096 +
        2 ^ 32 * counterWraps view ≡
      alignUp (headersSize a.cls view.maps.length + notesSize view) 4096 [MOD 2 ^ a.cls.bits] := by
  have hpage : 4096 ∣ 2 ^ 32 := by norm_num
  have hword : 4096 ∣ 2 ^ a.cls.bits := hpage.trans (Nat.pow_dvd_pow 2 a.cls.bits_ge)
  rw [Nat.add_comm, ← alignUp_add (by norm_num) (hpage.mul_right _)]
  apply alignUp_modEq (by norm_num) hword
  rw [Nat.add_left_comm, Nat.add_comm (2 ^ 32 * _)]
  exact (storedNotesSize_modEq view).add_left _

/-- The first segment is placed right exactly when what the counters lack is no part of a word. -/
theorem placeStart_exact_iff {view : ProcessView a}
    (hroom : alignUp (headersSize a.cls view.maps.length + notesSize view) 4096 <
      2 ^ a.cls.bits) :
    alignUp (headersSize a.cls view.maps.length + storedNotesSize view) 4096 % 2 ^ a.cls.bits =
        alignUp (headersSize a.cls view.maps.length + notesSize view) 4096 ↔
      2 ^ a.cls.bits ∣ 2 ^ 32 * counterWraps view := by
  have hstart := placeStart_modEq view
  generalize alignUp (headersSize a.cls view.maps.length + storedNotesSize view) 4096 = start
    at hstart ⊢
  generalize alignUp (headersSize a.cls view.maps.length + notesSize view) 4096 = exact at *
  rw [← Nat.modEq_zero_iff_dvd]
  constructor
  · intro heq
    have hsame : start ≡ exact [MOD 2 ^ a.cls.bits] := by
      rw [Nat.ModEq, heq, Nat.mod_eq_of_lt hroom]
    apply Nat.ModEq.add_left_cancel' exact
    exact (hsame.symm.add_right _).trans hstart
  · intro hlack
    have hsame : start ≡ exact [MOD 2 ^ a.cls.bits] :=
      (hlack.symm.add_left start).trans hstart
    rw [← Nat.mod_eq_of_lt hroom]
    exact hsame

theorem intWraps_eq_zero_iff (n : ℕ) : intWraps n = 0 ↔ n < 2 ^ 31 := by
  unfold intWraps
  omega

theorem counterWraps_eq_zero_iff (view : ProcessView a) :
    counterWraps view = 0 ↔ CountersFit view := by
  have hauxv : sizeofAuxv a.cls ≠ 0 := by
    rcases a.cls.cases_eq with hc | hc <;> rw [hc] <;> decide
  simp only [counterWraps, Nat.add_eq_zero_iff, Nat.mul_eq_zero, hauxv, false_or,
    intWraps_eq_zero_iff]
  exact ⟨fun ⟨⟨hslots, hauxv⟩, hnames⟩ => ⟨hslots, hnames, hauxv⟩,
    fun h => ⟨⟨h.slots, h.auxv⟩, h.names⟩⟩

/-- On lp64 a wrap of a counter shows, unless the notes have nearly 2^64 bytes. -/
theorem dvd_counterWraps_iff {view : ProcessView a} (hc : a.cls = .elf64)
    (hnotes : notesSize view < 2 ^ 63) :
    2 ^ a.cls.bits ∣ 2 ^ 32 * counterWraps view ↔ CountersFit view := by
  have hwraps : counterWraps view < 2 ^ 32 := by
    have hauxv : sizeofAuxv a.cls = 16 := by rw [hc]; rfl
    rw [notesSize, namelessSize, hauxv] at hnotes
    rw [counterWraps, hauxv]
    unfold intWraps
    omega
  have hbits : 2 ^ a.cls.bits = 2 ^ 32 * 2 ^ 32 := by rw [hc]; rfl
  rw [← counterWraps_eq_zero_iff, hbits, Nat.mul_dvd_mul_iff_left (by norm_num)]
  exact ⟨fun hdvd => Nat.eq_zero_of_dvd_of_lt hdvd hwraps, fun hzero => hzero ▸ dvd_zero _⟩

end Counters

namespace HeaderInput

/-- What `WriteCoreNoteHeader` stores in `note.p_filesz`. -/
theorem noteFilesz_toNat (h : HeaderInput view d) :
    (noteFilesz d).toNat = storedNotesSize view := by
  have hcounter (n : ℕ) : (BitVec.ofNat 32 n).signExtend a.cls.bits =
      BitVec.ofInt a.cls.bits (intOf n) := rfl
  have hword (n : ℕ) : BitVec.ofNat a.cls.bits n = BitVec.ofInt a.cls.bits n :=
    (BitVec.ofInt_natCast a.cls.bits n).symm
  have hnames : (RoundUp d.fileslen 4).signExtend a.cls.bits =
      BitVec.ofInt a.cls.bits (intOf (alignUp (namesSize view.maps) 4)) := by
    rw [h.fileslen, show (4 : BitVec 32) = BitVec.ofNat 32 (2 ^ 2) from rfl,
      RoundUp_ofNat (by norm_num), hcounter]
    rfl
  have h0 : (0 : BitVec a.cls.bits) = BitVec.ofNat _ 0 := rfl
  have h2 : (2 : BitVec a.cls.bits) = BitVec.ofNat _ 2 := rfl
  have h8 : (8 : BitVec a.cls.bits) = BitVec.ofNat _ 8 := rfl
  have hsum : noteFilesz d = BitVec.ofInt a.cls.bits (countedNotesSize view) := by
    simp only [noteFilesz, hnames, h.auxvnum, h.extra, h.note_filesz, h.phnum, hcounter, h0, h2, h8]
    simp only [← BitVec.ofNat_mul, ← BitVec.ofNat_add]
    rw [hword 0, hword (sizeofAuxv a.cls), hword sizeofNhdr, hword 8, hword (_ + _)]
    simp only [← BitVec.ofInt_add, ← BitVec.ofInt_mul]
    congr 1
    simp only [countedNotesSize, sizeofNhdr]
    push_cast
    ring
  rw [hsum, BitVec.toNat_ofInt, storedNotesSize]
  norm_cast

end HeaderInput

section Written

theorem placeSegments_dropLast {c : ElfClass} (offset : BitVec c.bits) (phdr : List (Phdr c)) :
    (placeSegments offset phdr).dropLast = placeSegments offset phdr.dropLast := by
  induction phdr generalizing offset with
  | nil => rfl
  | cons ph phdr ih =>
    cases phdr with
    | nil => rfl
    | cons p phdr =>
      have hne : placeSegments (offset + ph.p_filesz) (p :: phdr) ≠ [] := List.cons_ne_nil _ _
      rw [placeSegments, List.dropLast_cons_of_ne_nil hne, ih]
      rfl

/-- How far the loop of `WriteCoreProgramHeaders` gets; the first segment comes before it. -/
def reached (d : Dumper a) : ℕ := max 1 (tripCount (BitVec.ofNat 32 d.phdr.length))

def writtenPhdrs (d : Dumper a) : List (Phdr a.cls) :=
  placeSegments (RoundUp (d.note.p_offset + noteFilesz d) (d.align_size.setWidth a.cls.bits))
    (d.phdr.take (reached d))

theorem writeHeaders_written (d : Dumper a) {fp : FILE} (hfp : fp.Appending) :
    writeHeaders d fp =
      ({ d with
          note := { d.note with p_filesz := noteFilesz d }
          phdr := writtenPhdrs d ++ d.phdr.drop (reached d) },
        fp.append (d.ehdr.bytes ++
          ({ d.note with p_filesz := noteFilesz d } :: writtenPhdrs d).flatMap Phdr.bytes)) := by
  simp only [writeHeaders, writeCoreHeader_eq hfp, writeCoreNoteHeader]
  rw [FILE.write_eq (hfp.append _), FILE.append_append, writeCoreProgramHeaders]
  have happ := hfp.append (d.ehdr.bytes ++
    ({ d.note with p_filesz := noteFilesz d } : Phdr a.cls).bytes)
  split_ifs with hnil
  · have hnone : writtenPhdrs d = [] := by
      rw [writtenPhdrs, hnil, List.take_nil]
      rfl
    have hphdr : ({ d with note := { d.note with p_filesz := noteFilesz d } } : Dumper a).phdr =
        [] := hnil
    rw [hnone, hnil, List.drop_nil, List.nil_append, List.flatMap_singleton, ← hphdr]
  · simp only [FILE.foldl_write happ, FILE.append_append, List.flatMap_cons, List.append_assoc]
    rfl

theorem length_writtenPhdrs (d : Dumper a) :
    (writtenPhdrs d).length = min (reached d) d.phdr.length := by
  rw [writtenPhdrs, length_placeSegments, List.length_take]

/-- The loop gets to the end of a list whose length fits `int`, and of no longer one. -/
theorem reached_iff (d : Dumper a) : d.phdr.length ≤ reached d ↔ d.phdr.length < 2 ^ 31 := by
  have hlt : tripCount (BitVec.ofNat 32 d.phdr.length) < 2 ^ 31 := by
    rw [tripCount_eq]
    split_ifs <;> omega
  constructor
  · intro hle
    unfold reached at hle
    omega
  · intro hfit
    unfold reached
    rw [tripCount_ofNat hfit]
    omega

theorem flatMap_phdrBytes_length {c : ElfClass} {xs ys : List (Phdr c)}
    (h : xs.flatMap Phdr.bytes = ys.flatMap Phdr.bytes) : xs.length = ys.length := by
  have hlen := congrArg List.length h
  rw [length_flatMap_const _ _ _ fun ph _ => length_phdrBytes ph,
    length_flatMap_const _ _ _ fun ph _ => length_phdrBytes ph] at hlen
  apply Nat.eq_of_mul_eq_mul_right _ hlen
  cases c with
  | elf32 => decide
  | elf64 => decide

/-- The file after the headers holds the note header and those of the written segments. -/
theorem headersExact_iff_written {d : Dumper a} {plan : ℕ → WriteResult}
    (hplan : ∀ k, plan k = .ok) :
    HeadersExact view (writeHeaders d (FILE.create plan)) ↔
      d.ehdr.e_phnum.toNat = (writtenPhdrs d).length + 1 ∧
        d.note.p_offset.toNat =
          sizeofEhdr a.cls + ((writtenPhdrs d).length + 1) * sizeofPhdr a.cls ∧
        ∀ before ph after, writtenPhdrs d ++ d.phdr.drop (reached d) = before ++ ph :: after →
          ph.p_offset.toNat =
            alignUp (headersSize a.cls view.maps.length + notesSize view) 4096 +
              segmentsSize before := by
  have hfile (b : Bytes) : ((FILE.create plan).append b).content = b := by
    rw [FILE.content_append]
    rfl
  rw [writeHeaders_written d (FILE.appending_create hplan)]
  constructor
  · rintro ⟨⟨written, hcontent, hphnum, hoffset⟩, hload⟩
    rw [hfile] at hcontent
    have hlen := flatMap_phdrBytes_length (List.append_cancel_left hcontent)
    rw [List.length_cons] at hlen
    rw [← hlen] at hphnum hoffset
    exact ⟨hphnum, hoffset, hload⟩
  · rintro ⟨hphnum, hoffset, hload⟩
    exact ⟨⟨_, hfile _, hphnum, hoffset⟩, hload⟩

end Written

section Exact

variable {plan : ℕ → WriteResult}

theorem segmentsSize_written (h : d.phdr.length < 2 ^ 31) :
    writtenPhdrs d ++ d.phdr.drop (reached d) = writtenPhdrs d ∧
      segmentsSize (writtenPhdrs d).dropLast = segmentsSize d.phdr.dropLast := by
  have hle := (reached_iff d).mpr h
  constructor
  · rw [List.drop_of_length_le hle, List.append_nil]
  · rw [writtenPhdrs, List.take_of_length_le hle, placeSegments_dropLast,
      segmentsSize_placeSegments]

theorem placeStart_eq (h : HeaderInput view d) :
    RoundUp (d.note.p_offset + noteFilesz d) (d.align_size.setWidth a.cls.bits) =
      BitVec.ofNat a.cls.bits
        (alignUp (d.note.p_offset.toNat + (noteFilesz d).toNat) 4096) := by
  have hbits := a.cls.bits_ge
  change _ = BitVec.ofNat a.cls.bits (alignUp _ (2 ^ 12))
  rw [alignSize_eq h.align, ← RoundUp_ofNat (by omega), BitVec.ofNat_add, BitVec.ofNat_toNat,
    BitVec.ofNat_toNat, BitVec.setWidth_eq, BitVec.setWidth_eq]

/-- A segment that the loop does not get to keeps the offset zero. -/
theorem reached_of_headersExact (h : HeaderInput view d) (hplan : ∀ k, plan k = .ok)
    (hexact : HeadersExact view (writeHeaders d (FILE.create plan))) : d.phdr.length < 2 ^ 31 := by
  obtain ⟨-, -, hload⟩ := (headersExact_iff_written hplan).mp hexact
  apply (reached_iff d).mp
  by_contra hlt
  have hdrop : d.phdr.drop (reached d) =
      d.phdr[reached d] :: d.phdr.drop (reached d + 1) := List.drop_eq_getElem_cons (by omega)
  have hzero := hload _ _ _ (congrArg (writtenPhdrs d ++ ·) hdrop)
  rw [h.unplaced _ (List.getElem_mem _)] at hzero
  have hpos := le_alignUp (v := headersSize a.cls view.maps.length + notesSize view) (n := 4096)
    (by norm_num)
  have hehdr : 0 < headersSize a.cls view.maps.length := by
    rw [headersSize]
    rcases a.cls.cases_eq with hc | hc <;> rw [hc, sizeofEhdr] <;> omega
  have hword : (0 : BitVec a.cls.bits).toNat = 0 := rfl
  omega

theorem phnum_of_headersExact (h : HeaderInput view d) (hplan : ∀ k, plan k = .ok)
    (hexact : HeadersExact view (writeHeaders d (FILE.create plan))) :
    view.maps.length + 1 < 2 ^ 16 := by
  have hfit := reached_of_headersExact h hplan hexact
  have hreached := (reached_iff d).mpr hfit
  obtain ⟨hphnum, -, -⟩ := (headersExact_iff_written hplan).mp hexact
  rw [length_writtenPhdrs, min_eq_right hreached, h.e_phnum, h.phnum, BitVec.toNat_ofNat] at hphnum
  omega

theorem note_offset_exact (h : HeaderInput view d) (hphnum : view.maps.length + 1 < 2 ^ 16) :
    d.note.p_offset.toNat = headersSize a.cls view.maps.length := by
  have hpow : 2 ^ 32 ≤ 2 ^ a.cls.bits := Nat.pow_le_pow_right (by norm_num) a.cls.bits_ge
  have hsizes : sizeofEhdr a.cls ≤ 64 ∧ sizeofPhdr a.cls ≤ 56 := by
    rcases a.cls.cases_eq with hc | hc <;> rw [hc] <;> decide
  have hmul := Nat.mul_le_mul_left (view.maps.length + 1) hsizes.2
  rw [h.note_offset, Nat.mod_eq_of_lt hphnum, toNat_ofNat_of_lt (by omega), headersSize]

theorem segmentsSize_before_le {c : ElfClass} {phdr before after : List (Phdr c)} {ph : Phdr c}
    (hsplit : phdr = before ++ ph :: after) : segmentsSize before ≤ segmentsSize phdr.dropLast := by
  rw [hsplit, List.dropLast_append_of_ne_nil (List.cons_ne_nil ph after), segmentsSize_append]
  exact Nat.le_add_right _ _

theorem written_offset (h : HeaderInput view d) (hphnum : view.maps.length + 1 < 2 ^ 16)
    {before after : List (Phdr a.cls)} {ph : Phdr a.cls}
    (hsplit : writtenPhdrs d = before ++ ph :: after) :
    ph.p_offset.toNat =
      (alignUp (headersSize a.cls view.maps.length + storedNotesSize view) 4096 +
        segmentsSize before) % 2 ^ a.cls.bits := by
  rw [writtenPhdrs, placeStart_eq h, note_offset_exact h hphnum, h.noteFilesz_toNat] at hsplit
  rw [placeSegments_offset hsplit, BitVec.toNat_ofNat]

/-- The header fields are exact as long as the count fits 16 bits, the sum in front of the last
segment fits a word of the class, and the word loses nothing by the wraps of the counters. -/
theorem headersExact_iff (hd : d0.Fresh) (hcollect : collect d0 view = some d1)
    (hfilter : specialCoreFilter d1 view.files = some d) (hplan : ∀ k, plan k = .ok) :
    HeadersExact view (writeHeaders d (FILE.create plan)) ↔
      view.maps.length + 1 < 2 ^ 16 ∧
        (view.maps ≠ [] → 2 ^ a.cls.bits ∣ 2 ^ 32 * counterWraps view ∧
          alignUp (headersSize a.cls view.maps.length + notesSize view) 4096 +
            segmentsSize d.phdr.dropLast < 2 ^ a.cls.bits) := by
  have h := (collect_headerInput hd hcollect).filtered hfilter
  constructor
  · intro hexact
    have hphnum := phnum_of_headersExact h hplan hexact
    refine ⟨hphnum, fun hmaps => ?_⟩
    obtain ⟨hall, hsize⟩ := segmentsSize_written (reached_of_headersExact h hplan hexact)
    obtain ⟨-, -, hload⟩ := (headersExact_iff_written hplan).mp hexact
    rw [hall] at hload
    have hne : writtenPhdrs d ≠ [] := by
      have hpos := List.length_pos_of_ne_nil hmaps
      apply List.ne_nil_of_length_pos
      rw [length_writtenPhdrs, h.phnum]
      exact lt_min (Nat.lt_of_lt_of_le Nat.one_pos (le_max_left _ _)) hpos
    have hroom : alignUp (headersSize a.cls view.maps.length + notesSize view) 4096 +
        segmentsSize d.phdr.dropLast < 2 ^ a.cls.bits := by
      rw [← hsize, ← hload _ _ _ (List.dropLast_append_getLast hne).symm]
      exact BitVec.isLt _
    refine ⟨?_, hroom⟩
    -- the first segment shows what the counters have lost
    have hfirst : writtenPhdrs d = [] ++ (writtenPhdrs d).head hne :: (writtenPhdrs d).tail :=
      (List.cons_head_tail hne).symm
    have hstart := (written_offset h hphnum hfirst).symm.trans (hload _ _ _ hfirst)
    have hnil : segmentsSize ([] : List (Phdr a.cls)) = 0 := rfl
    rw [hnil, Nat.add_zero, Nat.add_zero] at hstart
    exact (placeStart_exact_iff (by omega)).mp hstart
  · rintro ⟨hphnum, hroom⟩
    have hfit : d.phdr.length < 2 ^ 31 := by
      rw [h.phnum]
      omega
    obtain ⟨hall, hsize⟩ := segmentsSize_written hfit
    have hcount : (writtenPhdrs d).length = view.maps.length := by
      rw [length_writtenPhdrs, min_eq_right ((reached_iff d).mpr hfit), h.phnum]
    rw [headersExact_iff_written hplan, hcount, hall]
    refine ⟨?_, note_offset_exact h hphnum, fun before ph after hsplit => ?_⟩
    · rw [h.e_phnum, toNat_ofNat_of_lt hphnum]
    · have hmaps : view.maps ≠ [] := by
        intro hnil
        rw [hsplit, hnil] at hcount
        simp at hcount
      obtain ⟨hlack, hlt⟩ := hroom hmaps
      have hle := segmentsSize_before_le hsplit
      rw [hsize] at hle
      have hstart := (placeStart_exact_iff (by omega)).mpr hlack
      rw [written_offset h hphnum hsplit, ← Nat.mod_add_mod, hstart, Nat.mod_eq_of_lt (by omega)]

end Exact

theorem pagesProcess_input (n : ℕ) :
    ∃ d, collect (Dumper.new .arm64 4096) (pagesProcess .arm64 n) = some d ∧
      specialCoreFilter d (pagesProcess .arm64 n).files = some d := by
  obtain ⟨d, hcollect, -, -, -, hkeep, -⟩ := doCoredump_unfiltered (fresh_new .arm64 4096) rfl
    (pagesProcess .arm64 n) (by change 0 < 2 ^ 31; norm_num) fun _ => .ok
  exact ⟨d, hcollect, hkeep⟩

theorem headersExact_page :
    ∃ d, collect (Dumper.new .arm64 4096) (pagesProcess .arm64 1) = some d ∧
      HeadersExact (pagesProcess .arm64 1) (writeHeaders d (FILE.create fun _ => .ok)) := by
  obtain ⟨d, hcollect, hkeep⟩ := pagesProcess_input 1
  refine ⟨d, hcollect, (headersExact_iff (fresh_new .arm64 4096) hcollect hkeep
    fun _ => rfl).mpr ⟨by decide, fun _ => ⟨?_, ?_⟩⟩⟩
  · have hfits : CountersFit (pagesProcess .arm64 1) := by
      constructor <;> decide +kernel
    rw [(counterWraps_eq_zero_iff _).mpr hfits]
    exact dvd_zero _
  · have hnotes : notesSize (pagesProcess .arm64 1) = 84 := by decide +kernel
    have hlen : d.phdr.length = 1 :=
      (collect_headerInput (fresh_new .arm64 4096) hcollect).phnum
    obtain ⟨ph, hph⟩ := List.length_eq_one_iff.mp hlen
    rw [hnotes, hph, List.dropLast_singleton]
    decide +kernel

/-- With 65535 mappings the count of program headers is stored as zero. -/
theorem headers_truncated :
    ∃ d, collect (Dumper.new .arm64 4096) (pagesProcess .arm64 65535) = some d ∧
      specialCoreFilter d (pagesProcess .arm64 65535).files = some d ∧ d.phdr.length = 65535 ∧
      d.ehdr.e_phnum = 0 ∧
      ¬ HeadersExact (pagesProcess .arm64 65535) (writeHeaders d (FILE.create fun _ => .ok)) := by
  obtain ⟨d, hcollect, hkeep⟩ := pagesProcess_input 65535
  have h := collect_headerInput (fresh_new .arm64 4096) hcollect
  have hcount := pagesProcess_length .arm64 65535
  refine ⟨d, hcollect, hkeep, h.phnum.trans hcount, ?_, fun hexact => ?_⟩
  · rw [h.e_phnum, hcount]
    rfl
  · have hfit := phnum_of_headersExact h (fun _ => rfl) hexact
    rw [hcount] at hfit
    exact absurd hfit (by decide)

end Opencore
