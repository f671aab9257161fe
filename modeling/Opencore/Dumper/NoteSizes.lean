import Opencore.Dumper.NoteSegment

/-! The sizes that the headers promise, as numbers: without overflow they are the sizes of
what the writers put into the file. -/
namespace Opencore
open Machine Elf

variable {a : Arch}

/-- Bytes of the notes with the last one padded, as `p_filesz` counts them. -/
def notesSize (view : ProcessView a) : ℕ := namelessSize view + alignUp (namesSize view.maps) 4

def loadStart (view : ProcessView a) : ℕ :=
  alignUp (headersSize a.cls view.maps.length + writtenSize view) 4096

/-- The `int` counters hold what they count. -/
structure CountersFit (view : ProcessView a) : Prop where
  slots : slotsSize a view.tasks.length < 2 ^ 31
  names : alignUp (namesSize view.maps) 4 < 2 ^ 31
  auxv : view.auxv.length < 2 ^ 31

/-- The sizes that the headers promise are computed without overflow. -/
structure NotesFit (view : ProcessView a) : Prop where
  phnum : view.maps.length + 1 < 2 ^ 16
  counters : a.cls = .elf64 → CountersFit view
  total : headersSize a.cls view.maps.length + notesSize view < 2 ^ a.cls.bits

theorem slotsSize_spec (a : Arch) (n : ℕ) : 4 ∣ slotsSize a n ∧ 164 * n ≤ slotsSize a n := by
  unfold slotsSize
  cases a <;> simp only [slotSize] <;> split_ifs <;> omega

theorem four_dvd_nameless (view : ProcessView a) :
    4 ∣ headersSize a.cls view.maps.length + namelessSize view := by
  obtain ⟨hslots, -⟩ := slotsSize_spec a view.tasks.length
  obtain ⟨hehdr, hphdr, hauxv, hword, hfile⟩ := sizes_spec a.cls
  have hphdrs := hphdr.mul_left (view.maps.length + 1)
  have hauxvs := hauxv.mul_right view.auxv.length
  have hfiles := hfile.mul_right view.maps.length
  unfold headersSize namelessSize
  omega

/-- The padding of the last note does not move the first segment. -/
theorem loadStart_eq (view : ProcessView a) :
    alignUp (headersSize a.cls view.maps.length + notesSize view) 4096 = loadStart view := by
  unfold loadStart notesSize writtenSize
  rw [← Nat.add_assoc, ← Nat.add_assoc, ← alignUp_add (by norm_num) (four_dvd_nameless view),
    alignUp_alignUp (by norm_num) (by norm_num) (by norm_num)]

theorem le_loadStart (view : ProcessView a) :
    headersSize a.cls view.maps.length + notesSize view ≤ loadStart view :=
  loadStart_eq view ▸ le_alignUp (by norm_num)

theorem written_le_loadStart (view : ProcessView a) :
    headersSize a.cls view.maps.length + writtenSize view ≤ loadStart view :=
  le_alignUp (by norm_num)

theorem writtenSize_le (view : ProcessView a) : writtenSize view ≤ notesSize view :=
  Nat.add_le_add_left (le_alignUp (by norm_num)) _

/-- On lp32 an `int` already has the width of the file offsets. -/
theorem signExtend_counter {c : ElfClass} {v : ℕ} (hv : c = .elf64 → v < 2 ^ 31) :
    (BitVec.ofNat 32 v).signExtend c.bits = BitVec.ofNat c.bits v := by
  cases c with
  | elf32 => exact BitVec.signExtend_eq _
  | elf64 => exact signExtend_ofNat (by decide) (hv rfl)

namespace NotesFit

variable {view : ProcessView a}

/-- On lp64 a bound comes from the counters, on lp32 from the total size. -/
theorem lt_of {v bound : ℕ} (h : NotesFit view) (h64 : CountersFit view → v < bound)
    (h32 : headersSize a.cls view.maps.length + notesSize view < 2 ^ 32 → v < bound) :
    v < bound := by
  have hlt := h.total
  cases hc : a.cls with
  | elf64 => exact h64 (h.counters hc)
  | elf32 =>
    refine h32 (hlt.trans_eq ?_)
    rw [hc]
    rfl

theorem tasks (h : NotesFit view) : view.tasks.length < 2 ^ 31 := by
  obtain ⟨-, hslots⟩ := slotsSize_spec a view.tasks.length
  refine h.lt_of (fun hc => ?_) (fun hlt => ?_)
  · have := hc.slots
    omega
  · unfold notesSize namelessSize at hlt
    omega

theorem auxv (h : NotesFit view) : view.auxv.length < 2 ^ 31 := by
  have hsize : 8 ≤ sizeofAuxv a.cls := by cases a <;> decide
  have hmul := Nat.mul_le_mul_right view.auxv.length hsize
  refine h.lt_of CountersFit.auxv (fun hlt => ?_)
  unfold notesSize namelessSize at hlt
  omega

theorem loops (h : NotesFit view) : LoopsFit view :=
  ⟨by have := h.phnum; omega, h.tasks, h.auxv⟩

end NotesFit

/-- Bytes of the notes without the names of NT_FILE, as the counters have them. -/
def countedSize (c : ElfClass) (extra auxvnum phnum : ℕ) : ℕ :=
  extra + (20 + sizeofAuxv c * auxvnum) + (20 + 2 * (c.bits / 8) + sizeofFile c * phnum)

/-- The numbers in the counters of a dumper; on lp64 each stays within `int`. -/
structure Counters (d : Dumper a) (extra auxvnum names : ℕ) : Prop where
  extra_eq : d.extra_note_filesz = BitVec.ofNat 32 extra
  auxvnum_eq : d.auxvnum = BitVec.ofNat 32 auxvnum
  names_eq : d.fileslen = BitVec.ofNat 32 names
  extra_lt : a.cls = .elf64 → extra < 2 ^ 31
  auxvnum_lt : a.cls = .elf64 → auxvnum < 2 ^ 31
  names_lt : a.cls = .elf64 → alignUp names 4 < 2 ^ 31

theorem Collected.counters {view : ProcessView a} {d : Dumper a} (h : Collected view d)
    (hfit : a.cls = .elf64 → CountersFit view) :
    Counters d (slotsSize a view.tasks.length) view.auxv.length (namesSize view.maps) where
  extra_eq := h.extra
  auxvnum_eq := h.auxvnum
  names_eq := h.fileslen
  extra_lt := fun hc => (hfit hc).slots
  auxvnum_lt := fun hc => (hfit hc).auxv
  names_lt := fun hc => (hfit hc).names

theorem alignSize_eq {d : Dumper a} (halign : d.align_size = ELF_PAGE_SIZE) :
    d.align_size.setWidth a.cls.bits = BitVec.ofNat a.cls.bits (2 ^ 12) := by
  rw [halign, ELF_PAGE_SIZE]
  exact setWidth_ofNat_of_lt (by norm_num)

namespace Counters

variable {d : Dumper a} {extra auxvnum names : ℕ}

theorem paddedNames (h : Counters d extra auxvnum names) :
    (RoundUp d.fileslen 4).signExtend a.cls.bits = BitVec.ofNat a.cls.bits (alignUp names 4) := by
  rw [h.names_eq, show (4 : BitVec 32) = BitVec.ofNat 32 (2 ^ 2) from rfl,
    RoundUp_ofNat (by norm_num)]
  exact signExtend_counter h.names_lt

theorem noteFilesz_eq (h : Counters d extra auxvnum names) (hz : d.note.p_filesz = 0) :
    noteFilesz d = BitVec.ofNat a.cls.bits
      (countedSize a.cls extra auxvnum d.phdr.length + alignUp names 4) := by
  have hauxv : d.auxvnum.signExtend a.cls.bits = BitVec.ofNat a.cls.bits auxvnum := by
    rw [h.auxvnum_eq]
    exact signExtend_counter h.auxvnum_lt
  have hextra : d.extra_note_filesz.signExtend a.cls.bits = BitVec.ofNat a.cls.bits extra := by
    rw [h.extra_eq]
    exact signExtend_counter h.extra_lt
  have h0 : (0 : BitVec a.cls.bits) = BitVec.ofNat _ 0 := rfl
  have h2 : (2 : BitVec a.cls.bits) = BitVec.ofNat _ 2 := rfl
  have h8 : (8 : BitVec a.cls.bits) = BitVec.ofNat _ 8 := rfl
  simp only [noteFilesz, hauxv, hextra, h.paddedNames, hz, h0, h2, h8, ← BitVec.ofNat_mul,
    ← BitVec.ofNat_add]
  congr 1
  simp only [countedSize, sizeofNhdr]
  ring

theorem notePadding_eq (h : Counters d extra auxvnum names) (hz : d.note.p_filesz = 0)
    (halign : d.align_size = ELF_PAGE_SIZE) {offset : ℕ}
    (hoffset : d.note.p_offset = BitVec.ofNat a.cls.bits offset) :
    notePadding (placed d) =
      alignUp (offset + (countedSize a.cls extra auxvnum d.phdr.length + names)) 4096 -
        (offset + (countedSize a.cls extra auxvnum d.phdr.length + names)) := by
  have hbits := a.cls.bits_ge
  have hle := le_alignUp (v := names) (n := 4) (by norm_num)
  have hnames : d.fileslen.signExtend a.cls.bits = BitVec.ofNat a.cls.bits names := by
    rw [h.names_eq]
    exact signExtend_counter fun hc => hle.trans_lt (h.names_lt hc)
  have hunpadded : d.note.p_offset + (noteFilesz d - (RoundUp d.fileslen 4).signExtend a.cls.bits +
      d.fileslen.signExtend a.cls.bits) = BitVec.ofNat a.cls.bits
        (offset + (countedSize a.cls extra auxvnum d.phdr.length + names)) := by
    rw [hoffset, h.noteFilesz_eq hz, h.paddedNames, hnames, ofNat_sub_of_le (Nat.le_add_left _ _),
      Nat.add_sub_cancel, ← BitVec.ofNat_add, ← BitVec.ofNat_add]
  generalize offset + (countedSize a.cls extra auxvnum d.phdr.length + names) = size at hunpadded ⊢
  have hstart : RoundUp (BitVec.ofNat a.cls.bits size) (BitVec.ofNat a.cls.bits (2 ^ 12)) =
      BitVec.ofNat a.cls.bits (alignUp size 4096) := RoundUp_ofNat (by omega) _
  have hpage := alignUp_lt (v := size) (n := 4096) (by norm_num)
  have hwidth : 2 ^ 32 ≤ 2 ^ a.cls.bits := Nat.pow_le_pow_right (by norm_num) hbits
  have hpadding : alignUp size 4096 - size < 2 ^ a.cls.bits := by omega
  simp only [notePadding, placed, hunpadded, alignSize_eq halign, hstart,
    ofNat_sub_of_le (le_alignUp (v := size) (n := 4096) (by norm_num)), toNat_ofNat_of_lt hpadding]

end Counters

theorem noteFilesz_eq {view : ProcessView a} {d : Dumper a} (h : Collected view d)
    (hz : d.note.p_filesz = 0) (hcounters : a.cls = .elf64 → CountersFit view) :
    noteFilesz d = BitVec.ofNat a.cls.bits (notesSize view) := by
  rw [(h.counters hcounters).noteFilesz_eq hz, h.phnum]
  rfl

theorem note_offset_eq {view : ProcessView a} {d : Dumper a} (h : Collected view d)
    (hfit : NotesFit view) :
    d.note.p_offset = BitVec.ofNat a.cls.bits (headersSize a.cls view.maps.length) := by
  rw [h.note_offset, Nat.mod_eq_of_lt hfit.phnum, headersSize]

theorem placed_phdr_eq {view : ProcessView a} {d : Dumper a} (h : Collected view d)
    (hz : d.note.p_filesz = 0) (hfit : NotesFit view) :
    (placed d).phdr = placeSegments (BitVec.ofNat a.cls.bits (loadStart view)) d.phdr := by
  have hstart : RoundUp (d.note.p_offset + noteFilesz d) (d.align_size.setWidth a.cls.bits) =
      BitVec.ofNat a.cls.bits (loadStart view) := by
    rw [note_offset_eq h hfit, noteFilesz_eq h hz hfit.counters, alignSize_eq h.align,
      ← BitVec.ofNat_add,
      RoundUp_ofNat (by have := a.cls.bits_ge; omega), ← loadStart_eq]
    rfl
  rw [placed, hstart]

theorem notePadding_eq {view : ProcessView a} {d : Dumper a} (h : Collected view d)
    (hz : d.note.p_filesz = 0) (hfit : NotesFit view) :
    notePadding (placed d) =
      loadStart view - (headersSize a.cls view.maps.length + writtenSize view) := by
  rw [(h.counters hfit.counters).notePadding_eq hz h.align (note_offset_eq h hfit), h.phnum]
  rfl

/-- On lp64 the counters leave the total far below the width of the file offsets. -/
theorem loadStart_lt_of_counters {view : ProcessView a} (hc : a.cls = .elf64)
    (h : CountersFit view) (hphnum : view.maps.length + 1 < 2 ^ 16) : loadStart view < 2 ^ 40 := by
  have hlt := alignUp_lt (v := headersSize a.cls view.maps.length + writtenSize view) (n := 4096)
    (by norm_num)
  have hnames := (le_alignUp (v := namesSize view.maps) (n := 4) (by norm_num)).trans_lt h.names
  have hslots := h.slots
  have hauxv := h.auxv
  unfold loadStart
  refine hlt.trans ?_
  simp only [headersSize, writtenSize, namelessSize, hc, sizeofEhdr, sizeofPhdr, sizeofAuxv,
    sizeofFile, ElfClass.bits]
  omega

end Opencore
