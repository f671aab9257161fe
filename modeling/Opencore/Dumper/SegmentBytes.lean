import Opencore.Dumper.FailingWrites
import Opencore.Dumper.MemoryImage

/-! How many bytes the two loops of `WriteCoreLoadSegment` emit for one segment, against the
`p_filesz` that its header announces. -/
namespace Opencore
open Machine Elf

variable {c : ElfClass} {mem : ProcMem} {ph : Phdr c}

/-- The loop that fills a segment with zeros, on the rewound stream. -/
def zeroFill (ph : Phdr c) (fp : FILE) : FILE :=
  (List.range (pages ph)).foldl (fun fp _ => fp.write (zeros ELF_PAGE_SIZE.toNat)) fp

/-- A segment that no write fails in is its data loop. -/
theorem writeSegment_done {fp fp' : FILE} (h : pageLoop mem ph fp = (.done, fp')) :
    writeSegment mem ELF_PAGE_SIZE ph fp = (false, fp') := by
  unfold pageLoop pages at h
  rw [writeSegment, h]

/-- A segment that is blanked ends with its zero-fill loop. -/
theorem writeSegment_blanked {fp fp' : FILE} (h : pageLoop mem ph fp = (.failed, fp'))
    (hpos : fp.ftell c.bits > 0) :
    writeSegment mem ELF_PAGE_SIZE ph fp =
      (false, zeroFill ph (fp'.fseek (fp.ftell c.bits).toNat)) := by
  unfold pageLoop pages at h
  rw [writeSegment, h]
  simp only [if_pos hpos]
  rfl

/-- A filtered header of an area of whole pages. -/
theorem pagedPhdr_applyVmaFlag {vma : VirtualMemoryArea}
    (hwhole : 4096 ∣ (vma.endAddr.setWidth c.bits - vma.beginAddr.setWidth c.bits).toNat)
    (vma_flag : BitVec 32) (ph : Phdr c) :
    PagedPhdr (applyVmaFlag vma_flag (parserPhdr ELF_PAGE_SIZE vma ph)) where
  kept := by
    rw [applyVmaFlag_filesz, applyVmaFlag_memsz]
    split_ifs
    · exact Or.inr rfl
    · exact Or.inl rfl
    · exact Or.inr rfl
  whole := by
    rw [applyVmaFlag_memsz]
    exact hwhole
  align := by
    rw [applyVmaFlag_align]
    exact setWidth_ofNat_of_lt (by decide)

section Position

theorem pos_write {fp : FILE} (hok : ∀ n, fp.plan n = .ok) (b : Bytes) :
    (fp.write b).pos = fp.pos + b.length ∧ ∀ n, (fp.write b).plan n = .ok := by
  rw [FILE.write, FILE.fwrite_ok (hok 0)]
  exact ⟨rfl, fun n => hok (n + 1)⟩

theorem pageLoop_ok (mem : ProcMem) (halign : ph.p_align = BitVec.ofNat c.bits 4096) {fp : FILE}
    (hok : ∀ n, fp.plan n = .ok) :
    ∃ fp', pageLoop mem ph fp = (.done, fp') ∧ fp'.pos = fp.pos + pages ph * 4096 := by
  unfold pageLoop
  generalize pages ph = n, 0 = i
  induction n generalizing i fp with
  | zero => exact ⟨fp, rfl, by rw [Nat.zero_mul, Nat.add_zero]⟩
  | succ n ih =>
    have hpage := length_readPage mem halign i
    obtain ⟨hpos, hplan⟩ := pos_write hok (readPage mem ELF_PAGE_SIZE ph i)
    obtain ⟨fp', hloop, hend⟩ := ih hplan (i + 1)
    refine ⟨fp', ?_, ?_⟩
    · rw [FILE.write, FILE.fwrite_ok (hok 0)] at hloop
      rw [writePages, FILE.fwrite_ok (hok 0)]
      exact hloop
    · rw [hend, hpos, hpage]
      ring

theorem pos_foldl_write {α : Type*} (b : Bytes) (xs : List α) {fp : FILE}
    (hok : ∀ n, fp.plan n = .ok) :
    (xs.foldl (fun fp _ => fp.write b) fp).pos = fp.pos + xs.length * b.length := by
  induction xs generalizing fp with
  | nil => rw [List.length_nil, Nat.zero_mul, Nat.add_zero, List.foldl_nil]
  | cons x xs ih =>
    obtain ⟨hpos, hplan⟩ := pos_write hok b
    rw [List.foldl_cons, ih hplan, hpos, List.length_cons]
    ring

theorem pos_zeroFill (ph : Phdr c) {fp : FILE} (hok : ∀ n, fp.plan n = .ok) :
    (zeroFill ph fp).pos = fp.pos + pages ph * 4096 := by
  rw [zeroFill, pos_foldl_write _ _ hok, List.length_range, length_zeros]
  rfl

end Position

/-- Each of the two loops, on any stream whose writes succeed, emits the announced bytes. -/
def EmitsFilesz (mem : ProcMem) (ph : Phdr c) : Prop :=
  (∀ fp : FILE, (∀ n, fp.plan n = .ok) →
      (pageLoop mem ph fp).2.pos = fp.pos + ph.p_filesz.toNat) ∧
    ∀ fp : FILE, (∀ n, fp.plan n = .ok) → (zeroFill ph fp).pos = fp.pos + ph.p_filesz.toNat

theorem emitsFilesz_iff_pages (mem : ProcMem) (hpaged : PagedPhdr ph) :
    EmitsFilesz mem ph ↔ pages ph * 4096 = ph.p_filesz.toNat := by
  constructor
  · intro h
    have hfill := h.2 (FILE.create fun _ => .ok) fun _ => rfl
    rw [pos_zeroFill ph fun _ => rfl] at hfill
    exact Nat.add_left_cancel hfill
  · intro hpages
    constructor
    · intro fp hok
      obtain ⟨fp', hloop, hpos⟩ := pageLoop_ok mem hpaged.align hok
      rw [hloop, hpos, hpages]
    · intro fp hok
      rw [pos_zeroFill ph hok, hpages]

/-- A kept segment has the announced length in the file exactly below 8 TiB. -/
theorem emitsFilesz_iff {ph : Phdr .elf64} (mem : ProcMem) (hpaged : PagedPhdr ph)
    (hkept : 0 < ph.p_filesz.toNat) : EmitsFilesz mem ph ↔ ph.p_memsz.toNat < 2 ^ 43 := by
  rw [emitsFilesz_iff_pages mem hpaged, hpaged.size hkept]
  exact pages_iff hpaged

def keptPhdr (size : ℕ) : Phdr .elf64 where
  p_type := PT_LOAD
  p_filesz := BitVec.ofNat 64 size
  p_memsz := BitVec.ofNat 64 size
  p_align := BitVec.ofNat 64 4096

theorem emitsFilesz_page : EmitsFilesz (markedMem 0) (keptPhdr 4096) := by
  have hpaged : PagedPhdr (keptPhdr 4096) := ⟨Or.inr rfl, by decide, rfl⟩
  exact (emitsFilesz_iff (markedMem 0) hpaged (by decide)).mpr (by decide)

/-- A segment of 8 TiB is announced in full, and none of its pages is written. -/
theorem not_emitsFilesz_terabytes :
    PagedPhdr (keptPhdr (2 ^ 43)) ∧ (keptPhdr (2 ^ 43)).p_filesz.toNat = 2 ^ 43 ∧
      ¬ EmitsFilesz (markedMem 0) (keptPhdr (2 ^ 43)) := by
  have hpaged : PagedPhdr (keptPhdr (2 ^ 43)) := ⟨Or.inr rfl, by decide, rfl⟩
  have hsize : (keptPhdr (2 ^ 43)).p_memsz.toNat = 2 ^ 43 := by decide
  have hpages : pages (keptPhdr (2 ^ 43)) = 0 := by
    rw [pages_eq, hsize]
    norm_num
  refine ⟨hpaged, by decide, ?_⟩
  rw [emitsFilesz_iff_pages _ hpaged, hpages]
  decide

end Opencore
