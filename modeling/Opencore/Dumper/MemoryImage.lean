import Opencore.Dumper.Collected

/-! The memory image: which page of the process ends up in which block of a segment. The
page offset is a product of two 32-bit words, so it is exact below 4 GiB only. -/
namespace Opencore
open Machine Elf

/-- The memory at `addr`, with zeros where it cannot be read. -/
def pageAt (mem : ProcMem) (addr : BitVec 64) : Bytes :=
  match mem.pread64 addr 4096 with
  | none => zeros 4096
  | some b => b ++ zeros (4096 - b.length)

theorem length_pageAt (mem : ProcMem) (addr : BitVec 64) : (pageAt mem addr).length = 4096 := by
  unfold pageAt
  split
  · exact length_zeros 4096
  · next b hb =>
    have := mem.bounded addr 4096 b hb
    rw [List.length_append, length_zeros]
    omega

/-- The address at an offset, computed in 64 bits. -/
def addrAt (p_vaddr : BitVec 64) (offset : ℕ) : BitVec 64 := p_vaddr + BitVec.ofNat 64 offset

theorem readPage_pageAt {c : ElfClass} (mem : ProcMem) {ph : Phdr c}
    (halign : ph.p_align.toNat = 4096) (k : ℕ) :
    readPage mem ELF_PAGE_SIZE ph k = pageAt mem
      ((ph.p_vaddr + (BitVec.ofNat 32 k * ELF_PAGE_SIZE).setWidth c.bits).setWidth 64) := by
  have hpage : ELF_PAGE_SIZE.toNat = 4096 := rfl
  have hzeros (n : ℕ) : (zeros 4096).drop n = zeros (4096 - n) := List.drop_replicate
  unfold readPage pageAt
  dsimp only
  rw [halign, hpage]
  cases mem.pread64 ((ph.p_vaddr + (BitVec.ofNat 32 k * ELF_PAGE_SIZE).setWidth c.bits).setWidth
    64) 4096 with
  | none => rfl
  | some b => exact congrArg (b ++ ·) (hzeros b.length)

/-- Page `k` is read at an offset taken modulo 4 GiB. -/
theorem readPage_eq (mem : ProcMem) {ph : Phdr .elf64} (halign : ph.p_align = 4096) (k : ℕ) :
    readPage mem ELF_PAGE_SIZE ph k =
      pageAt mem (addrAt ph.p_vaddr (k * 4096 % 2 ^ 32)) := by
  have hoffset : (BitVec.ofNat 32 k * ELF_PAGE_SIZE).setWidth 64 =
      BitVec.ofNat 64 (k * 4096 % 2 ^ 32) := by
    apply BitVec.eq_of_toNat_eq
    rw [ELF_PAGE_SIZE, show (0x1000 : BitVec 32) = BitVec.ofNat 32 4096 from rfl,
      ← BitVec.ofNat_mul, BitVec.toNat_setWidth, BitVec.toNat_ofNat, BitVec.toNat_ofNat]
  have haddr : (ph.p_vaddr +
      (BitVec.ofNat 32 k * ELF_PAGE_SIZE).setWidth ElfClass.elf64.bits).setWidth 64 =
        addrAt ph.p_vaddr (k * 4096 % 2 ^ 32) :=
    (BitVec.setWidth_eq _).trans (congrArg (BitVec.add ph.p_vaddr) hoffset)
  have hcount : ph.p_align.toNat = 4096 := by
    rw [halign]
    rfl
  rw [readPage_pageAt mem hcount, haddr]

/-- Block `k` of what the loop emits for a segment that comes after `before`. -/
def emittedBlock (mem : ProcMem) (before : List (Phdr .elf64)) (ph : Phdr .elf64) (fp : FILE)
    (k : ℕ) : Bytes :=
  slice (writeSegments mem ELF_PAGE_SIZE (before ++ [ph]) fp).content
    ((writeSegments mem ELF_PAGE_SIZE before fp).content.length + k * 4096) 4096

/-- A kept segment adds its pages to what the segments before it have left. -/
theorem writeSegments_concat (mem : ProcMem) (before : List (Phdr .elf64)) {ph : Phdr .elf64}
    (hkept : 0 < ph.p_filesz) {fp : FILE} (hfp : fp.Appending) :
    (writeSegments mem ELF_PAGE_SIZE (before ++ [ph]) fp).content =
      (writeSegments mem ELF_PAGE_SIZE before fp).content ++ segmentBytes mem ELF_PAGE_SIZE ph := by
  simp only [writeSegments_eq hfp, FILE.content_append, loadBytes, List.flatMap_append,
    List.flatMap_cons, List.flatMap_nil, List.append_nil, List.append_assoc]
  rw [if_pos hkept]

theorem pageCount_toNat {ph : Phdr .elf64} : (pageCount ELF_PAGE_SIZE ph).toNat =
    ph.p_memsz.toNat / 4096 % 2 ^ 32 := by
  rw [pageCount, BitVec.toNat_setWidth, BitVec.toNat_udiv]
  rfl

/-- Block `k` of a kept segment is page `k` while `k` is below the page count. -/
theorem emittedBlock_eq (mem : ProcMem) (before : List (Phdr .elf64)) {ph : Phdr .elf64}
    (hkept : 0 < ph.p_filesz) (halign : ph.p_align = 4096) {fp : FILE} (hfp : fp.Appending)
    (k : ℕ) :
    emittedBlock mem before ph fp k =
      if k < tripCount (pageCount ELF_PAGE_SIZE ph) then
        pageAt mem (addrAt ph.p_vaddr (k * 4096 % 2 ^ 32))
      else [] := by
  have hlen : ∀ i, (readPage mem ELF_PAGE_SIZE ph i).length = 4096 := fun i => by
    rw [readPage_eq mem halign, length_pageAt]
  have hdrop : emittedBlock mem before ph fp k =
      slice (segmentBytes mem ELF_PAGE_SIZE ph) (k * 4096) 4096 := by
    rw [emittedBlock, writeSegments_concat mem before hkept hfp, slice, slice, ← List.drop_drop,
      List.drop_left]
  rw [hdrop, segmentBytes]
  split_ifs with hk
  · rw [slice_flatMap _ 4096 _ (fun i _ => hlen i) (by rwa [List.length_range]),
      List.getElem_range, readPage_eq mem halign]
  · have htotal := length_flatMap_const (readPage mem ELF_PAGE_SIZE ph) 4096
      (List.range (tripCount (pageCount ELF_PAGE_SIZE ph))) (fun i _ => hlen i)
    rw [List.length_range] at htotal
    rw [slice, List.drop_of_length_le (by omega), List.take_nil]

def markedMem (marked : BitVec 64) : ProcMem where
  pread64 addr n := some (List.replicate n (if addr = marked then 1 else 0))
  bounded addr n b h := by
    obtain rfl := Option.some.inj h
    rw [List.length_replicate]

theorem pageAt_markedMem (marked addr : BitVec 64) :
    pageAt (markedMem marked) addr = List.replicate 4096 (if addr = marked then 1 else 0) := by
  simp only [pageAt, markedMem, List.length_replicate, Nat.sub_self]
  exact List.append_nil _

theorem pageAt_ne {marked addr : BitVec 64} (h : addr ≠ marked) :
    pageAt (markedMem marked) addr ≠ pageAt (markedMem marked) marked := by
  rw [pageAt_markedMem, pageAt_markedMem, if_neg h, if_pos rfl]
  intro heq
  exact absurd (List.replicate_right_injective (by norm_num) heq) (by decide)

/-- Block `k` of a kept segment is the memory at `p_vaddr + k * 4096` exactly when that
offset fits 32 bits and `int count` reaches beyond `k`. -/
theorem segment_block_iff (before : List (Phdr .elf64)) {ph : Phdr .elf64}
    (hkept : 0 < ph.p_filesz) (halign : ph.p_align = 4096) (k : ℕ)
    (hk : k * 4096 < ph.p_memsz.toNat) :
    (∀ (mem : ProcMem) (fp : FILE), fp.Appending →
      emittedBlock mem before ph fp k = pageAt mem (addrAt ph.p_vaddr (k * 4096))) ↔
    k < 2 ^ 20 ∧ ph.p_memsz.toNat / 4096 % 2 ^ 32 < 2 ^ 31 ∧
      k < ph.p_memsz.toNat / 4096 % 2 ^ 32 := by
  have hcount := tripCount_eq (pageCount ELF_PAGE_SIZE ph)
  rw [pageCount_toNat] at hcount
  have hnew : (FILE.create fun _ => .ok).Appending := FILE.appending_create fun _ => rfl
  constructor
  · intro h
    have hlt : k < tripCount (pageCount ELF_PAGE_SIZE ph) := by
      by_contra hge
      have hblock := h (markedMem 0) _ hnew
      rw [emittedBlock_eq _ before hkept halign hnew, if_neg hge] at hblock
      have hlen := congrArg List.length hblock
      rw [length_pageAt] at hlen
      exact absurd hlen (by decide)
    have hcond : ph.p_memsz.toNat / 4096 % 2 ^ 32 < 2 ^ 31 ∧
        k < ph.p_memsz.toNat / 4096 % 2 ^ 32 := by
      rw [hcount] at hlt
      split_ifs at hlt with h31
      · exact ⟨h31, hlt⟩
      · omega
    refine ⟨?_, hcond⟩
    by_contra hge
    have hne : addrAt ph.p_vaddr (k * 4096 % 2 ^ 32) ≠ addrAt ph.p_vaddr (k * 4096) := by
      intro heq
      have hbound : k * 4096 < 2 ^ 64 := hk.trans ph.p_memsz.isLt
      have hoffset := ofNat_inj_of_lt (by omega) hbound ((BitVec.add_right_inj _).mp heq)
      omega
    have hblock := h (markedMem (addrAt ph.p_vaddr (k * 4096))) _ hnew
    rw [emittedBlock_eq _ before hkept halign hnew, if_pos hlt] at hblock
    exact pageAt_ne hne hblock
  · rintro ⟨hk20, h31, hlt⟩ mem fp hfp
    rw [emittedBlock_eq mem before hkept halign hfp, hcount, if_pos h31, if_pos hlt,
      Nat.mod_eq_of_lt (by omega)]

def anonymousPhdr (beginAddr endAddr : BitVec 64) : Phdr .elf64 :=
  parserPhdr ELF_PAGE_SIZE (anonymousVma beginAddr endAddr) {}

theorem segment_block_first :
    emittedBlock (markedMem 0x1000) [anonymousPhdr 0x4000 0x5000] (anonymousPhdr 0x1000 0x2000)
      (FILE.create fun _ => .ok) 0 = pageAt (markedMem 0x1000) 0x1000 := by
  have hkept : 0 < (anonymousPhdr 0x1000 0x2000).p_filesz := by decide
  have hblock := (segment_block_iff [anonymousPhdr 0x4000 0x5000] hkept rfl 0 (by decide)).mpr
    (by decide) (markedMem 0x1000) (FILE.create fun _ => .ok) (FILE.appending_create fun _ => rfl)
  exact hblock

/-- A mapping of 4 GiB and one page: its last page is not stored, the first one is stored
in its place. -/
theorem segment_block_wraps :
    0 < (anonymousPhdr 0x10000 0x100011000).p_filesz ∧
    2 ^ 20 * 4096 < (anonymousPhdr 0x10000 0x100011000).p_memsz.toNat ∧
    emittedBlock (markedMem 0x100010000) [] (anonymousPhdr 0x10000 0x100011000)
      (FILE.create fun _ => .ok) (2 ^ 20) = pageAt (markedMem 0x100010000) 0x10000 ∧
    pageAt (markedMem 0x100010000) 0x10000 ≠ pageAt (markedMem 0x100010000) 0x100010000 := by
  have hkept : 0 < (anonymousPhdr 0x10000 0x100011000).p_filesz := by decide
  have hfp : (FILE.create fun _ => .ok).Appending := FILE.appending_create fun _ => rfl
  have hblock := emittedBlock_eq (markedMem 0x100010000) [] hkept rfl hfp (2 ^ 20)
  rw [if_pos (by decide)] at hblock
  exact ⟨hkept, by decide, hblock, pageAt_ne (by decide)⟩

end Opencore
