import Opencore.Machine.Scanf
import Opencore.Dumper.Collected

/-! `ParseMaps` over `/proc/<pid>/maps`: what the kernel prints, what `sscanf` stores of it,
and the file offsets that reach NT_FILE. -/
namespace Opencore
open Machine Elf

structure MapsLine where
  start : BitVec 64
  stop : BitVec 64
  readable : Bool
  writable : Bool
  executable : Bool
  shared : Bool
  offset : BitVec 64
  major : BitVec 32
  minor : BitVec 32
  inode : BitVec 64
  /-- Blanks, the path and the newline. -/
  tail : Bytes
  tail_delimited : Delimited 10 tail

def MapsLine.perms (l : MapsLine) : Bytes :=
  [if l.readable then 114 else 45, if l.writable then 119 else 45,
    if l.executable then 120 else 45, if l.shared then 115 else 112]

def MapsLine.fileFields (l : MapsLine) : Bytes :=
  render 16 2 l.major.toNat ++ 58 :: (render 16 2 l.minor.toNat ++
    32 :: (render 10 1 l.inode.toNat ++ l.tail))

def MapsLine.text (l : MapsLine) : Bytes :=
  render 16 8 l.start.toNat ++ 45 :: (render 16 8 l.stop.toNat ++
    32 :: (l.perms ++ 32 :: (render 16 8 l.offset.toNat ++ 32 :: l.fileFields)))

/-- The path without the blanks in front of it and the newline. -/
def MapsLine.path (l : MapsLine) : Bytes := (l.tail.dropWhile isSpace).takeWhile (· ≠ 10)

/-- `"%lx-%lx %c%c%c%c %x %x:%x  %lu  %[^\n] %n"`. -/
def mapsFormat : List Directive :=
  [.num 16, .lit 45, .num 16, .space, .chr, .chr, .chr, .chr, .space, .num 16, .space,
    .num 16, .lit 58, .num 16, .space, .num 10, .space, .line, .space, .count]

def storeNum (vma : VirtualMemoryArea) (v : ℕ) : ℕ → VirtualMemoryArea
  | 0 => { vma with beginAddr := BitVec.ofNat 64 v }
  | 1 => { vma with endAddr := BitVec.ofNat 64 v }
  -- `uint32_t` members: the conversion stores the low 32 bits
  | 6 => { vma with offset := BitVec.ofNat 32 v }
  | 7 => { vma with major := BitVec.ofNat 32 v }
  | 8 => { vma with minor := BitVec.ofNat 32 v }
  | 9 => { vma with inode := BitVec.ofNat 64 v }
  | _ => vma

/-- The store of one conversion, by its place in the format. -/
def storeItem (vma : VirtualMemoryArea) : Item × ℕ → VirtualMemoryArea
  | (.num v, i) => storeNum vma v i
  | (.chr c, i) => { vma with flags := vma.flags.setIfInBounds (i - 2) c }
  | (.str s, _) => { vma with file := s }
  | (.count _, _) => vma

/-- One iteration of `ParseMaps`; members that `sscanf` does not reach keep what the
stack held, and `filename` starts empty. -/
def parseMapsLine (uninit : VirtualMemoryArea) (line : Bytes) : VirtualMemoryArea :=
  (sscanf mapsFormat line).zipIdx.foldl storeItem { uninit with file := [] }

/-- The areas that `ParseMaps` appends. A 32-bit dumper stops at the first one above 4 GiB. -/
def parseMaps (c : ElfClass) (uninit : VirtualMemoryArea) (lines : List Bytes) :
    List VirtualMemoryArea :=
  (lines.map (parseMapsLine uninit)).takeWhile fun vma =>
    c = .elf64 ∨ vma.beginAddr ≤ 0xFFFFFFFF

section Line

variable (l : MapsLine)

theorem scan_text (total : ℕ) :
    scan total mapsFormat l.text =
      [Item.num l.start.toNat, Item.num l.stop.toNat] ++ l.perms.map Item.chr ++
        [Item.num l.offset.toNat, Item.num l.major.toNat, Item.num l.minor.toNat,
          Item.num l.inode.toNat] ++
        scan total [.space, .line, .space, .count] l.tail := by
  have hword (v : BitVec 32) : v.toNat < 2 ^ 64 := v.isLt.trans (by norm_num)
  have hdash (bs : Bytes) : Delimited 16 (45 :: bs) := delimited_cons bs (by decide)
  have hblank (bs : Bytes) : Delimited 16 (32 :: bs) := delimited_cons bs (by decide)
  have hcolon (bs : Bytes) : Delimited 16 (58 :: bs) := delimited_cons bs (by decide)
  have hperms (bs : Bytes) : ∀ c ∈ (l.perms ++ bs).head?, isSpace c = false := by
    intro c hc
    obtain rfl : (if l.readable then 114 else 45) = c := by simpa [MapsLine.perms] using hc
    cases l.readable <;> decide
  rw [mapsFormat, MapsLine.text]
  rw [scan_render (by norm_num) (by norm_num) (by norm_num) l.start.isLt (hdash _), scan_lit]
  rw [scan_render (by norm_num) (by norm_num) (by norm_num) l.stop.isLt (hblank _),
    scan_space (hperms _), MapsLine.perms]
  simp only [List.cons_append, List.nil_append]
  rw [scan_chr, scan_chr, scan_chr, scan_chr]
  rw [scan_space (head_render_append (by norm_num) (by norm_num) (by norm_num) _),
    scan_render (by norm_num) (by norm_num) (by norm_num) l.offset.isLt (hblank _),
    MapsLine.fileFields]
  rw [scan_space (head_render_append (by norm_num) (by norm_num) (by norm_num) _),
    scan_render (by norm_num) (by norm_num) (by norm_num) (hword l.major) (hcolon _), scan_lit]
  rw [scan_render (by norm_num) (by norm_num) (by norm_num) (hword l.minor) (hblank _)]
  rw [scan_space (head_render_append (by norm_num) (by norm_num) (by norm_num) _),
    scan_render (by norm_num) (by norm_num) (by norm_num) l.inode.isLt l.tail_delimited]
  rfl

/-- A path, when there is one, is stored without the blanks around it. -/
theorem scan_tail (total : ℕ) :
    scan total [.space, .line, .space, .count] l.tail = [] ∧ l.path = [] ∨
      (∃ n, scan total [.space, .line, .space, .count] l.tail = [.str l.path, .count n]) ∧
        l.path ≠ [] := by
  by_cases h : l.path = []
  · left
    constructor
    · rw [MapsLine.path] at h
      rw [scan, scan]
      exact if_pos h
    · exact h
  · right
    constructor
    · rw [MapsLine.path] at h
      constructor
      rw [scan, scan]
      exact if_neg h
    · exact h

theorem parseMapsLine_text (uninit : VirtualMemoryArea) :
    parseMapsLine uninit l.text = {
      beginAddr := l.start
      endAddr := l.stop
      flags := ⟨l.perms.toArray, rfl⟩
      offset := l.offset.setWidth 32
      major := l.major
      minor := l.minor
      inode := l.inode
      file := l.path } := by
  have hword {w : ℕ} (v : BitVec w) : BitVec.ofNat w v.toNat = v := by simp
  have hlow : BitVec.ofNat 32 l.offset.toNat = l.offset.setWidth 32 := by simp
  have hflags (flags : Vector UInt8 4) (r w x s : UInt8) :
      (((flags.setIfInBounds 0 r).setIfInBounds 1 w).setIfInBounds 2 x).setIfInBounds 3 s =
        ⟨#[r, w, x, s], rfl⟩ := by
    apply Vector.ext
    intro i hi
    interval_cases i <;> simp
  rw [parseMapsLine, sscanf, scan_text]
  simp only [MapsLine.perms, List.map_cons, List.map_nil, List.cons_append, List.nil_append,
    List.zipIdx_cons, List.foldl_cons, storeItem, storeNum, hword, hlow, hflags]
  obtain ⟨hrest, hpath⟩ | ⟨⟨n, hrest⟩, -⟩ := scan_tail l l.text.length
  · rw [hrest, hpath]
    rfl
  · rw [hrest]
    rfl

end Line

variable {a : Arch}

/-- The `file` entries that a new dumper makes of the maps lines. -/
def parsedFile (a : Arch) (pageSize : ℕ) (uninit : VirtualMemoryArea) (lines : List MapsLine) :
    List (File a.cls) :=
  (parseProcessMapsVma (Dumper.new a pageSize)
    (parseMaps a.cls uninit (lines.map MapsLine.text))).file

theorem parsedFile_eq (a : Arch) (pageSize : ℕ) (uninit : VirtualMemoryArea)
    (lines : List MapsLine) : parsedFile a pageSize uninit lines =
      (parseMaps a.cls uninit (lines.map MapsLine.text)).map (parserNtFile a.cls) := by
  by_cases hnil : parseMaps a.cls uninit (lines.map MapsLine.text) = []
  · simp [parsedFile, parseProcessMapsVma, Dumper.new, hnil]
  · simp [parsedFile, parseProcessMapsVma, Dumper.new, hnil]

/-- A 64-bit dumper has an entry for every line. -/
theorem length_parsedFile (hc : a.cls = .elf64) (pageSize : ℕ) (uninit : VirtualMemoryArea)
    (lines : List MapsLine) : (parsedFile a pageSize uninit lines).length = lines.length := by
  have hall : ∀ vma ∈ (lines.map MapsLine.text).map (parseMapsLine uninit),
      decide (a.cls = .elf64 ∨ vma.beginAddr ≤ 0xFFFFFFFF) = true :=
    fun _ _ => decide_eq_true (Or.inl hc)
  rw [parsedFile_eq, parseMaps, List.takeWhile_eq_self_iff.mpr hall]
  simp only [List.length_map]

/-- The entry of a line holds bits 12 to 31 of its offset, whatever the page size is. -/
theorem parsedFile_offset {pageSize : ℕ} {uninit : VirtualMemoryArea} {lines : List MapsLine}
    {i : ℕ} {l : MapsLine} {f : File a.cls} (hl : lines[i]? = some l)
    (hf : (parsedFile a pageSize uninit lines)[i]? = some f) :
    f.offset.toNat = l.offset.toNat % 2 ^ 32 / 2 ^ 12 := by
  rw [parsedFile_eq, List.getElem?_map] at hf
  obtain ⟨vma, hvma, rfl⟩ := Option.map_eq_some_iff.mp hf
  have hline : vma = parseMapsLine uninit l.text := by
    obtain ⟨hi, rfl⟩ := List.getElem?_eq_some_iff.mp hvma
    have hkept := List.prefix_iff_getElem?.mp (List.takeWhile_prefix _) i hi
    rw [List.getElem?_map, List.getElem?_map, hl] at hkept
    exact (Option.some.inj hkept).symm
  have hbits := a.cls.bits_ge
  rw [hline, parseMapsLine_text, parserNtFile]
  simp only [BitVec.toNat_setWidth, BitVec.toNat_ushiftRight, Nat.shiftRight_eq_div_pow]
  apply Nat.mod_eq_of_lt
  have hpow := Nat.pow_le_pow_right (show 0 < 2 by norm_num) hbits
  omega

/-- The low word times a larger power of two than one is the whole number only when both
are zero: the power minus one is odd. -/
theorem eq_zero_of_scaled {off k : ℕ} (hk : k ≠ 0) (h : off % 2 ^ 32 * 2 ^ k = off) : off = 0 := by
  have hdvd : 2 ^ 32 ∣ off % 2 ^ 32 * (2 ^ k - 1) := by
    have hsplit := Nat.mod_add_div off (2 ^ 32)
    have hpos : 1 ≤ 2 ^ k := Nat.one_le_two_pow
    refine ⟨off / 2 ^ 32, ?_⟩
    rw [Nat.mul_sub, mul_one]
    omega
  have hodd : Nat.Coprime (2 ^ 32) (2 ^ k - 1) := by
    apply Nat.Coprime.pow_left
    rw [Nat.coprime_two_left]
    exact Nat.Even.sub_odd Nat.one_le_two_pow (Nat.even_pow.mpr ⟨even_two, hk⟩) odd_one
  have hzero := Nat.eq_zero_of_dvd_of_lt (hodd.dvd_of_dvd_mul_right hdvd)
    (Nat.mod_lt off (by norm_num))
  rw [hzero, zero_mul] at h
  exact h.symm

/-- In units of `2 ^ p`, bits 12 to 31 of a multiple of `2 ^ p` give it back only when the unit
is 4 KiB and there are no higher bits. -/
theorem offset_units_iff {p off : ℕ} (hp : 12 ≤ p) (haligned : 2 ^ p ∣ off) :
    off % 2 ^ 32 / 2 ^ 12 * (2 ^ p % 2 ^ 32) = off ↔ off = 0 ∨ p = 12 ∧ off < 2 ^ 32 := by
  obtain ⟨k, rfl⟩ : ∃ k, p = 12 + k := ⟨p - 12, by omega⟩
  constructor
  · intro h
    by_cases hwide : 32 ≤ 12 + k
    · -- `page_size` is an `uint32_t`, so it is zero here
      have hzero : 2 ^ (12 + k) % 2 ^ 32 = 0 := Nat.mod_eq_zero_of_dvd (pow_dvd_pow 2 hwide)
      rw [hzero, mul_zero] at h
      exact Or.inl h.symm
    · have hlow : 2 ^ 12 ∣ off % 2 ^ 32 := by
        have hoff : 2 ^ 12 ∣ off := (pow_dvd_pow 2 (by omega)).trans haligned
        exact (Nat.dvd_mod_iff (pow_dvd_pow 2 (by norm_num))).mpr hoff
      have hunit : 2 ^ (12 + k) % 2 ^ 32 = 2 ^ 12 * 2 ^ k := by
        rw [Nat.mod_eq_of_lt (Nat.pow_lt_pow_right (by norm_num) (by omega)), pow_add]
      rw [hunit, ← mul_assoc, Nat.div_mul_cancel hlow] at h
      by_cases hk : k = 0
      · right
        subst hk
        have := Nat.mod_lt off (show 0 < 2 ^ 32 by norm_num)
        omega
      · exact Or.inl (eq_zero_of_scaled hk h)
  · rintro (rfl | ⟨hk, hoff⟩)
    · simp
    · obtain rfl : k = 0 := by omega
      have hmod : off % 2 ^ 32 = off := Nat.mod_eq_of_lt hoff
      have hpage : 2 ^ (12 + 0) % 2 ^ 32 = 2 ^ 12 := by norm_num
      rw [hmod, hpage]
      exact Nat.div_mul_cancel haligned

/-- The offset word of an NT_FILE entry, in units of the page-size word, is the offset of the
line exactly for the lines at the start of a file and, on 4 KiB pages, for those below 4 GiB. -/
theorem parsedFile_offset_iff {p : ℕ} (hp : 12 ≤ p) (uninit : VirtualMemoryArea)
    {lines : List MapsLine} {i : ℕ} {l : MapsLine} {f : File a.cls} (hl : lines[i]? = some l)
    (haligned : 2 ^ p ∣ l.offset.toNat) (hf : (parsedFile a (2 ^ p) uninit lines)[i]? = some f) :
    f.offset.toNat * (Dumper.new a (2 ^ p)).page_size.toNat = l.offset.toNat ↔
      l.offset = 0 ∨ p = 12 ∧ l.offset.toNat < 2 ^ 32 := by
  have hpage : (Dumper.new a (2 ^ p)).page_size.toNat = 2 ^ p % 2 ^ 32 := BitVec.toNat_ofNat ..
  have hzero : l.offset = 0 ↔ l.offset.toNat = 0 := by
    rw [← BitVec.toNat_inj]
    rfl
  rw [parsedFile_offset hl hf, hpage, hzero]
  exact offset_units_iff hp haligned

def libraryLine (offset : BitVec 64) : MapsLine where
  start := 0x7000000000
  stop := 0x7000010000
  readable := true
  writable := false
  executable := false
  shared := false
  offset := offset
  major := 0xfd
  minor := 5
  inode := 1234
  tail := 32 :: ascii "/system/lib64/libc.so" ++ [10]
  tail_delimited := delimited_cons _ (by decide)

theorem parsedFile_library (pageSize : ℕ) (offset : BitVec 64) :
    (parsedFile .arm64 pageSize (anonymousVma 0 0) [libraryLine offset])[0]? = some {
      beginAddr := 0x7000000000
      endAddr := 0x7000010000
      offset := (offset.setWidth 32 >>> 12).setWidth 64 } := by
  rw [parsedFile_eq, parseMaps, List.map_singleton, List.map_singleton, parseMapsLine_text]
  rfl

theorem parsedFile_offset_library :
    0x3 * (Dumper.new .arm64 (2 ^ 12)).page_size.toNat = (libraryLine 0x3000).offset.toNat :=
  (parsedFile_offset_iff (le_refl 12) (anonymousVma 0 0) (l := libraryLine 0x3000) rfl ⟨3, rfl⟩
    (parsedFile_library (2 ^ 12) 0x3000)).mpr (Or.inr ⟨rfl, by decide⟩)

/-- On 16 KiB pages the second page of a library is listed at four times its offset, and on
4 KiB pages an offset of 4 GiB is listed as 0. -/
theorem parsedFile_offset_differs :
    (∃ f : File (Arch.cls .arm64),
      (parsedFile .arm64 16384 (anonymousVma 0 0) [libraryLine 0x4000])[0]? = some f ∧
        f.offset.toNat * (Dumper.new .arm64 16384).page_size.toNat ≠
          (libraryLine 0x4000).offset.toNat) ∧
    ∃ f : File (Arch.cls .arm64),
      (parsedFile .arm64 4096 (anonymousVma 0 0) [libraryLine 0x100000000])[0]? = some f ∧
        f.offset.toNat * (Dumper.new .arm64 4096).page_size.toNat ≠
          (libraryLine 0x100000000).offset.toNat := by
  constructor
  · exact ⟨_, parsedFile_library 16384 0x4000, by decide⟩
  · exact ⟨_, parsedFile_library 4096 0x100000000, by decide⟩

end Opencore
