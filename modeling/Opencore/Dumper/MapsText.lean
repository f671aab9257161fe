import Opencore.Machine.Fgets
import Opencore.Dumper.Maps

/-! `ParseMaps` over the whole text of `/proc/<pid>/maps`, with its fixed buffers. -/
namespace Opencore
open Machine Elf

def sizeofLine : ℕ := 1024

/-- `sizeof(filename)` of the buffer that `%[^\n]` stores into. -/
def sizeofFilename : ℕ := 256

def parseMapsText (c : ElfClass) (uninit : VirtualMemoryArea) (text : Bytes) :
    List VirtualMemoryArea :=
  parseMaps c uninit (readLines sizeofLine text)

/-- What `fgets` stores in `line` and what `sscanf` stores in `filename` fits, with its NUL. -/
def StoresFit (text : Bytes) : Prop :=
  ∀ line ∈ readLines sizeofLine text, line.length + 1 ≤ sizeofLine ∧
    ∀ s, Item.str s ∈ sscanf mapsFormat line → s.length + 1 ≤ sizeofFilename

/-- A line of the kernel: at least one blank after the inode, and a path if there is one. -/
structure KernelLine extends MapsLine where
  blanks : ℕ
  name : Bytes
  tail_eq : tail = List.replicate (blanks + 1) 32 ++ (name ++ [10])
  name_head : ∀ c ∈ name.head?, isSpace c = false
  name_chars : ∀ c ∈ name, c ≠ 10 ∧ c ≠ 0

def mapsText (lines : List KernelLine) : Bytes := (lines.map fun l => l.text).flatten

/-- An area holds the fields of a line. -/
structure ReadFrom (l : KernelLine) (vma : VirtualMemoryArea) : Prop where
  beginAddr : vma.beginAddr = l.start
  endAddr : vma.endAddr = l.stop
  flags : vma.flags.toList = l.perms
  offset : vma.offset.toNat = l.offset.toNat
  major : vma.major = l.major
  minor : vma.minor = l.minor
  inode : vma.inode = l.inode
  file : vma.file = l.name

theorem not_mem_render {base width n : ℕ} (hbase : 1 < base) (hbase' : base ≤ 16) :
    10 ∉ render base width n := by
  intro h
  have hrange := isDigit_range (isDigit_render hbase hbase' 10 h)
  revert hrange
  decide

namespace KernelLine

variable (l : KernelLine)

theorem text_isLine : IsLine l.text := by
  refine ⟨render 16 8 l.start.toNat ++ 45 :: (render 16 8 l.stop.toNat ++
    32 :: (l.perms ++ 32 :: (render 16 8 l.offset.toNat ++ 32 :: (render 16 2 l.major.toNat ++
      58 :: (render 16 2 l.minor.toNat ++ 32 :: (render 10 1 l.inode.toNat ++
        (List.replicate (l.blanks + 1) 32 ++ l.name))))))), ?_, ?_⟩
  · rw [MapsLine.text, MapsLine.fileFields, l.tail_eq]
    simp only [List.append_assoc, List.cons_append]
  · have hhex (width n : ℕ) : 10 ∉ render 16 width n := not_mem_render (by norm_num) (by norm_num)
    have hdec (width n : ℕ) : 10 ∉ render 10 width n := not_mem_render (by norm_num) (by norm_num)
    have hperms : 10 ∉ l.perms := by
      rw [MapsLine.perms]
      cases l.readable <;> cases l.writable <;> cases l.executable <;> cases l.shared <;> decide
    have hname : 10 ∉ l.name := fun h => (l.name_chars 10 h).1 rfl
    simp [hhex, hdec, hperms, hname]

theorem path_eq : l.path = l.name := by
  have hblanks : ∀ c ∈ List.replicate (l.blanks + 1) (32 : UInt8), isSpace c = true := by
    intro c hc
    rw [List.eq_of_mem_replicate hc]
    decide
  rw [MapsLine.path, l.tail_eq, List.dropWhile_append_of_pos hblanks]
  cases hname : l.name with
  | nil => decide
  | cons c name =>
    have hc : isSpace c = false := l.name_head c (by rw [hname]; rfl)
    have hchars : ∀ d ∈ c :: name, decide (d ≠ 10) = true :=
      fun d hd => decide_eq_true (l.name_chars d (hname ▸ hd)).1
    rw [List.cons_append, List.dropWhile_cons_of_neg (by simp [hc]), ← List.cons_append,
      List.takeWhile_append_of_pos hchars]
    simp

/-- The only string that is stored is the path. -/
theorem str_mem_sscanf (s : Bytes) :
    Item.str s ∈ sscanf mapsFormat l.text ↔ s = l.name ∧ l.name ≠ [] := by
  rw [sscanf, scan_text, ← path_eq]
  obtain ⟨hrest, hpath⟩ | ⟨⟨n, hrest⟩, hpath⟩ := scan_tail l.toMapsLine l.text.length
  · rw [hrest, hpath]
    simp
  · rw [hrest]
    simp [hpath]

theorem readFrom_parse_iff (uninit : VirtualMemoryArea) :
    ReadFrom l (parseMapsLine uninit l.text) ↔ l.offset.toNat < 2 ^ 32 := by
  rw [parseMapsLine_text, path_eq]
  constructor
  · intro h
    have hoffset := h.offset
    rw [BitVec.toNat_setWidth] at hoffset
    rw [← hoffset]
    exact Nat.mod_lt _ (by norm_num)
  · intro h
    refine ⟨rfl, rfl, rfl, ?_, rfl, rfl, rfl, rfl⟩
    rw [BitVec.toNat_setWidth]
    exact Nat.mod_eq_of_lt h

end KernelLine

theorem readLines_mapsText {lines : List KernelLine}
    (h : ∀ l ∈ lines, l.text.length < sizeofLine) :
    readLines sizeofLine (mapsText lines) = lines.map fun l => l.text := by
  apply fgetsLoop_short
  · intro line hline
    obtain ⟨l, hl, rfl⟩ := List.mem_map.mp hline
    exact ⟨l.text_isLine, h l hl⟩
  · exact le_refl _

/-- A line that does not fit makes one more. -/
theorem length_readLines_mapsText {lines : List KernelLine}
    (h : (readLines sizeofLine (mapsText lines)).length = lines.length) :
    ∀ l ∈ lines, l.text.length < sizeofLine := by
  intro l hl
  have hlines : ∀ line ∈ lines.map fun l => l.text, IsLine line := by
    intro line hline
    obtain ⟨l, -, rfl⟩ := List.mem_map.mp hline
    exact l.text_isLine
  have hcount := fgetsLoop_long (show 2 ≤ sizeofLine by decide) hlines (le_refl _)
  have hread : (readLines sizeofLine (lines.map fun l => l.text).flatten).length = lines.length := h
  rw [readLines] at hread
  rw [hread, List.length_map] at hcount
  have hzero : (lines.map fun l => l.text).countP (sizeofLine ≤ ·.length) = 0 := by omega
  have hnot := List.countP_eq_zero.mp hzero l.text (List.mem_map_of_mem hl)
  simpa using hnot

theorem parseMapsText_elf64 (uninit : VirtualMemoryArea) (text : Bytes) :
    parseMapsText .elf64 uninit text =
      (readLines sizeofLine text).map (parseMapsLine uninit) := by
  rw [parseMapsText, parseMaps, List.takeWhile_eq_self_iff]
  intro vma _
  exact decide_eq_true (Or.inl rfl)

/-- `ParseMaps` of a 64-bit build reads one area from each line, without writing past its
buffers, exactly when all lines fit into `line`, their offsets are below 4 GiB and their paths
fit into `filename`. -/
theorem parseMapsText_iff (uninit : VirtualMemoryArea) (lines : List KernelLine) :
    List.Forall₂ ReadFrom lines (parseMapsText .elf64 uninit (mapsText lines)) ∧
      StoresFit (mapsText lines) ↔
    ∀ l ∈ lines, l.text.length < sizeofLine ∧ l.offset.toNat < 2 ^ 32 ∧
      l.name.length < sizeofFilename := by
  constructor
  · rintro ⟨hall, hfit⟩ l hl
    rw [parseMapsText_elf64] at hall
    have hlen := hall.length_eq
    rw [List.length_map] at hlen
    have hshort := length_readLines_mapsText hlen.symm
    have hread := readLines_mapsText hshort
    rw [hread, List.map_map, List.forall₂_map_right_iff, List.forall₂_same] at hall
    refine ⟨hshort l hl, (l.readFrom_parse_iff uninit).mp (hall l hl), ?_⟩
    by_cases hname : l.name = []
    · rw [hname]
      decide
    · have hline : l.text ∈ readLines sizeofLine (mapsText lines) := by
        rw [hread]
        exact List.mem_map_of_mem hl
      exact (hfit l.text hline).2 l.name ((l.str_mem_sscanf l.name).mpr ⟨rfl, hname⟩)
  · intro h
    have hread := readLines_mapsText fun l hl => (h l hl).1
    constructor
    · rw [parseMapsText_elf64, hread, List.map_map, List.forall₂_map_right_iff, List.forall₂_same]
      intro l hl
      exact (l.readFrom_parse_iff uninit).mpr (h l hl).2.1
    · intro line hline
      refine ⟨length_fgetsLoop (by decide) _ line hline, fun s hs => ?_⟩
      rw [hread] at hline
      obtain ⟨l, hl, rfl⟩ := List.mem_map.mp hline
      rw [((l.str_mem_sscanf s).mp hs).1]
      exact (h l hl).2.2

/-- A mapping of a file whose path is a slash and `n` letters. -/
def pathLine (offset : BitVec 64) (n : ℕ) : KernelLine where
  toMapsLine := { libraryLine offset with
    tail := List.replicate 1 32 ++ ((47 :: List.replicate n 97) ++ [10])
    tail_delimited := delimited_cons _ (by decide) }
  blanks := 0
  name := 47 :: List.replicate n 97
  tail_eq := rfl
  name_head c hc := by
    obtain rfl : 47 = c := by simpa using hc
    decide
  name_chars c hc := by
    rcases List.mem_cons.mp hc with rfl | hc
    · decide
    · rw [List.eq_of_mem_replicate hc]
      decide

/-- The offset 4 GiB is stored as 0, a path of 256 characters does not fit into its buffer,
and a line with one of 1025 is read as two. -/
theorem parseMapsText_wrong :
    ¬ List.Forall₂ ReadFrom [pathLine 0x100000000 9]
      (parseMapsText .elf64 (anonymousVma 0 0) (mapsText [pathLine 0x100000000 9])) ∧
    ¬ StoresFit (mapsText [pathLine 0 255]) ∧
    ¬ List.Forall₂ ReadFrom [pathLine 0 1024]
      (parseMapsText .elf64 (anonymousVma 0 0) (mapsText [pathLine 0 1024])) := by
  refine ⟨fun h => ?_, fun h => ?_, fun h => ?_⟩
  · have hshort : (pathLine 0x100000000 9).text.length < sizeofLine := by decide +kernel
    rw [parseMapsText_elf64, readLines_mapsText (by simpa using hshort)] at h
    have hread := (List.forall₂_cons.mp h).1
    have hoffset := ((pathLine 0x100000000 9).readFrom_parse_iff _).mp hread
    exact absurd hoffset (by decide)
  · have hshort : (pathLine 0 255).text.length < sizeofLine := by decide +kernel
    have hline : (pathLine 0 255).text ∈ readLines sizeofLine (mapsText [pathLine 0 255]) := by
      rw [readLines_mapsText (by simpa using hshort)]
      exact List.mem_cons_self
    have hstr := ((pathLine 0 255).str_mem_sscanf _).mpr ⟨rfl, List.cons_ne_nil _ _⟩
    have hfit := (h _ hline).2 _ hstr
    exact absurd hfit (by decide +kernel)
  · rw [parseMapsText_elf64] at h
    have hlen := h.length_eq
    rw [List.length_map] at hlen
    have hshort := length_readLines_mapsText hlen.symm _ List.mem_cons_self
    exact absurd hshort (by decide +kernel)

end Opencore
