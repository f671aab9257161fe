import Opencore.Dumper.Core

/-! The order of the filter tests: what a further filter bit can do to an area that was
left out. -/
namespace Opencore
open Machine Elf

variable {a : Arch}

def isLaterFiltered (filter : BitVec 32) (vma : VirtualMemoryArea) : Bool :=
  has filter FILTER_SHARED_VMA && isSharedVma vma ||
    has filter FILTER_SANITIZER_SHADOW_VMA && isSanitizerShadowVma vma ||
    has filter FILTER_NON_READ_VMA && isNonReadVma vma ||
    has filter FILTER_JAVAHEAP_VMA && isJavaHeapVma vma ||
    has filter FILTER_JIT_CACHE_VMA && isJitCacheVma vma

theorem isFilterSegment_eq (d : Dumper a) (files : Bytes → Option FileImage)
    (vma : VirtualMemoryArea) :
    isFilterSegment d files vma =
      if has d.filter FILTER_SPECIAL_VMA && isSpecialVma vma then some VMA_NULL
      else if has d.filter FILTER_FILE_VMA && isFileVma vma then needFilterFile d files vma
      else if isLaterFiltered d.filter vma then some VMA_NULL
      else some VMA_NORMAL := by
  have hor (p q : Bool) (x y : Option (BitVec 32)) :
      (if p || q then x else y) = if p then x else if q then x else y := by cases p <;> rfl
  unfold isFilterSegment isLaterFiltered
  rw [hor, hor, hor, hor]

theorem has_of_and_eq {f g : BitVec 32} (hfg : f &&& g = f) {bit : BitVec 32}
    (h : has f bit = true) : has g bit = true := by
  rw [has, bne_iff_ne] at h ⊢
  intro hg
  rw [← hfg, BitVec.and_assoc, hg] at h
  exact h BitVec.and_zero

theorem has_and_mono {f g : BitVec 32} (hfg : f &&& g = f) {bit : BitVec 32} {test : Bool}
    (h : (has f bit && test) = true) : (has g bit && test) = true := by
  rw [Bool.and_eq_true] at h ⊢
  exact ⟨has_of_and_eq hfg h.1, h.2⟩

theorem isLaterFiltered_mono {f g : BitVec 32} (hfg : f &&& g = f) {vma : VirtualMemoryArea}
    (h : isLaterFiltered f vma = true) : isLaterFiltered g vma = true := by
  simp only [isLaterFiltered, Bool.or_eq_true] at h ⊢
  rcases h with (((h | h) | h) | h) | h
  · exact Or.inl (Or.inl (Or.inl (Or.inl (has_and_mono hfg h))))
  · exact Or.inl (Or.inl (Or.inl (Or.inr (has_and_mono hfg h))))
  · exact Or.inl (Or.inl (Or.inr (has_and_mono hfg h)))
  · exact Or.inl (Or.inr (has_and_mono hfg h))
  · exact Or.inr (has_and_mono hfg h)

theorem needFilterLoop_verdict {c : ElfClass} {read : ℕ → ℕ → Option Bytes}
    {page_size offset : BitVec 32} {n i : ℕ} {ret verdict : BitVec 32}
    (h : needFilterLoop c read page_size offset n i ret = some verdict) :
    verdict = ret ∨ verdict = VMA_NORMAL := by
  induction n generalizing i ret with
  | zero =>
    left
    exact (Option.some.inj h).symm
  | succ n ih =>
    simp only [needFilterLoop, Option.bind_eq_bind, Option.bind_eq_some_iff] at h
    obtain ⟨p_type, -, h⟩ := h
    split_ifs at h
    · exact ih h
    · obtain ⟨p_offset, -, h⟩ := Option.bind_eq_some_iff.mp h
      obtain ⟨p_memsz, -, h⟩ := Option.bind_eq_some_iff.mp h
      split_ifs at h
      · obtain ⟨p_flags, -, h⟩ := Option.bind_eq_some_iff.mp h
        rcases ih h with h | h
        · split_ifs at h
          · exact Or.inr h
          · exact Or.inl h
        · exact Or.inr h
      · exact ih h

theorem needFilterFile_verdict {d : Dumper a} {files : Bytes → Option FileImage}
    {vma : VirtualMemoryArea} {verdict : BitVec 32}
    (h : needFilterFile d files vma = some verdict) :
    verdict = VMA_NULL ∨ verdict = VMA_NORMAL := by
  unfold needFilterFile at h
  split at h
  · exact Or.inl (Option.some.inj h).symm
  · next f hopen =>
    by_cases hstat : ¬ f.fstatOk = true
    · rw [if_pos hstat] at h
      exact Or.inl (Option.some.inj h).symm
    · rw [if_neg hstat] at h
      by_cases hmap : mapLength a.cls f.content = 0 ∨ ¬ f.mmapOk = true
      · rw [if_pos hmap] at h
        exact Or.inl (Option.some.inj h).symm
      · rw [if_neg hmap] at h
        obtain ⟨magic, -, h⟩ := Option.bind_eq_some_iff.mp h
        obtain ⟨e_machine, -, h⟩ := Option.bind_eq_some_iff.mp h
        split_ifs at h
        · exact Or.inl (Option.some.inj h).symm
        · obtain ⟨e_phnum, -, h⟩ := Option.bind_eq_some_iff.mp h
          exact needFilterLoop_verdict h

/-- The file test is new in `g`, stands before the filter of `f` that leaves the area out,
and keeps it. -/
def FileTestKeeps (d : Dumper a) (files : Bytes → Option FileImage) (f g : BitVec 32)
    (vma : VirtualMemoryArea) : Prop :=
  has f FILTER_FILE_VMA = false ∧ isLaterFiltered f vma = true ∧
    has g FILTER_FILE_VMA = true ∧ isFileVma vma = true ∧
    (has g FILTER_SPECIAL_VMA && isSpecialVma vma) = false ∧
    needFilterFile d files vma = some VMA_NORMAL

section Masks

variable {f g : BitVec 32} {d : Dumper a} {files : Bytes → Option FileImage}
  {vma : VirtualMemoryArea} {vf vg : BitVec 32}

/-- While the file test is not met, every filter only leaves out more. -/
theorem isFilterSegment_mono (hfg : f &&& g = f)
    (hfile : ¬ (has g FILTER_FILE_VMA && isFileVma vma) = true)
    (hf : isFilterSegment { d with filter := f } files vma = some vf)
    (hg : isFilterSegment { d with filter := g } files vma = some vg) (hnull : vf = VMA_NULL) :
    vg = VMA_NULL := by
  rw [isFilterSegment_eq] at hf hg
  rw [if_neg fun h => hfile (has_and_mono hfg h)] at hf
  rw [if_neg hfile] at hg
  by_cases hspecial : (has g FILTER_SPECIAL_VMA && isSpecialVma vma) = true
  · rw [if_pos hspecial] at hg
    exact (Option.some.inj hg).symm
  · rw [if_neg hspecial] at hg
    rw [if_neg fun h => hspecial (has_and_mono hfg h)] at hf
    by_cases hlater : isLaterFiltered f vma = true
    · rw [if_pos (isLaterFiltered_mono hfg hlater)] at hg
      exact (Option.some.inj hg).symm
    · rw [if_neg hlater] at hf
      exact absurd ((Option.some.inj hf).trans hnull) (by decide)

/-- When the file test of `g` is met, its verdict decides. -/
theorem isFilterSegment_mono_file (hfg : f &&& g = f)
    (hspecial : ¬ (has g FILTER_SPECIAL_VMA && isSpecialVma vma) = true)
    (hfile : (has g FILTER_FILE_VMA && isFileVma vma) = true)
    (hf : isFilterSegment { d with filter := f } files vma = some vf)
    (hg : isFilterSegment { d with filter := g } files vma = some vg) :
    (vf = VMA_NULL → vg = VMA_NULL) ↔ ¬ (has f FILTER_FILE_VMA = false ∧
      isLaterFiltered f vma = true ∧ needFilterFile d files vma = some VMA_NORMAL) := by
  have hsame (m : BitVec 32) : needFilterFile { d with filter := m } files vma =
      needFilterFile d files vma := rfl
  rw [isFilterSegment_eq, hsame, if_neg fun h => hspecial (has_and_mono hfg h)] at hf
  rw [isFilterSegment_eq, hsame, if_neg hspecial, if_pos hfile] at hg
  by_cases hfbit : has f FILTER_FILE_VMA = true
  · -- both masks ask for the verdict
    rw [if_pos (Bool.and_eq_true_iff.mpr ⟨hfbit, (Bool.and_eq_true_iff.mp hfile).2⟩), hg] at hf
    simp [hfbit, Option.some.inj hf]
  · rw [if_neg (by simp [hfbit])] at hf
    by_cases hlater : isLaterFiltered f vma = true
    · rw [if_pos hlater] at hf
      constructor
      · rintro h ⟨-, -, hkeep⟩
        rw [hg, h (Option.some.inj hf).symm] at hkeep
        exact absurd (Option.some.inj hkeep) (by decide)
      · intro h _
        rcases needFilterFile_verdict hg with hv | hv
        · exact hv
        · exact absurd ⟨by simpa using hfbit, hlater, hv ▸ hg⟩ h
    · rw [if_neg hlater] at hf
      simp [hlater, (Option.some.inj hf).symm, show VMA_NORMAL ≠ VMA_NULL by decide]

theorem isFilterSegment_mono_iff (hfg : f &&& g = f)
    (hf : isFilterSegment { d with filter := f } files vma = some vf)
    (hg : isFilterSegment { d with filter := g } files vma = some vg) :
    (vf = VMA_NULL → vg = VMA_NULL) ↔ ¬ FileTestKeeps d files f g vma := by
  unfold FileTestKeeps
  by_cases hfile : (has g FILTER_FILE_VMA && isFileVma vma) = true
  · obtain ⟨hgbit, hvma⟩ := Bool.and_eq_true_iff.mp hfile
    by_cases hspecial : (has g FILTER_SPECIAL_VMA && isSpecialVma vma) = true
    · rw [isFilterSegment_eq, if_pos hspecial] at hg
      simp [hspecial, (Option.some.inj hg).symm]
    · rw [isFilterSegment_mono_file hfg hspecial hfile hf hg]
      simp [hgbit, hvma, hspecial]
  · constructor
    · rintro - ⟨-, -, hgbit, hvma, -⟩
      exact hfile (Bool.and_eq_true_iff.mpr ⟨hgbit, hvma⟩)
    · intro _ hnull
      exact isFilterSegment_mono hfg hfile hf hg hnull

end Masks

theorem vmaFlag_of_not_minidump {d : Dumper a} (h : has d.filter FILTER_MINIDUMP = false)
    (files : Bytes → Option FileImage) (vma : VirtualMemoryArea) :
    vmaFlag d files vma = isFilterSegment d files vma := by
  have hspecial : isSpecialFilterSegment d vma = 0 := by
    rw [isSpecialFilterSegment, h]
    rfl
  simp [vmaFlag, hspecial]

theorem isFilterSegment_verdict {d : Dumper a} {files : Bytes → Option FileImage}
    {vma : VirtualMemoryArea} {verdict : BitVec 32}
    (h : isFilterSegment d files vma = some verdict) :
    verdict = VMA_NULL ∨ verdict = VMA_NORMAL := by
  rw [isFilterSegment_eq] at h
  split_ifs at h
  · exact Or.inl (Option.some.inj h).symm
  · exact needFilterFile_verdict h
  · exact Or.inl (Option.some.inj h).symm
  · exact Or.inr (Option.some.inj h).symm

/-- An area that the filters leave out is one they flag, or an empty one. -/
theorem filesz_eq_zero_iff {c : ElfClass} {verdict : BitVec 32} {ph : Phdr c}
    (hverdict : verdict = VMA_NULL ∨ verdict = VMA_NORMAL) (hkept : ph.p_filesz = ph.p_memsz) :
    (applyVmaFlag verdict ph).p_filesz = 0 ↔ verdict = VMA_NULL ∨ ph.p_memsz = 0 := by
  rcases hverdict with rfl | rfl
  · simp [applyVmaFlag_filesz, show has VMA_NULL VMA_INCLUDE = false by decide,
      show has VMA_NULL VMA_NULL = true by decide]
  · simp [applyVmaFlag_filesz, show has VMA_NORMAL VMA_INCLUDE = false by decide,
      show has VMA_NORMAL VMA_NULL = false by decide, hkept, show VMA_NORMAL ≠ VMA_NULL by decide]

/-- More filter bits leave out an area that fewer bits left out, except a non-empty one
that a newly enabled file test keeps in front of the filter that left it out. -/
theorem specialCoreFilter_mono_iff {f g : BitVec 32} (hfg : f &&& g = f)
    (hf : has f FILTER_MINIDUMP = false) (hg : has g FILTER_MINIDUMP = false)
    {d df dg : Dumper a} {files : Bytes → Option FileImage}
    (hphdr : d.phdr = d.maps.map fun vma => parserPhdr d.align_size vma {})
    (hdf : specialCoreFilter { d with filter := f } files = some df)
    (hdg : specialCoreFilter { d with filter := g } files = some dg)
    {i : ℕ} {vma : VirtualMemoryArea} {pf pg : Phdr a.cls} (hvma : d.maps[i]? = some vma)
    (hpf : df.phdr[i]? = some pf) (hpg : dg.phdr[i]? = some pg) :
    (pf.p_filesz = 0 → pg.p_filesz = 0) ↔
      (parserPhdr d.align_size vma {} : Phdr a.cls).p_memsz = 0 ∨
        ¬ FileTestKeeps d files f g vma := by
  let ph : Phdr a.cls := parserPhdr d.align_size vma {}
  have hph : d.phdr[i]? = some ph := by
    rw [hphdr, List.getElem?_map, hvma]
    rfl
  obtain ⟨vf, hvf, hf'⟩ := specialCoreFilter_getElem? hdf hvma hph
  obtain ⟨vg, hvg, hg'⟩ := specialCoreFilter_getElem? hdg hvma hph
  obtain rfl : pf = applyVmaFlag vf ph := Option.some.inj (hpf.symm.trans hf')
  obtain rfl : pg = applyVmaFlag vg ph := Option.some.inj (hpg.symm.trans hg')
  rw [vmaFlag_of_not_minidump hf] at hvf
  rw [vmaFlag_of_not_minidump hg] at hvg
  have hmono := isFilterSegment_mono_iff hfg hvf hvg
  rw [filesz_eq_zero_iff (isFilterSegment_verdict hvf) rfl,
    filesz_eq_zero_iff (isFilterSegment_verdict hvg) rfl, ← hmono]
  tauto

def guardVma : VirtualMemoryArea where
  beginAddr := 0x7000000000
  endAddr := 0x7000001000
  flags := ⟨#[45, 45, 45, 112], rfl⟩
  offset := 0
  major := 0xfd
  minor := 5
  inode := 1234
  file := [46]

def guardDumper (filter : BitVec 32) : Dumper .arm64 :=
  { Dumper.new .arm64 4096 with
    maps := [guardVma]
    phdr := [parserPhdr ELF_PAGE_SIZE guardVma {}]
    filter := filter }

def guardFilter : BitVec 32 := FILTER_NON_READ_VMA ||| FILTER_SHARED_VMA

def guardOut : Phdr .elf64 := { parserPhdr ELF_PAGE_SIZE guardVma {} with p_filesz := 0 }

theorem specialCoreFilter_mono_guard :
    ∃ dg pg, specialCoreFilter (guardDumper guardFilter) (fun _ => none) = some dg ∧
      dg.phdr[0]? = some pg ∧ pg.p_filesz = 0 := by
  have hdf : specialCoreFilter { guardDumper 0 with filter := FILTER_NON_READ_VMA }
    (fun _ => none) = some { guardDumper FILTER_NON_READ_VMA with phdr := [guardOut] } := rfl
  have hdg : specialCoreFilter { guardDumper 0 with filter := guardFilter }
    (fun _ => none) = some { guardDumper guardFilter with phdr := [guardOut] } := rfl
  have hmono := specialCoreFilter_mono_iff
    (show FILTER_NON_READ_VMA &&& guardFilter = FILTER_NON_READ_VMA by decide) (by decide)
    (by decide) rfl hdf hdg (i := 0) rfl rfl rfl
  refine ⟨_, guardOut, hdg, rfl, hmono.mpr (Or.inr ?_) rfl⟩
  rintro ⟨-, -, hfile, -⟩
  revert hfile
  decide

def writableElf : FileImage where
  content :=
    (show Ehdr .elf64 from
      { e_ident := coreIdent .elf64, e_machine := Arch.arm64.machine, e_version := EV_CURRENT,
        e_phoff := 64, e_ehsize := 64, e_phentsize := 56, e_phnum := 1 }).bytes ++
    (show Phdr .elf64 from
      { p_type := PT_LOAD, p_flags := PF_R ||| PF_W, p_memsz := 0x1000 }).bytes

/-- With the file test added, the area that has no permission is back in the core. -/
theorem specialCoreFilter_mono_file :
    (specialCoreFilter (guardDumper FILTER_NON_READ_VMA) fun _ => some writableElf).map
      (fun d => d.phdr.map Phdr.p_filesz) = some [0] ∧
    (specialCoreFilter (guardDumper (FILTER_NON_READ_VMA ||| FILTER_FILE_VMA))
      fun _ => some writableElf).map (fun d => d.phdr.map Phdr.p_filesz) = some [0x1000] := by
  constructor
  · decide +kernel
  · decide +kernel

end Opencore
