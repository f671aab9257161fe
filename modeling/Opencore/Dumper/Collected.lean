import Opencore.Dumper.Emission
import Opencore.Dumper.ThreadSlots

/-! The state that `DoCoredump` has collected before it writes: what each member is in
terms of the process. -/
namespace Opencore
open Machine Elf

variable {a : Arch}

/-- Nothing is left over from an earlier dump. The setters do not touch these members. -/
structure Dumper.Fresh (d : Dumper a) : Prop where
  extra : d.extra_note_filesz = 0
  threads : d.threads = []
  maps : d.maps = []
  align : d.align_size = ELF_PAGE_SIZE
  phdr : d.phdr = []
  auxvnum : d.auxvnum = 0
  file : d.file = []
  fileslen : d.fileslen = 0
  prstatus : d.prstatus = []

theorem fresh_new (a : Arch) (pageSize : ℕ) : (Dumper.new a pageSize).Fresh := by
  constructor <;> rfl

/-- Bytes of the NT_FILE names, each with its NUL. -/
def namesSize (maps : List VirtualMemoryArea) : ℕ := (maps.map fun vma => vma.file.length + 1).sum

/-- Bytes of the records that one `prstatus` slot takes, NT_SIGINFO apart. -/
def slotSize : Arch → ℕ
  | .arm64 => 1088
  | .x86_64 => 356
  | .arm => 168
  | .x86 => 164

def slotsSize (a : Arch) (n : ℕ) : ℕ := if n = 0 then 0 else slotSize a * n + 148

/-- What the writers rely on: the members hold the process `view`. Filtering and placing
the segments keep it. -/
structure Collected (view : ProcessView a) (d : Dumper a) : Prop where
  align : d.align_size = ELF_PAGE_SIZE
  maps : d.maps = view.maps
  phnum : d.phdr.length = view.maps.length
  file : d.file = view.maps.map (parserNtFile a.cls)
  fileslen : d.fileslen = BitVec.ofNat 32 (namesSize view.maps)
  note_type : d.note.p_type = PT_NOTE
  note_offset : d.note.p_offset = BitVec.ofNat a.cls.bits
    (sizeofEhdr a.cls + (view.maps.length + 1) % 2 ^ 16 * sizeofPhdr a.cls)
  prnum : d.prstatus.length = view.tasks.length
  extra : d.extra_note_filesz = BitVec.ofNat 32 (slotsSize a view.tasks.length)
  auxvnum : d.auxvnum = BitVec.ofNat 32 view.auxv.length
  auxv : view.auxv.length < 2 ^ 31 → d.auxv = view.auxv

structure SameSettings (d d' : Dumper a) : Prop where
  page_size : d'.page_size = d.page_size
  ucontext_raw : d'.ucontext_raw = d.ucontext_raw
  siginfo : d'.siginfo = d.siginfo
  tid : d'.tid = d.tid
  filter : d'.filter = d.filter

theorem foldl_stopTheThread (d : Dumper a) (attach : Tid → Bool) (tasks : List Tid) :
    tasks.foldl (fun d tid => stopTheThread d attach tid) d =
      { d with threads := d.threads ++ tasks.map fun tid => ⟨tid, attach tid⟩ } := by
  induction tasks generalizing d with
  | nil => simp
  | cons tid tasks ih =>
    rw [List.foldl_cons, ih]
    simp [stopTheThread]

theorem stopTheWorld_eq (d : Dumper a) (view : ProcessView a) :
    stopTheWorld d view =
      { d with threads := d.threads ++ view.tasks.map fun tid => ⟨tid, view.attach tid⟩ } :=
  foldl_stopTheThread d view.attach view.tasks

theorem addFileslen_eq (n : ℕ) (maps : List VirtualMemoryArea) :
    addFileslen (BitVec.ofNat 32 n) maps = BitVec.ofNat 32 (n + namesSize maps) := by
  unfold addFileslen namesSize
  induction maps generalizing n with
  | nil => simp
  | cons vma maps ih =>
    rw [List.foldl_cons, ← BitVec.ofNat_add, ih, List.map_cons, List.sum_cons, Nat.add_assoc]

/-- With no areas the members keep their initial values, which are those of the empty list. -/
theorem parseProcessMapsVma_eq {d : Dumper a} (hmaps : d.maps = []) (hphdr : d.phdr = [])
    (hfile : d.file = []) (hlen : d.fileslen = 0) (areas : List VirtualMemoryArea) :
    parseProcessMapsVma d areas =
      { d with
        maps := areas
        phdr := areas.map fun vma => parserPhdr d.align_size vma {}
        file := areas.map (parserNtFile a.cls)
        fileslen := BitVec.ofNat 32 (namesSize areas) } := by
  unfold parseProcessMapsVma
  simp only [hmaps, List.nil_append]
  split_ifs with harea
  · cases d
    dsimp only at hmaps hphdr hfile hlen
    subst harea hmaps hphdr hfile hlen
    rfl
  · have hsum := addFileslen_eq 0 areas
    rw [Nat.zero_add] at hsum
    rw [hlen, ← hsum]
    rfl

theorem extraNoteFilesz_eq (a : Arch) (n : ℕ) :
    extraNoteFilesz a (BitVec.ofNat 32 n) = BitVec.ofNat 32 (slotSize a * n + 148) := by
  apply BitVec.eq_of_toNat_eq
  cases a with
  | arm64 =>
    simp [extraNoteFilesz, slotSize]
    omega
  | x86_64 => simp [extraNoteFilesz, slotSize]
  | arm => simp [extraNoteFilesz, slotSize]
  | x86 => simp [extraNoteFilesz, slotSize]

theorem createCorePrStatus_in_range (d : Dumper a) (regset : BitVec 32 → Option a.PtRegs)
    (hextra : d.extra_note_filesz = 0) (hprstatus : d.prstatus = [])
    (hlen : d.threads.length < 2 ^ 31) :
    ∃ prstatus, createCorePrStatus d regset = some { d with
      prstatus := prstatus
      extra_note_filesz := BitVec.ofNat 32 (slotsSize a d.threads.length) } ∧
      prstatus.length = d.threads.length := by
  unfold createCorePrStatus slotsSize
  split_ifs with hnil hzero hzero
  · refine ⟨d.prstatus, ?_, by rw [hprstatus, hnil]; rfl⟩
    cases d
    dsimp only at hextra
    subst hextra
    rfl
  · simp [hnil] at hzero
  · exact absurd (List.length_eq_zero_iff.mp hzero) hnil
  · have hzeros : (List.replicate d.threads.length (PrStatus.zero (a := a))).length =
        d.threads.length := List.length_replicate ..
    obtain ⟨prstatus, hloop, hprnum⟩ := prStatusLoop_in_range d.tid
      (d.ucontext_raw.map Ref.pointee) regset d.threads 1 (by omega) hzeros.ge
    rw [hzeros] at hprnum
    refine ⟨prstatus, ?_, hprnum⟩
    simp only [tripCount_ofNat hlen, List.take_length, hloop, extraNoteFilesz_eq, hextra,
      Option.bind_eq_bind, Option.bind_some]
    rw [show (0 : BitVec 32) + _ = _ from BitVec.zero_add _]

theorem phnum_eq (n : ℕ) : (BitVec.ofNat 32 n + 1).setWidth 16 = BitVec.ofNat 16 (n + 1) := by
  rw [← setWidth_ofNat_of_le (by norm_num : 16 ≤ 32), BitVec.ofNat_add]
  rfl

theorem setWidth_phnum (c : ElfClass) (n : ℕ) :
    (BitVec.ofNat 16 n).setWidth c.bits = BitVec.ofNat c.bits (n % 2 ^ 16) := by
  apply BitVec.eq_of_toNat_eq
  rw [BitVec.toNat_setWidth, BitVec.toNat_ofNat, BitVec.toNat_ofNat]

/-- The second pass over auxv finds the vector as long as the first pass counted. -/
theorem createCoreAUXV_auxv {d : Dumper a} (hd : d.auxvnum = 0) {entries : List (Auxv a.cls)}
    (hlen : entries.length < 2 ^ 31) : (createCoreAUXV d entries).auxv = entries := by
  have hzero : (0 : BitVec 32) + BitVec.ofNat 32 entries.length = BitVec.ofNat 32 entries.length :=
    BitVec.zero_add _
  simp [createCoreAUXV, hd, tripCount_ofNat hlen]

/-- The state before the thread records and the auxiliary vector are collected. -/
theorem gather_eq {d : Dumper a} (hd : d.Fresh) (view : ProcessView a) :
    parseProcessMapsVma (stopTheWorld (prepare d) view) view.maps =
      { d with
        ehdr := {}
        note := {}
        threads := view.tasks.map fun tid => ⟨tid, view.attach tid⟩
        maps := view.maps
        phdr := view.maps.map fun vma => parserPhdr ELF_PAGE_SIZE vma {}
        file := view.maps.map (parserNtFile a.cls)
        fileslen := BitVec.ofNat 32 (namesSize view.maps) } := by
  have hparse := parseProcessMapsVma_eq (d := stopTheWorld (prepare d) view)
    (by rw [stopTheWorld_eq]; exact hd.maps) (by rw [stopTheWorld_eq]; exact hd.phdr)
    (by rw [stopTheWorld_eq]; exact hd.file) (by rw [stopTheWorld_eq]; exact hd.fileslen) view.maps
  rw [hparse, stopTheWorld_eq]
  simp only [prepare, hd.threads, hd.align, List.nil_append]

theorem createCorePrStatus_frame {d d' : Dumper a} {regset : BitVec 32 → Option a.PtRegs}
    (h : createCorePrStatus d regset = some d') :
    ∃ prstatus, d' = { d with
      prstatus := prstatus
      extra_note_filesz := d.extra_note_filesz +
        BitVec.ofNat 32 (slotsSize a d.threads.length) } := by
  unfold createCorePrStatus at h
  split_ifs at h with hnil
  · obtain rfl := Option.some.inj h
    have hzero : slotsSize a d.threads.length = 0 := by
      rw [hnil]
      rfl
    refine ⟨d.prstatus, ?_⟩
    rw [hzero]
    simp
  · obtain ⟨prstatus, -, h⟩ := Option.bind_eq_some_iff.mp h
    obtain rfl := Option.some.inj h
    have hne : d.threads.length ≠ 0 := mt List.length_eq_zero_iff.mp hnil
    refine ⟨prstatus, ?_⟩
    rw [slotsSize, if_neg hne, ← extraNoteFilesz_eq]

/-- What `collect` has gathered before the thread records. -/
def gather (d : Dumper a) (view : ProcessView a) : Dumper a :=
  createCoreNoteHeader (createCoreHeader
    (parseProcessMapsVma (stopTheWorld (prepare d) view) view.maps))

theorem collect_gather (d : Dumper a) (view : ProcessView a) :
    collect d view = (createCorePrStatus (gather d view) view.prstatus).map
      fun d => createCoreAUXV d view.auxv := by
  rw [Option.map_eq_bind]
  rfl

theorem collect_ehdr {d d1 : Dumper a} (hd : d.Fresh) {view : ProcessView a}
    (h : collect d view = some d1) :
    d1.ehdr.e_phoff = BitVec.ofNat a.cls.bits (sizeofEhdr a.cls) ∧
      d1.ehdr.e_phnum = BitVec.ofNat 16 (view.maps.length + 1) := by
  rw [collect_gather] at h
  obtain ⟨d2, hpr, rfl⟩ := Option.map_eq_some_iff.mp h
  obtain ⟨prstatus, rfl⟩ := createCorePrStatus_frame hpr
  simp only [gather, gather_eq hd, createCoreNoteHeader, createCoreHeader, createCoreAUXV,
    List.length_map, phnum_eq, and_self]

/-- `collect` succeeds, and its members hold the process. -/
theorem collect_spec {d : Dumper a} (hd : d.Fresh) (view : ProcessView a)
    (htasks : view.tasks.length < 2 ^ 31) :
    ∃ d1, collect d view = some d1 ∧ Collected view d1 ∧ SameSettings d d1 ∧
      d1.note.p_filesz = 0 ∧
      d1.phdr = view.maps.map fun vma => parserPhdr ELF_PAGE_SIZE vma {} := by
  let gathered := createCoreNoteHeader (createCoreHeader
    (parseProcessMapsVma (stopTheWorld (prepare d) view) view.maps))
  have hthreads : gathered.threads.length = view.tasks.length := by
    simp only [gathered, gather_eq hd, createCoreNoteHeader, createCoreHeader, List.length_map]
  have hextra : gathered.extra_note_filesz = 0 := by
    simp only [gathered, gather_eq hd, createCoreNoteHeader, createCoreHeader, hd.extra]
  have hprstatus : gathered.prstatus = [] := by
    simp only [gathered, gather_eq hd, createCoreNoteHeader, createCoreHeader, hd.prstatus]
  obtain ⟨prstatus, hpr, hprnum⟩ :=
    createCorePrStatus_in_range gathered view.prstatus hextra hprstatus (by omega)
  rw [hthreads] at hpr hprnum
  have hcollect : collect d view = some (createCoreAUXV { gathered with
      prstatus := prstatus
      extra_note_filesz := BitVec.ofNat 32 (slotsSize a view.tasks.length) } view.auxv) := by
    simp only [collect, Option.bind_eq_bind]
    rw [hpr, Option.bind_some]
  simp only [gathered, gather_eq hd, createCoreNoteHeader, createCoreHeader] at hcollect
  refine ⟨_, hcollect, ?_, ⟨rfl, rfl, rfl, rfl, rfl⟩, rfl, rfl⟩
  exact {
    align := hd.align
    maps := rfl
    phnum := List.length_map _
    file := rfl
    fileslen := rfl
    note_type := rfl
    note_offset := by
      simp only [createCoreAUXV, List.length_map, phnum_eq]
      rw [setWidth_phnum, ← BitVec.ofNat_mul, ← BitVec.ofNat_add]
    prnum := hprnum
    extra := rfl
    auxvnum := by
      simp only [createCoreAUXV, hd.auxvnum]
      exact BitVec.zero_add _
    auxv := fun hlen => createCoreAUXV_auxv hd.auxvnum hlen }

theorem Collected.filtered {view : ProcessView a} {d : Dumper a} (h : Collected view d)
    (flags : List (BitVec 32)) :
    Collected view { d with phdr := applyVmaFlags flags d.phdr } :=
  { h with phnum := (length_applyVmaFlags flags d.phdr).trans h.phnum }

theorem specialCoreFilter_flags {d d' : Dumper a} {files : Bytes → Option FileImage}
    (h : specialCoreFilter d files = some d') :
    ∃ flags, d' = { d with phdr := applyVmaFlags flags d.phdr } := by
  obtain ⟨flags, -, rfl⟩ := Option.map_eq_some_iff.mp h
  exact ⟨flags, rfl⟩

theorem doCoredump_unfiltered {d : Dumper a} (hd : d.Fresh) (hfilter : d.filter = FILTER_NONE)
    (view : ProcessView a) (htasks : view.tasks.length < 2 ^ 31) (plan : ℕ → WriteResult) :
    ∃ d1, collect d view = some d1 ∧ Collected view d1 ∧ d1.note.p_filesz = 0 ∧
      d1.phdr = (view.maps.map fun vma => parserPhdr ELF_PAGE_SIZE vma {}) ∧
      specialCoreFilter d1 view.files = some d1 ∧
      doCoredump d view plan = some (writeCore d1 view (FILE.create plan)) := by
  obtain ⟨d1, hcollect, hcol, hset, hz, hphdr⟩ := collect_spec hd view htasks
  have hkeep := specialCoreFilter_none (hset.filter.trans hfilter) view.files
  refine ⟨d1, hcollect, hcol, hz, hphdr, hkeep, ?_⟩
  rw [doCoredump_eq, hcollect, Option.bind_some, hkeep, Option.map_some]

def anonymousVma (beginAddr endAddr : BitVec 64) : VirtualMemoryArea :=
  ⟨beginAddr, endAddr, #v[114, 119, 45, 112], 0, 0, 0, 0, []⟩

/-- A process with the given threads, one writable page and nothing that can be read. -/
def onePageProcess (a : Arch) (tasks : List Tid) : ProcessView a where
  tasks := tasks
  attach := fun _ => true
  maps := [anonymousVma 0x1000 0x2000]
  auxv := []
  mem := some ⟨fun _ _ => none, nofun⟩
  files := fun _ => none
  prstatus := fun _ => none
  fpregset := fun _ => none
  tls := fun _ => none
  pacMask := fun _ => none
  pacEnabledKeys := fun _ => none
  taggedAddrCtrl := fun _ => none

end Opencore
