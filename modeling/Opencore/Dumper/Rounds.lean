import Opencore.Dumper.Layout
import Opencore.Control.Singleton

/-! Several dumps by one object, each followed by `Finish`. -/
namespace Opencore
open Machine Elf

variable {a : Arch}

namespace Dumper

/-- `Opencore::Finish` of the base class; `Continue` clears the threads. -/
def finishBase (d : Dumper a) : Dumper a :=
  (({ d with threads := [], maps := [] } : Dumper a).setContext none).setSignalInfo none

/-- `OpencoreImpl::Finish` of lp32 and lp64. -/
def finishImpl (d : Dumper a) : Dumper a := finishBase { d with auxv := [], phdr := [], file := [] }

def finish (d : Dumper a) : Dumper a := finishImpl { d with prstatus := [] }

def setRound (option : DumpOption a) (d : Dumper a) : Dumper a :=
  (((d.setPid option.pid).setTid option.tid).setSignalInfo option.siginfo).setContext option.context

/-- The three counters of which `Prepare` and `Finish` reset none. -/
def carry (d : Dumper a) (extra_note_filesz fileslen auxvnum : BitVec 32) : Dumper a :=
  { d with extra_note_filesz := extra_note_filesz, fileslen := fileslen, auxvnum := auxvnum }

end Dumper

/-- The cores of a number of rounds whose writes succeed; `none` if one of them dies. -/
def rounds (option : DumpOption a) (view : ProcessView a) : ℕ → Dumper a → Option (List Bytes)
  | 0, _ => some []
  | k + 1, d => do
    let (d, fp) ← doCoredump (d.setRound option) view fun _ => .ok
    let cores ← rounds option view k d.finish
    some (fp.content :: cores)

/-- The process gives the counters nothing to count. -/
structure NothingCounted (view : ProcessView a) : Prop where
  tasks : view.tasks = []
  maps : view.maps = []
  auxv : view.auxv = []

/-- What a dump after another one collects: the counters go on from where they were. -/
def countOn (view : ProcessView a) (extra_note_filesz fileslen auxvnum : BitVec 32)
    (d : Dumper a) : Dumper a :=
  { d with
    extra_note_filesz := extra_note_filesz + d.extra_note_filesz
    fileslen := fileslen + d.fileslen
    auxvnum := auxvnum + d.auxvnum
    auxv := view.auxv ++
      List.replicate (tripCount (auxvnum + d.auxvnum) - view.auxv.length) {} }

theorem addFileslen_add (fileslen : BitVec 32) (maps : List VirtualMemoryArea) :
    addFileslen fileslen maps = fileslen + addFileslen 0 maps := by
  have hzero := addFileslen_eq 0 maps
  have hsum := addFileslen_eq fileslen.toNat maps
  rw [BitVec.ofNat_toNat, BitVec.setWidth_eq] at hsum
  rw [hsum, show (0 : BitVec 32) = BitVec.ofNat 32 0 from rfl, hzero, Nat.zero_add,
    BitVec.ofNat_add, BitVec.ofNat_toNat, BitVec.setWidth_eq]

section Carry

variable {d : Dumper a} (view : ProcessView a) (extra_note_filesz fileslen auxvnum : BitVec 32)

theorem parseProcessMapsVma_carry (hlen : d.fileslen = 0) (areas : List VirtualMemoryArea) :
    parseProcessMapsVma (d.carry extra_note_filesz fileslen auxvnum) areas =
      (parseProcessMapsVma d areas).carry extra_note_filesz
        (fileslen + (parseProcessMapsVma d areas).fileslen) auxvnum := by
  unfold parseProcessMapsVma Dumper.carry
  by_cases hnil : d.maps ++ areas = []
  · simp [hnil, hlen]
  · simp only [hnil, if_false, hlen]
    rw [addFileslen_add]

theorem stopTheWorld_carry :
    stopTheWorld (d.carry extra_note_filesz fileslen auxvnum) view =
      (stopTheWorld d view).carry extra_note_filesz fileslen auxvnum := by
  rw [stopTheWorld_eq, stopTheWorld_eq]
  rfl

theorem createCorePrStatus_carry (hextra : d.extra_note_filesz = 0)
    (regset : BitVec 32 → Option a.PtRegs) :
    createCorePrStatus (d.carry extra_note_filesz fileslen auxvnum) regset =
      (createCorePrStatus d regset).map fun d' =>
        d'.carry (extra_note_filesz + d'.extra_note_filesz) fileslen auxvnum := by
  unfold createCorePrStatus Dumper.carry
  by_cases hnil : d.threads = []
  · simp [hnil, hextra]
  · simp only [hnil, if_false, hextra, Option.bind_eq_bind, Option.map_bind]
    congr 1
    funext prstatus
    simp

theorem gather_carry (hd : d.Fresh) :
    gather (d.carry extra_note_filesz fileslen auxvnum) view =
      (gather d view).carry extra_note_filesz (fileslen + (gather d view).fileslen) auxvnum := by
  have hlen : (stopTheWorld (prepare d) view).fileslen = 0 := by
    rw [stopTheWorld_eq]
    exact hd.fileslen
  have hprepare : prepare (d.carry extra_note_filesz fileslen auxvnum) =
      (prepare d).carry extra_note_filesz fileslen auxvnum := rfl
  unfold gather
  rw [hprepare, stopTheWorld_carry, parseProcessMapsVma_carry _ _ _ hlen]
  rfl

/-- A dump collects the same after another one, but for the counters. -/
theorem collect_carry (hd : d.Fresh) :
    collect (d.carry extra_note_filesz fileslen auxvnum) view =
      (collect d view).map (countOn view extra_note_filesz fileslen auxvnum) := by
  have hextra : (gather d view).extra_note_filesz = 0 := by
    simp only [gather, gather_eq hd, createCoreNoteHeader, createCoreHeader, hd.extra]
  have hauxvnum : (gather d view).auxvnum = 0 := by
    simp only [gather, gather_eq hd, createCoreNoteHeader, createCoreHeader, hd.auxvnum]
  rw [collect_gather, collect_gather, gather_carry _ _ _ _ hd,
    createCorePrStatus_carry _ _ _ hextra, Option.map_map, Option.map_map]
  cases hpr : createCorePrStatus (gather d view) view.prstatus with
  | none => simp only [Option.map_none]
  | some d' =>
    obtain ⟨prstatus, rfl⟩ := createCorePrStatus_frame hpr
    simp [countOn, createCoreAUXV, Dumper.carry, hauxvnum]

theorem specialCoreFilter_countOn (files : Bytes → Option FileImage) :
    specialCoreFilter (countOn view extra_note_filesz fileslen auxvnum d) files =
      (specialCoreFilter d files).map (countOn view extra_note_filesz fileslen auxvnum) := by
  have hflag : vmaFlag (countOn view extra_note_filesz fileslen auxvnum d) files =
      vmaFlag d files := rfl
  unfold specialCoreFilter
  rw [hflag, Option.map_map]
  rfl

end Carry

section Object

variable {d : Dumper a} {view : ProcessView a}

/-- The object in front of the next round: one round has counted into it. -/
def Dumper.afterRound (d : Dumper a) (view : ProcessView a) : Dumper a :=
  d.carry (BitVec.ofNat 32 (slotsSize a view.tasks.length))
    (BitVec.ofNat 32 (namesSize view.maps)) (BitVec.ofNat 32 view.auxv.length)

/-- The members after collecting, with those that `Finish` or `Prepare` resets left open. -/
theorem collect_members (hd : d.Fresh) {d1 : Dumper a} (h : collect d view = some d1) :
    ∃ ehdr note threads maps phdr file auxv prstatus, d1 = { d.afterRound view with
      ehdr := ehdr
      note := note
      threads := threads
      maps := maps
      phdr := phdr
      file := file
      auxv := auxv
      prstatus := prstatus } := by
  rw [collect_gather] at h
  obtain ⟨d2, hpr, rfl⟩ := Option.map_eq_some_iff.mp h
  obtain ⟨prstatus, rfl⟩ := createCorePrStatus_frame hpr
  simp only [gather, gather_eq hd, createCoreNoteHeader, createCoreHeader, createCoreAUXV,
    List.length_map, hd.extra, hd.auxvnum]
  rw [show (0 : BitVec 32) + _ = _ from BitVec.zero_add _,
    show (0 : BitVec 32) + _ = _ from BitVec.zero_add _]
  exact ⟨_, _, _, _, _, _, _, _, rfl⟩

theorem writeCoreProgramHeaders_members (d : Dumper a) (fp : FILE) :
    ∃ phdr, (writeCoreProgramHeaders d fp).1 = { d with phdr := phdr } := by
  unfold writeCoreProgramHeaders
  by_cases hnil : d.phdr = []
  · rw [if_pos hnil]
    exact ⟨d.phdr, rfl⟩
  · rw [if_neg hnil]
    exact ⟨_, rfl⟩

theorem writeCore_members (d : Dumper a) (view : ProcessView a) (fp : FILE) :
    ∃ note phdr, (writeCore d view fp).1 = { d with note := note, phdr := phdr } := by
  let noted := writeCoreNoteHeader d (writeCoreHeader d fp)
  obtain ⟨phdr, hphdr⟩ := writeCoreProgramHeaders_members noted.1 noted.2
  exact ⟨_, phdr, hphdr⟩

/-- After `Finish` and the settings of the next round only the counters differ from a new
object, and the headers, which `Prepare` clears. -/
theorem setRound_finish (hd : d.Fresh) (hauxv : d.auxv = []) (option : DumpOption a)
    {plan : ℕ → WriteResult} {d' : Dumper a} {fp : FILE}
    (h : doCoredump (d.setRound option) view plan = some (d', fp)) :
    ∃ ehdr note, d'.finish.setRound option =
      { (d.afterRound view).setRound option with ehdr := ehdr, note := note } := by
  have hround : (d.setRound option).Fresh := { hd with }
  obtain ⟨d1, hcollect, h⟩ := Option.bind_eq_some_iff.mp h
  obtain ⟨d2, hfilter, h⟩ := Option.bind_eq_some_iff.mp h
  obtain ⟨flags, hflags⟩ := specialCoreFilter_flags hfilter
  obtain ⟨note, phdr, hwrite⟩ := writeCore_members d2 view (FILE.create plan)
  obtain ⟨ehdr, note', threads, maps, phdr', file, auxv, prstatus, hmembers⟩ :=
    collect_members hround hcollect
  rw [Option.some.inj h] at hwrite
  dsimp only at hwrite
  refine ⟨ehdr, note, ?_⟩
  rw [hwrite, hflags, hmembers]
  obtain ⟨-, hthreads, hmaps, -, hphdr, -, hfile, -, hprstatus⟩ := hd
  cases d
  dsimp only at hauxv hthreads hmaps hphdr hfile hprstatus
  subst hauxv hthreads hmaps hphdr hfile hprstatus
  rfl

/-- A round does not depend on the headers left by the one before it. -/
theorem rounds_headers (option : DumpOption a) (view : ProcessView a) {d d' : Dumper a}
    {ehdr : Ehdr a.cls} {note : Phdr a.cls}
    (h : d'.setRound option = { d.setRound option with ehdr := ehdr, note := note }) (k : ℕ) :
    rounds option view k d' = rounds option view k d := by
  cases k with
  | zero => rfl
  | succ k =>
    rw [rounds, rounds, h]
    rfl

theorem rounds_first (hd : d.Fresh) (hauxv : d.auxv = []) {option : DumpOption a} {k : ℕ}
    {cores : List Bytes} (h : rounds option view (k + 1) d = some cores) :
    ∃ d' fp rest, doCoredump (d.setRound option) view (fun _ => .ok) = some (d', fp) ∧
      rounds option view k (d.afterRound view) = some rest ∧ cores = fp.content :: rest := by
  obtain ⟨⟨d', fp⟩, hdump, h⟩ := Option.bind_eq_some_iff.mp h
  obtain ⟨rest, hrest, h⟩ := Option.bind_eq_some_iff.mp h
  obtain ⟨ehdr, note, hfinish⟩ := setRound_finish hd hauxv option hdump
  refine ⟨d', fp, rest, hdump, ?_, (Option.some.inj h).symm⟩
  rw [← rounds_headers option view hfinish]
  exact hrest

theorem afterRound_nothing (hd : d.Fresh) (h : NothingCounted view) : d.afterRound view = d := by
  unfold Dumper.afterRound
  rw [h.tasks, h.maps, h.auxv]
  obtain ⟨hextra, -, -, -, -, hauxvnum, -, hfileslen, -⟩ := hd
  cases d
  dsimp only at hextra hauxvnum hfileslen
  subst hextra hauxvnum hfileslen
  rfl

/-- By induction on the rounds: each of them starts from the same object. -/
theorem rounds_nothing (hd : d.Fresh) (hauxv : d.auxv = []) (hn : NothingCounted view)
    {option : DumpOption a} {d' : Dumper a} {fp : FILE}
    (hdump : doCoredump (d.setRound option) view (fun _ => .ok) = some (d', fp)) {k : ℕ}
    {cores : List Bytes} (h : rounds option view k d = some cores) :
    cores = List.replicate k fp.content := by
  induction k generalizing cores with
  | zero => exact (Option.some.inj h).symm
  | succ k ih =>
    obtain ⟨d1, fp1, rest, hfirst, hrest, rfl⟩ := rounds_first hd hauxv h
    rw [afterRound_nothing hd hn] at hrest
    obtain ⟨-, rfl⟩ := Prod.mk.inj (Option.some.inj (hfirst.symm.trans hdump))
    rw [ih hrest, List.replicate_succ]

end Object
end Opencore
