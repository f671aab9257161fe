import Opencore.Dumper.Core
import Opencore.Control.CorePath

/-! The bits of the flag and of the filter that no test reads: a dump does not depend on them. -/
namespace Opencore
open Machine Elf

variable {a : Arch}

def flagBits : List (BitVec 32) :=
  [FLAG_CORE, FLAG_PROCESS_COMM, FLAG_PID, FLAG_THREAD_COMM, FLAG_TID, FLAG_TIMESTAMP]

def filterBits : List (BitVec 32) :=
  [FILTER_SPECIAL_VMA, FILTER_FILE_VMA, FILTER_SHARED_VMA, FILTER_SANITIZER_SHADOW_VMA,
    FILTER_NON_READ_VMA, FILTER_SIGNAL_CONTEXT, FILTER_MINIDUMP, FILTER_JAVAHEAP_VMA,
    FILTER_JIT_CACHE_VMA]

/-- The masks have the same answer to each of these tests. -/
def SameBits (bits : List (BitVec 32)) (mask mask' : BitVec 32) : Prop :=
  ∀ bit ∈ bits, has mask bit = has mask' bit

instance (bits : List (BitVec 32)) (mask mask' : BitVec 32) :
    Decidable (SameBits bits mask mask') :=
  List.decidableBAll _ bits

def Dumper.masked (d : Dumper a) (flag filter : BitVec 32) : Dumper a :=
  { d with flag := flag, filter := filter }

variable {d : Dumper a} {flag filter : BitVec 32}

theorem stopTheWorld_masked (d : Dumper a) (flag filter : BitVec 32) (view : ProcessView a) :
    stopTheWorld (d.masked flag filter) view = (stopTheWorld d view).masked flag filter := by
  rw [stopTheWorld, stopTheWorld]
  generalize view.tasks = tasks
  induction tasks generalizing d with
  | nil => rfl
  | cons tid tasks ih => exact ih (stopTheThread d view.attach tid)

theorem parseProcessMapsVma_masked (d : Dumper a) (flag filter : BitVec 32)
    (areas : List VirtualMemoryArea) :
    parseProcessMapsVma (d.masked flag filter) areas =
      (parseProcessMapsVma d areas).masked flag filter := by
  unfold parseProcessMapsVma
  by_cases hnil : d.maps ++ areas = []
  · rw [if_pos hnil, if_pos (show (d.masked flag filter).maps ++ areas = [] from hnil)]
    rfl
  · rw [if_neg hnil, if_neg (show (d.masked flag filter).maps ++ areas ≠ [] from hnil)]
    rfl

theorem createCorePrStatus_masked (d : Dumper a) (flag filter : BitVec 32)
    (regset : BitVec 32 → Option a.PtRegs) :
    createCorePrStatus (d.masked flag filter) regset =
      (createCorePrStatus d regset).map fun d => d.masked flag filter := by
  unfold createCorePrStatus
  by_cases hnil : d.threads = []
  · rw [if_pos hnil, if_pos (show (d.masked flag filter).threads = [] from hnil)]
    rfl
  · rw [if_neg hnil, if_neg (show (d.masked flag filter).threads ≠ [] from hnil)]
    simp only [Option.bind_eq_bind, Option.map_bind]
    rfl

theorem collect_masked (d : Dumper a) (flag filter : BitVec 32) (view : ProcessView a) :
    collect (d.masked flag filter) view =
      (collect d view).map fun d => d.masked flag filter := by
  have hprepare : prepare (d.masked flag filter) = (prepare d).masked flag filter := rfl
  simp only [collect, hprepare, stopTheWorld_masked, parseProcessMapsVma_masked]
  generalize parseProcessMapsVma (stopTheWorld (prepare d) view) view.maps = d
  have hheader : createCoreNoteHeader (createCoreHeader (d.masked flag filter)) =
      (createCoreNoteHeader (createCoreHeader d)).masked flag filter := rfl
  simp only [hheader, createCorePrStatus_masked, Option.bind_eq_bind, Option.bind_map,
    Option.map_bind]
  rfl

theorem collect_filter {d' : Dumper a} {view : ProcessView a} (h : collect d view = some d') :
    d'.filter = d.filter := by
  have hself : d.masked d.flag d.filter = d := rfl
  have hsame := collect_masked d d.flag d.filter view
  rw [hself, h, Option.map_some] at hsame
  calc
    d'.filter = (d'.masked d.flag d.filter).filter := congrArg Dumper.filter (Option.some.inj hsame)
    _ = d.filter := rfl

/-- The verdict on a mapping depends on the tested bits only. -/
theorem vmaFlag_masked (h : SameBits filterBits d.filter filter)
    (files : Bytes → Option FileImage) (vma : VirtualMemoryArea) :
    vmaFlag (d.masked flag filter) files vma = vmaFlag d files vma := by
  have hbit {bit : BitVec 32} (hmem : bit ∈ filterBits) :
      has (d.masked flag filter).filter bit = has d.filter bit := (h bit hmem).symm
  have hsegment : isFilterSegment (d.masked flag filter) files vma =
      isFilterSegment d files vma := by
    unfold isFilterSegment
    rw [hbit (by decide), hbit (by decide), hbit (by decide), hbit (by decide), hbit (by decide),
      hbit (by decide), hbit (by decide)]
    rfl
  have hspecial : isSpecialFilterSegment (d.masked flag filter) vma =
      isSpecialFilterSegment d vma := by
    unfold isSpecialFilterSegment
    rw [hbit (by decide)]
    rfl
  rw [vmaFlag, vmaFlag, hsegment, hspecial]

theorem specialCoreFilter_masked (h : SameBits filterBits d.filter filter)
    (files : Bytes → Option FileImage) :
    specialCoreFilter (d.masked flag filter) files =
      (specialCoreFilter d files).map fun d => d.masked flag filter := by
  have hflags : vmaFlag (d.masked flag filter) files = vmaFlag d files :=
    funext (vmaFlag_masked h files)
  rw [specialCoreFilter, specialCoreFilter, hflags, Option.map_map]
  rfl

theorem writeCoreProgramHeaders_masked (d : Dumper a) (flag filter : BitVec 32) (fp : FILE) :
    writeCoreProgramHeaders (d.masked flag filter) fp =
      ((writeCoreProgramHeaders d fp).1.masked flag filter, (writeCoreProgramHeaders d fp).2) := by
  unfold writeCoreProgramHeaders
  by_cases hnil : d.phdr = []
  · rw [if_pos hnil, if_pos (show (d.masked flag filter).phdr = [] from hnil)]
  · rw [if_neg hnil, if_neg (show (d.masked flag filter).phdr ≠ [] from hnil)]
    rfl

theorem writeCore_masked (d : Dumper a) (flag filter : BitVec 32) (view : ProcessView a)
    (fp : FILE) :
    writeCore (d.masked flag filter) view fp =
      ((writeCore d view fp).1.masked flag filter, (writeCore d view fp).2) := by
  let d1 := (writeCoreNoteHeader d (writeCoreHeader d fp)).1
  have hheaders := writeCoreProgramHeaders_masked d1 flag filter
    (writeCoreNoteHeader d (writeCoreHeader d fp)).2
  have hmasked : writeHeaders (d.masked flag filter) fp =
      ((writeHeaders d fp).1.masked flag filter, (writeHeaders d fp).2) := hheaders
  rw [writeCore, writeCore, hmasked]
  rfl

theorem doCoredump_masked (h : SameBits filterBits d.filter filter) (view : ProcessView a)
    (plan : ℕ → WriteResult) :
    doCoredump (d.masked flag filter) view plan =
      (doCoredump d view plan).map fun (d, fp) => (d.masked flag filter, fp) := by
  rw [doCoredump_eq, doCoredump_eq, collect_masked]
  cases hcollect : collect d view with
  | none => rfl
  | some d1 =>
    have hfilter : SameBits filterBits d1.filter filter := collect_filter hcollect ▸ h
    change Option.map _ (specialCoreFilter (d1.masked flag filter) view.files) =
      Option.map _ (Option.map _ (specialCoreFilter d1 view.files))
    rw [specialCoreFilter_masked hfilter, Option.map_map, Option.map_map]
    congr 1
    funext d2
    exact writeCore_masked d2 flag filter view (FILE.create plan)

theorem effectiveFlag_bit {flag' bit : BitVec 32} (h : SameBits flagBits flag flag')
    (hbit : bit ∈ flagBits) : has (effectiveFlag flag) bit = has (effectiveFlag flag') bit := by
  have hall : has flag FLAG_ALL = has flag' FLAG_ALL := by
    rw [FLAG_ALL, has_or_bit, has_or_bit, has_or_bit, has_or_bit, has_or_bit, has_or_bit,
      has_or_bit, has_or_bit, has_or_bit, has_or_bit, h _ (by decide), h _ (by decide),
      h _ (by decide), h _ (by decide), h _ (by decide), h _ (by decide)]
  rw [effectiveFlag, effectiveFlag, hall]
  split_ifs
  · exact h bit hbit
  · rw [has_or_mask, has_or_mask, has_or_mask, has_or_mask, h bit hbit]

theorem nameOf_congr {flag' : BitVec 32} (h : SameBits flagBits flag flag') (pid tid : BitVec 32)
    {c : ElfClass} (src : NameSources c) :
    nameOf (effectiveFlag flag) pid tid src = nameOf (effectiveFlag flag') pid tid src := by
  have hbit {bit : BitVec 32} (hmem : bit ∈ flagBits) := effectiveFlag_bit h hmem
  simp only [nameOf, nameFields, hbit (show FLAG_CORE ∈ flagBits by decide),
    hbit (show FLAG_PROCESS_COMM ∈ flagBits by decide), hbit (show FLAG_PID ∈ flagBits by decide),
    hbit (show FLAG_THREAD_COMM ∈ flagBits by decide), hbit (show FLAG_TID ∈ flagBits by decide),
    hbit (show FLAG_TIMESTAMP ∈ flagBits by decide)]

end Opencore
