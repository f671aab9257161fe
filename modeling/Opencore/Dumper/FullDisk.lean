import Opencore.Dumper.CoreMemory

/-! A disk that fills up during the dump: what has been stored by then is the beginning of the
core that an empty disk would have got. -/
namespace Opencore
open Machine Elf

variable {a : Arch}

/-- The disk takes `n` writes and a part of the next one, and is full from there on. -/
def fullDisk (n written : ℕ) (k : ℕ) : WriteResult :=
  if k < n then .ok else .fail ENOSPC (if k = n then written else 0)

def NothingFits (plan : ℕ → WriteResult) : Prop := ∀ k, plan k = .fail ENOSPC 0

/-- A stream on a disk that fills up, beside one that has room. -/
structure Cut (fp fp' : FILE) : Prop where
  appending : fp.Appending
  at_end : fp'.pos = fp'.content.length
  stored : (fp'.content = fp.content ∧ ∃ n written, fp'.plan = fullDisk n written) ∨
    (fp'.content <+: fp.content ∧ NothingFits fp'.plan)

theorem cut_create (n written : ℕ) :
    Cut (FILE.create fun _ => .ok) (FILE.create (fullDisk n written)) where
  appending := FILE.appending_create fun _ => rfl
  at_end := rfl
  stored := Or.inl ⟨rfl, n, written, rfl⟩

theorem fullDisk_zero (written : ℕ) : fullDisk 0 written 0 = .fail ENOSPC written := rfl

theorem fullDisk_succ (n written : ℕ) : fullDisk (n + 1) written 0 = .ok := rfl

theorem fullDisk_shift (n written : ℕ) :
    (fun k => fullDisk (n + 1) written (k + 1)) = fullDisk n written := by
  funext k
  simp only [fullDisk, Nat.add_lt_add_iff_right, Nat.add_right_cancel_iff]

theorem nothingFits_shift (written : ℕ) :
    NothingFits fun k => fullDisk 0 written (k + 1) := by
  intro k
  simp [fullDisk]

namespace Cut

variable {fp fp' : FILE}

theorem part (h : Cut fp fp') : fp'.content <+: fp.content := by
  rcases h.stored with ⟨heq, -⟩ | ⟨hpre, -⟩
  · rw [heq]
  · exact hpre

theorem full (happ : fp.Appending) (hend : fp'.pos = fp'.content.length)
    (hpre : fp'.content <+: fp.content) (hfull : NothingFits fp'.plan) (b b' : Bytes) :
    Cut (fp.append b) (fp'.fwrite b').2 := by
  have hstore : (fp'.fwrite b').2.content = fp'.content := by
    rw [FILE.fwrite_fail (hfull 0), List.take_zero]
    exact (FILE.store_at_end hend []).trans (List.append_nil _)
  refine ⟨happ.append b, ?_, Or.inr ⟨?_, ?_⟩⟩
  · rw [hstore, FILE.fwrite_fail (hfull 0)]
    exact hend
  · rw [hstore]
    exact hpre.trans (List.prefix_append _ _)
  · intro k
    rw [FILE.fwrite_fail (hfull 0)]
    exact hfull (k + 1)

theorem fwrite (h : Cut fp fp') (b : Bytes) :
    Cut (fp.append b) (fp'.fwrite b).2 ∧
      ((fp'.fwrite b).1 = .ok ∨ ((∃ written, (fp'.fwrite b).1 = .fail ENOSPC written) ∧
        NothingFits (fp'.fwrite b).2.plan)) := by
  rcases h.stored with ⟨heq, n, written, hplan⟩ | ⟨hpre, hfull⟩
  · cases n with
    | zero =>
      have hfail : fp'.plan 0 = .fail ENOSPC written := by rw [hplan, fullDisk_zero]
      have hgrown := FILE.grown_store h.at_end (b.take written)
      have hnothing : NothingFits fun k => fp'.plan (k + 1) := by
        rw [hplan]
        exact nothingFits_shift written
      rw [FILE.fwrite_fail hfail]
      refine ⟨⟨h.appending.append b, hgrown.at_end, Or.inr ⟨?_, hnothing⟩⟩,
        Or.inr ⟨⟨written, rfl⟩, hnothing⟩⟩
      rw [hgrown.content, heq]
      exact List.prefix_append_right_inj _ |>.mpr (List.take_prefix _ _)
    | succ n =>
      have hok : fp'.plan 0 = .ok := by rw [hplan, fullDisk_succ]
      have hgrown := FILE.grown_store h.at_end b
      rw [FILE.fwrite_ok hok]
      refine ⟨⟨h.appending.append b, hgrown.at_end, Or.inl ⟨?_, n, written, ?_⟩⟩, Or.inl rfl⟩
      · rw [hgrown.content, heq]
        rfl
      · change (fun k => fp'.plan (k + 1)) = _
        rw [hplan, fullDisk_shift]
  · have hnext := full h.appending h.at_end hpre hfull b b
    refine ⟨hnext, Or.inr ⟨⟨0, ?_⟩, ?_⟩⟩
    · rw [FILE.fwrite_fail (hfull 0)]
    · rw [FILE.fwrite_fail (hfull 0)]
      exact fun k => hfull (k + 1)

theorem write (h : Cut fp fp') (b : Bytes) : Cut (fp.write b) (fp'.write b) := by
  rw [FILE.write_eq h.appending]
  exact (h.fwrite b).1

theorem record (h : Cut fp fp') (nhdr magic desc : Bytes) :
    Cut (((fp.write nhdr).write magic).write desc) (((fp'.write nhdr).write magic).write desc) :=
  ((h.write nhdr).write magic).write desc

theorem foldl {α : Type*} {step : FILE → α → FILE}
    (hstep : ∀ {fp fp' : FILE} x, Cut fp fp' → Cut (step fp x) (step fp' x)) (h : Cut fp fp')
    (xs : List α) : Cut (xs.foldl step fp) (xs.foldl step fp') := by
  induction xs generalizing fp fp' with
  | nil => exact h
  | cons x xs ih => exact ih (hstep x h)

theorem foldl_write {α : Type*} (h : Cut fp fp') (f : α → Bytes) (xs : List α) :
    Cut (xs.foldl (fun fp x => fp.write (f x)) fp) (xs.foldl (fun fp x => fp.write (f x)) fp') :=
  foldl (fun x h => h.write (f x)) h xs

/-- The page loop stores all pages, or returns with the disk full. -/
theorem writePages {c : ElfClass} (h : Cut fp fp') (mem : ProcMem) (align_size : BitVec 32)
    (ph : Phdr c) (n i : ℕ) :
    Cut (Opencore.writePages mem align_size ph n i fp).2
        (Opencore.writePages mem align_size ph n i fp').2 ∧
      ((Opencore.writePages mem align_size ph n i fp').1 = .done ∨
        ((Opencore.writePages mem align_size ph n i fp').1 = .noSpace ∧
          NothingFits (Opencore.writePages mem align_size ph n i fp').2.plan)) := by
  induction n generalizing i fp fp' with
  | zero => exact ⟨h, Or.inl rfl⟩
  | succ n ih =>
    obtain ⟨hnext, hresult⟩ := h.fwrite (readPage mem align_size ph i)
    have hfirst : Opencore.writePages mem align_size ph (n + 1) i fp =
        Opencore.writePages mem align_size ph n (i + 1)
          (fp.append (readPage mem align_size ph i)) := by
      rw [Opencore.writePages, FILE.fwrite_eq h.appending]
    rw [hfirst, Opencore.writePages]
    rcases hwrite : fp'.fwrite (readPage mem align_size ph i) with ⟨result, next⟩
    rw [hwrite] at hnext hresult
    rcases hresult with rfl | ⟨⟨written, rfl⟩, hfull⟩
    · exact ih hnext (i + 1)
    · -- the stream with room goes on alone
      have hrest := writePages_eq hnext.appending mem align_size ph n (i + 1)
      dsimp only
      rw [if_pos rfl, hrest]
      refine ⟨?_, Or.inr ⟨rfl, hfull⟩⟩
      exact ⟨hnext.appending.append _, hnext.at_end,
        Or.inr ⟨hnext.part.trans (List.prefix_append _ _), hfull⟩⟩

/-- The `while` loop goes on to the next segment, or returns. -/
theorem writeSegments {c : ElfClass} (h : Cut fp fp') (mem : ProcMem) (align_size : BitVec 32)
    (phdr : List (Phdr c)) : Cut (Opencore.writeSegments mem align_size phdr fp)
      (Opencore.writeSegments mem align_size phdr fp') := by
  induction phdr generalizing fp fp' with
  | nil => exact h
  | cons ph phdr ih =>
    rw [Opencore.writeSegments, Opencore.writeSegments]
    split_ifs
    · obtain ⟨hnext, hresult⟩ :=
        h.writePages mem align_size ph (tripCount (pageCount align_size ph)) 0
      have hpages := writePages_eq h.appending mem align_size ph
        (tripCount (pageCount align_size ph)) 0
      rw [writeSegment_eq h.appending, writeSegment]
      rw [hpages, ← List.range_eq_range', ← segmentBytes] at hnext
      rcases hloop : Opencore.writePages mem align_size ph
        (tripCount (pageCount align_size ph)) 0 fp' with ⟨result, next⟩
      rw [hloop] at hnext hresult
      rcases hresult with rfl | ⟨rfl, hfull⟩
      · exact ih hnext
      · have hrest := writeSegments_eq hnext.appending mem align_size phdr
        dsimp only
        rw [hrest]
        exact ⟨hnext.appending.append _, hnext.at_end,
          Or.inr ⟨hnext.part.trans (List.prefix_append _ _), hfull⟩⟩
    · exact ih h

section Writers

variable (h : Cut fp fp') (d : Dumper a) (view : ProcessView a)
include h

theorem writeHeaders : (Opencore.writeHeaders d fp').1 = (Opencore.writeHeaders d fp).1 ∧
    Cut (Opencore.writeHeaders d fp).2 (Opencore.writeHeaders d fp').2 := by
  unfold Opencore.writeHeaders writeCoreHeader writeCoreNoteHeader writeCoreProgramHeaders
  dsimp only
  have hnote := (h.write d.ehdr.bytes).write
    (Phdr.bytes { d.note with p_filesz := noteFilesz d })
  split_ifs
  · exact ⟨rfl, hnote⟩
  · exact ⟨rfl, hnote.foldl_write Phdr.bytes _⟩

omit h in
theorem writeRegsets (h : Cut fp fp') (tid : BitVec 32) :
    Cut (Opencore.writeRegsets view tid fp) (Opencore.writeRegsets view tid fp') := by
  unfold Opencore.writeRegsets writeCoreFpRegs writeCoreTLS writeCorePAC writeCoreMTE
  cases a with
  | arm64 =>
    dsimp only
    exact (((((h.record _ _ _).record _ _ _).record _ _ _).record _ _ _).record _ _ _)
  | _ => exact h

theorem writePrStatus (slot : PrStatus a × ℕ) :
    Cut (Opencore.writePrStatus d view fp slot) (Opencore.writePrStatus d view fp' slot) := by
  unfold Opencore.writePrStatus writeCoreSignalInfo
  dsimp only
  split_ifs
  · exact ((h.record _ _ _).record _ _ _).writeRegsets view _
  · exact (h.record _ _ _).writeRegsets view _

theorem writeNotes : Cut (Opencore.writeNotes d view fp) (Opencore.writeNotes d view fp') := by
  have hslots : Cut (writeCorePrStatus d view fp) (writeCorePrStatus d view fp') :=
    foldl (fun slot h => h.writePrStatus d view slot) h _
  have hauxv : Cut (writeCoreAUXV d (writeCorePrStatus d view fp))
      (writeCoreAUXV d (writeCorePrStatus d view fp')) :=
    ((hslots.write _).write _).foldl_write Auxv.bytes _
  unfold Opencore.writeNotes writeNtFile
  dsimp only
  exact (((((hauxv.write _).write _).write _).write _).foldl_write File.bytes _).foldl_write
    (fun vma : VirtualMemoryArea => vma.file ++ [0]) _

theorem writeCore : (Opencore.writeCore d view fp').1 = (Opencore.writeCore d view fp).1 ∧
    Cut (Opencore.writeCore d view fp).2 (Opencore.writeCore d view fp').2 := by
  obtain ⟨hmembers, hheaders⟩ := h.writeHeaders d
  have hbefore : Cut (beforeLoads d view fp) (beforeLoads d view fp') := by
    change Cut (alignNoteSegment (Opencore.writeHeaders d fp).1 _)
      (alignNoteSegment (Opencore.writeHeaders d fp').1
        (Opencore.writeNotes (Opencore.writeHeaders d fp').1 view (Opencore.writeHeaders d fp').2))
    rw [hmembers]
    exact (hheaders.writeNotes (Opencore.writeHeaders d fp).1 view).write _
  rw [writeCore_loads, writeCore_loads]
  dsimp only
  rw [hmembers]
  refine ⟨rfl, ?_⟩
  unfold writeCoreLoadSegment
  cases view.mem with
  | none => exact hbefore
  | some mem => exact hbefore.writeSegments mem _ _

end Writers
end Cut

/-- A dump on a disk with room has a counterpart on one that fills up. -/
theorem cut_doCoredump {d d' : Dumper a} {view : ProcessView a} {fp : FILE}
    (hrun : doCoredump d view (fun _ => .ok) = some (d', fp)) (n written : ℕ) :
    ∃ fp', doCoredump d view (fullDisk n written) = some (d', fp') ∧ Cut fp fp' := by
  rw [doCoredump_eq] at hrun
  obtain ⟨d2, hfilter, hwrite⟩ := Option.map_eq_some_iff.mp hrun
  obtain ⟨hmembers, hcut⟩ := (cut_create n written).writeCore d2 view
  rw [hwrite] at hmembers hcut
  refine ⟨(writeCore d2 view (FILE.create (fullDisk n written))).2, ?_, hcut⟩
  rw [doCoredump_eq, hfilter, Option.map_some]
  exact congrArg some (Prod.ext hmembers rfl)

section Reader

variable {c : ElfClass} {content content' : Bytes}

end Reader

/-- Wherever the disk becomes full, a dump that ends on a disk with room also ends on this one, and
what it has stored is the beginning of the core that it writes when nothing fails. -/
theorem fullDisk_part {d d' : Dumper a} {view : ProcessView a} {fp : FILE}
    (hrun : doCoredump d view (fun _ => .ok) = some (d', fp)) (n written : ℕ) :
    ∃ fp', doCoredump d view (fullDisk n written) = some (d', fp') ∧
      fp'.content <+: fp.content := by
  obtain ⟨fp', hrun', hcut⟩ := cut_doCoredump hrun n written
  exact ⟨fp', hrun', hcut.part⟩

theorem fullDisk_part_page : ∃ d' fp fp',
    doCoredump (Dumper.new .arm64 4096) (onePageProcess .arm64 []) (fun _ => .ok) =
      some (d', fp) ∧
    doCoredump (Dumper.new .arm64 4096) (onePageProcess .arm64 []) (fullDisk 3 8) =
      some (d', fp') ∧ fp'.content <+: fp.content := by
  obtain ⟨d1, -, -, -, -, -, hrun⟩ := doCoredump_unfiltered (fresh_new .arm64 4096) rfl
    (onePageProcess .arm64 []) (by decide) (fun _ => .ok)
  obtain ⟨fp', hrun', hpart⟩ := fullDisk_part hrun 3 8
  exact ⟨_, _, fp', hrun, hrun', hpart⟩

end Opencore
