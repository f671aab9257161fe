import Opencore.Dumper.FailingWrites
import Opencore.Dumper.MemoryImage

/-! A segment with a failed write is rewound and filled with zeros, as long as `ftell` can tell
where it starts. -/
namespace Opencore
open Machine Elf

variable {c : ElfClass}

/-- What is asked for a segment with a failed write: the loop stops behind it, its file range
is zero, and every later segment that is reached starts at its own offset. -/
structure Recovered (mem : ProcMem) (fp : FILE) (before : List (Phdr c)) (ph : Phdr c)
    (after : List (Phdr c)) : Prop where
  stop : (writeSegments mem ELF_PAGE_SIZE (before ++ [ph]) fp).pos =
    ph.p_offset.toNat + ph.p_filesz.toNat
  zero : slice (writeSegments mem ELF_PAGE_SIZE (before ++ ph :: after) fp).content
    ph.p_offset.toNat ph.p_filesz.toNat = zeros ph.p_filesz.toNat
  later : ∀ mid q rest, after = mid ++ q :: rest → Passed mem (before ++ ph :: mid) fp →
    0 < q.p_filesz.toNat →
      (writeSegments mem ELF_PAGE_SIZE (before ++ ph :: mid) fp).pos = q.p_offset.toNat

/-- Every segment with a failed write is recovered. -/
def KeepsAlignment (mem : ProcMem) (phdr : List (Phdr c)) (fp : FILE) : Prop :=
  ∀ before ph after, phdr = before ++ ph :: after → Passed mem before fp →
    Fails mem ph (writeSegments mem ELF_PAGE_SIZE before fp) → Recovered mem fp before ph after

/-- `int count` reaches every page of these segments. -/
def Counted (phdr : List (Phdr c)) : Prop :=
  ∀ ph ∈ phdr, 0 < ph.p_filesz.toNat → ph.p_memsz.toNat < 2 ^ 43

/-- A failure that the code can repair: `long` holds the start of the segment, the page counts
of the segments up to a later one do not wrap, and `p_offset` holds where that one starts. -/
structure Repairable (mem : ProcMem) (fp : FILE) (before : List (Phdr c)) (ph : Phdr c)
    (after : List (Phdr c)) : Prop where
  position : fp.pos + segmentsSize before < 2 ^ (c.bits - 1)
  counted : Counted (before ++ [ph])
  later : ∀ mid q rest, after = mid ++ q :: rest → Passed mem (before ++ ph :: mid) fp →
    0 < q.p_filesz.toNat → Counted mid ∧ fp.pos + segmentsSize (before ++ ph :: mid) < 2 ^ c.bits

def Recoverable (mem : ProcMem) (phdr : List (Phdr c)) (fp : FILE) : Prop :=
  ∀ before ph after, phdr = before ++ ph :: after → Passed mem before fp →
    Fails mem ph (writeSegments mem ELF_PAGE_SIZE before fp) → Repairable mem fp before ph after

section Alignment

/-- A run behind the headers: `placeSegments` has given every segment its place, from the
file position on. The areas of a 64-bit process leave room for the headers. -/
structure LoadRun (mem : ProcMem) (phdr : List (Phdr c)) (fp : FILE) : Prop where
  paged : ∀ ph ∈ phdr, PagedPhdr ph
  placed : placeSegments (BitVec.ofNat c.bits fp.pos) phdr = phdr
  room : c = .elf64 → fp.pos + segmentsSize phdr < 2 ^ 64
  at_end : fp.pos = fp.content.length
  behind : 0 < fp.pos
  provided : Provided mem phdr fp

variable {mem : ProcMem} {phdr before after : List (Phdr c)} {ph : Phdr c} {fp : FILE}

theorem segmentsSize_concat (before : List (Phdr c)) (ph : Phdr c) :
    segmentsSize (before ++ [ph]) = segmentsSize before + ph.p_filesz.toNat := by
  rw [segmentsSize_append]
  rfl

theorem passed_fails (hpassed : Passed mem before fp)
    (hfails : Fails mem ph (writeSegments mem ELF_PAGE_SIZE before fp)) :
    Passed mem (before ++ [ph]) fp := by
  refine along_concat.mpr ⟨hpassed, fun hspace => ?_⟩
  have hloop := hspace.2.symm.trans hfails.2
  cases hloop

/-- The stream between a part of the list and the rest. -/
structure Reached (mem : ProcMem) (before after : List (Phdr c)) (fp : FILE) : Prop where
  run : ∀ rest, writeSegments mem ELF_PAGE_SIZE (before ++ rest) fp =
    writeSegments mem ELF_PAGE_SIZE rest (writeSegments mem ELF_PAGE_SIZE before fp)
  provided : Provided mem after (writeSegments mem ELF_PAGE_SIZE before fp)
  at_end : (writeSegments mem ELF_PAGE_SIZE before fp).pos =
    (writeSegments mem ELF_PAGE_SIZE before fp).content.length
  start_le : fp.pos ≤ (writeSegments mem ELF_PAGE_SIZE before fp).pos
  pos_le : (writeSegments mem ELF_PAGE_SIZE before fp).pos ≤ fp.pos + segmentsSize before
  pos_eq_iff : (writeSegments mem ELF_PAGE_SIZE before fp).pos = fp.pos + segmentsSize before ↔
    Along mem (Filled mem) before fp

namespace LoadRun

theorem offset (h : LoadRun mem phdr fp) (hsplit : phdr = before ++ ph :: after) :
    ph.p_offset.toNat = (fp.pos + segmentsSize before) % 2 ^ c.bits := by
  rw [placeSegments_offset (h.placed.trans hsplit), BitVec.toNat_ofNat]

theorem offset_of_lt (h : LoadRun mem phdr fp) (hsplit : phdr = before ++ ph :: after)
    (hlt : fp.pos + segmentsSize before < 2 ^ c.bits) :
    ph.p_offset.toNat = fp.pos + segmentsSize before := by
  rw [h.offset hsplit, Nat.mod_eq_of_lt hlt]

theorem paged_before (h : LoadRun mem phdr fp) (hsplit : phdr = before ++ after) :
    ∀ ph ∈ before, PagedPhdr ph := by
  intro ph hph
  exact h.paged ph (by rw [hsplit]; exact List.mem_append_left after hph)

theorem reached (h : LoadRun mem phdr fp) (hsplit : phdr = before ++ after)
    (hpassed : Passed mem before fp) : Reached mem before after fp := by
  have hprov := h.provided
  rw [hsplit] at hprov
  obtain ⟨hrun, hrest, bytes, hgrown, hle, hfull⟩ :=
    writeSegments_run (h.paged_before hsplit) h.at_end hprov hpassed
  have hpos := hgrown.pos h.at_end
  refine ⟨hrun, hrest, hgrown.at_end, by omega, by omega, ?_⟩
  rw [← hfull]
  omega

theorem ftell_pos (h : LoadRun mem phdr fp) (hsplit : phdr = before ++ after)
    (hpassed : Passed mem before fp) (hlt : fp.pos + segmentsSize before < 2 ^ (c.bits - 1)) :
    0 < (writeSegments mem ELF_PAGE_SIZE before fp).ftell c.bits := by
  have hreached := h.reached hsplit hpassed
  unfold FILE.ftell
  rw [if_pos (hreached.pos_le.trans_lt hlt)]
  exact_mod_cast h.behind.trans_le hreached.start_le

/-- What a segment with a failed write adds to the file. -/
theorem step (h : LoadRun mem phdr fp) (hsplit : phdr = before ++ ph :: after)
    (hpassed : Passed mem before fp)
    (hfails : Fails mem ph (writeSegments mem ELF_PAGE_SIZE before fp)) :
    ∃ bytes, (writeSegments mem ELF_PAGE_SIZE before fp).Grown
        (writeSegments mem ELF_PAGE_SIZE (before ++ [ph]) fp) bytes ∧
      bytes.length ≤ ph.p_filesz.toNat ∧
      (bytes.length = ph.p_filesz.toNat ↔
        Filled mem ph (writeSegments mem ELF_PAGE_SIZE before fp)) ∧
      (Filled mem ph (writeSegments mem ELF_PAGE_SIZE before fp) →
        bytes = zeros ph.p_filesz.toNat) := by
  have hreached := h.reached hsplit hpassed
  have hspace := (along_concat.mp (passed_fails hpassed hfails)).2
  obtain ⟨bytes, fp', hstep, hgrown, hle, hfull, hzero⟩ :=
    writeSegments_step (h.paged ph (by simp [hsplit])) hreached.at_end hreached.provided.head hspace
  rw [hreached.run, hstep]
  exact ⟨bytes, hgrown, hle, hfull, hzero hfails⟩

end LoadRun

/-- Where every failure can be repaired, every counted segment takes its whole place. -/
theorem filled_of_recoverable (h : LoadRun mem phdr fp) (hrec : Recoverable mem phdr fp)
    (hsplit : phdr = before ++ after) (hpassed : Passed mem before fp) (hcount : Counted before) :
    Along mem (Filled mem) before fp := by
  intro b p a hb hkept
  refine ⟨hcount p (by simp [hb]) hkept, fun hfails => ?_⟩
  have hsplit' : phdr = b ++ p :: (a ++ after) := by
    rw [hsplit, hb, List.append_assoc, List.cons_append]
  have hpassed' : Passed mem b fp := (hb ▸ hpassed : Passed mem (b ++ p :: a) fp).of_append
  have hrepair := hrec b p (a ++ after) hsplit' hpassed' hfails
  exact h.ftell_pos hsplit' hpassed' hrepair.position

/-- The first segment that is left short would stop at a wrong place. -/
theorem filled_of_keepsAlignment (h : LoadRun mem phdr fp) (hkeeps : KeepsAlignment mem phdr fp)
    (hsplit : phdr = before ++ after) (hpassed : Passed mem before fp) (hcount : Counted before) :
    Along mem (Filled mem) before fp := by
  induction before using List.reverseRecOn generalizing after with
  | nil => exact along_nil
  | append_singleton before ph ih =>
    have hsplit' : phdr = before ++ ph :: after := by
      rw [hsplit, List.append_assoc, List.singleton_append]
    have hpassed' : Passed mem before fp := hpassed.of_append
    have hbefore := ih hsplit' hpassed' fun p hp => hcount p (List.mem_append_left [ph] hp)
    refine along_concat.mpr ⟨hbefore, fun hkept => ?_⟩
    refine ⟨hcount ph (by simp) hkept, fun hfails => ?_⟩
    have hstop := (hkeeps before ph after hsplit' hpassed' hfails).stop
    have hreached := h.reached hsplit' hpassed'
    obtain ⟨bytes, hgrown, hle, hfull, -⟩ := h.step hsplit' hpassed' hfails
    rw [h.offset hsplit', hgrown.pos hreached.at_end, hreached.pos_eq_iff.mpr hbefore] at hstop
    have hlen : bytes.length = ph.p_filesz.toNat := by
      have hsize := ph.p_filesz.isLt
      by_cases hlt : fp.pos + segmentsSize before < 2 ^ c.bits
      · rw [Nat.mod_eq_of_lt hlt] at hstop
        omega
      · have hmod := Nat.mod_le (fp.pos + segmentsSize before - 2 ^ c.bits) (2 ^ c.bits)
        rw [← Nat.mod_eq_sub_mod (Nat.le_of_not_lt hlt)] at hmod
        omega
    exact (hfull.mp hlen hkept).2 hfails

theorem counted_of_filled (h : Along mem (Filled mem) phdr fp) : Counted phdr := by
  intro ph hph hkept
  obtain ⟨before, after, hsplit⟩ := List.append_of_mem hph
  exact (h before ph after hsplit hkept).1

/-- An offset cannot be right by wrapping: 64 bits have room, and below them the count of
pages is right. -/
theorem filled_of_aligned (h : LoadRun mem phdr fp) (hkeeps : KeepsAlignment mem phdr fp)
    (hsplit : phdr = before ++ after) (hpassed : Passed mem before fp)
    (hpos : fp.pos + segmentsSize before < 2 ^ c.bits →
      (writeSegments mem ELF_PAGE_SIZE before fp).pos = fp.pos + segmentsSize before) :
    Along mem (Filled mem) before fp := by
  cases c with
  | elf32 =>
    refine filled_of_keepsAlignment h hkeeps hsplit hpassed fun ph _ _ => ?_
    exact ph.p_memsz.isLt.trans (by decide)
  | elf64 =>
    refine (h.reached hsplit hpassed).pos_eq_iff.mp (hpos (lt_of_le_of_lt ?_ (h.room rfl)))
    rw [hsplit, segmentsSize_append]
    omega

theorem repairable_of_keepsAlignment (h : LoadRun mem phdr fp)
    (hkeeps : KeepsAlignment mem phdr fp) : Recoverable mem phdr fp := by
  intro before ph after hsplit hpassed hfails
  have hrecovered := hkeeps before ph after hsplit hpassed hfails
  have hconcat : phdr = (before ++ [ph]) ++ after := by
    rw [hsplit, List.append_assoc, List.singleton_append]
  have hfilled := filled_of_aligned h hkeeps hconcat (passed_fails hpassed hfails) fun hlt => by
    rw [segmentsSize_concat] at hlt ⊢
    rw [hrecovered.stop, h.offset_of_lt hsplit (by omega), Nat.add_assoc]
  obtain ⟨hbefore, hlast⟩ := along_concat.mp hfilled
  constructor
  · have hftell := (hlast hfails.1).2 hfails
    unfold FILE.ftell at hftell
    split_ifs at hftell with hlt
    · rwa [(h.reached hsplit hpassed).pos_eq_iff.mpr hbefore] at hlt
    · exact absurd hftell (by decide)
  · exact counted_of_filled hfilled
  · intro mid q rest hmid hreach hkept
    have hsplit' : phdr = (before ++ ph :: mid) ++ q :: rest := by
      rw [hsplit, hmid, List.append_assoc, List.cons_append]
    have hstart := hrecovered.later mid q rest hmid hreach hkept
    have hfilled' := filled_of_aligned h hkeeps hsplit' hreach fun hlt => by
      rw [hstart, h.offset_of_lt hsplit' hlt]
    have hpos := (h.reached hsplit' hreach).pos_eq_iff.mpr hfilled'
    constructor
    · intro p hp
      exact counted_of_filled hfilled' p (by simp [hp])
    · rw [← hpos, hstart]
      exact q.p_offset.isLt

theorem keepsAlignment_of_repairable (h : LoadRun mem phdr fp)
    (hrec : Recoverable mem phdr fp) : KeepsAlignment mem phdr fp := by
  intro before ph after hsplit hpassed hfails
  have hrepair := hrec before ph after hsplit hpassed hfails
  have hconcat : phdr = (before ++ [ph]) ++ after := by
    rw [hsplit, List.append_assoc, List.singleton_append]
  have hpassed' := passed_fails hpassed hfails
  have hfilled := filled_of_recoverable h hrec hconcat hpassed' hrepair.counted
  obtain ⟨hbefore, hlast⟩ := along_concat.mp hfilled
  have hfits : 2 ^ (c.bits - 1) ≤ 2 ^ c.bits := Nat.pow_le_pow_right two_pos (Nat.sub_le c.bits 1)
  have hoffset := h.offset_of_lt hsplit (hrepair.position.trans_le hfits)
  have hreached := h.reached hsplit hpassed
  have hreached' := h.reached hconcat hpassed'
  constructor
  · rw [hreached'.pos_eq_iff.mpr hfilled, segmentsSize_concat, hoffset, Nat.add_assoc]
  · obtain ⟨bytes, hgrown, -, -, hzero⟩ := h.step hsplit hpassed hfails
    have hafter : ∀ p ∈ after, PagedPhdr p := fun p hp => h.paged p (by simp [hsplit, hp])
    obtain ⟨rest, hgrown'⟩ := writeSegments_grown hafter hreached'.at_end hreached'.provided
    have hrun := hreached'.run after
    rw [List.append_assoc, List.singleton_append] at hrun
    rw [hrun, (hgrown.trans hgrown').content, hzero hlast]
    apply slice_mid_of_eq
    · rw [hoffset, ← hreached.at_end, hreached.pos_eq_iff.mpr hbefore]
    · rw [length_zeros]
  · intro mid q rest hmid hreach hkept
    have hsplit' : phdr = (before ++ ph :: mid) ++ q :: rest := by
      rw [hsplit, hmid, List.append_assoc, List.cons_append]
    obtain ⟨hcount, hlt⟩ := hrepair.later mid q rest hmid hreach hkept
    have hcount' : Counted (before ++ ph :: mid) := by
      intro p hp
      have hp' : p ∈ before ++ [ph] ∨ p ∈ mid := by
        simpa [or_assoc] using hp
      exact hp'.elim (hrepair.counted p) (hcount p)
    have hfilled' := filled_of_recoverable h hrec hsplit' hreach hcount'
    rw [(h.reached hsplit' hreach).pos_eq_iff.mpr hfilled', h.offset_of_lt hsplit' hlt]

end Alignment

/-- The segment loop of a dump starts like this, whatever its own writes will meet. -/
theorem loadRun_dump {a : Arch} {view : ProcessView a} {d : Dumper a} {fp : FILE} {mem : ProcMem}
    (h : Collected view d) (hz : d.note.p_filesz = 0) (hfit : NotesFit view)
    (hfp : fp.Appending) (hempty : fp.content = []) (hpaged : ∀ ph ∈ d.phdr, PagedPhdr ph)
    (hroom : a.cls = .elf64 → coreSize view d.phdr < 2 ^ 64) {plan : ℕ → WriteResult}
    (hprov : Provided mem (placed d).phdr { beforeLoads d view fp with plan := plan }) :
    LoadRun mem (placed d).phdr { beforeLoads d view fp with plan := plan } := by
  have hend := (appending_beforeLoads h hfit.loops hfp).at_end
  have hpos : (beforeLoads d view fp).pos = loadStart view := by
    rw [hend, length_beforeLoads_eq h hz hfit hfp hempty]
  have hheaders : 0 < headersSize a.cls view.maps.length := by
    unfold headersSize
    cases a.cls <;> exact Nat.add_pos_left (by decide) _
  have hwritten := written_le_loadStart view
  constructor
  · intro ph hph
    obtain ⟨orig, horig, offset, rfl⟩ := mem_placeSegments hph
    exact { hpaged orig horig with }
  · rw [hpos, placed_phdr_eq h hz hfit, placeSegments_placeSegments]
  · intro hc
    rw [hpos, segmentsSize_placed]
    exact hroom hc
  · exact hend
  · rw [hpos]
    omega
  · exact hprov

section OnePage

def EIO : ℕ := 5

def eioStream (start : ℕ) : FILE where
  content := zeros start
  pos := start
  plan n := if n = 0 then .fail EIO 0 else .ok

def pagePhdr (c : ElfClass) (start : ℕ) : Phdr c where
  p_type := PT_LOAD
  p_offset := BitVec.ofNat c.bits start
  p_filesz := BitVec.ofNat c.bits 4096
  p_memsz := BitVec.ofNat c.bits 4096
  p_align := BitVec.ofNat c.bits 4096

variable (c : ElfClass) (start : ℕ)

theorem pagePhdr_filesz : (pagePhdr c start).p_filesz.toNat = 4096 := by cases c <;> rfl

theorem pages_pagePhdr : pages (pagePhdr c start) = 1 := by
  have hsize : (pagePhdr c start).p_memsz.toNat = 4096 := pagePhdr_filesz c start
  rw [pages_eq, hsize]
  rfl

theorem pageLoop_eioStream (mem : ProcMem) :
    pageLoop mem (pagePhdr c start) (eioStream start) =
      (.failed, { eioStream start with plan := fun _ => .ok }.store []) := by
  have hplan : (eioStream start).plan 0 = .fail EIO 0 := rfl
  rw [pageLoop, pages_pagePhdr, writePages, FILE.fwrite_fail hplan]
  rfl

theorem fails_eioStream (mem : ProcMem) : Fails mem (pagePhdr c start) (eioStream start) :=
  ⟨by rw [pagePhdr_filesz]; decide, by rw [pageLoop_eioStream]⟩

theorem singleton_split {α : Type*} {x y : α} {before after : List α}
    (h : [x] = before ++ y :: after) : before = [] ∧ y = x ∧ after = [] := by
  cases before with
  | nil => simpa [and_comm, eq_comm] using h
  | cons b before => simp at h

theorem loadRun_eioStream (hstart : 0 < start) (hlt : start + 4096 < 2 ^ 64) (mem : ProcMem) :
    LoadRun mem [pagePhdr c start] (eioStream start) where
  paged := by
    intro ph hph
    obtain rfl := List.mem_singleton.mp hph
    have hsize : (pagePhdr c start).p_memsz.toNat = 4096 := pagePhdr_filesz c start
    exact ⟨.inr rfl, by rw [hsize], rfl⟩
  placed := rfl
  room _ := by
    rw [segmentsSize, List.map_singleton, List.sum_singleton, pagePhdr_filesz]
    exact hlt
  at_end := (length_zeros start).symm
  behind := hstart
  provided := by
    intro before ph after hsplit _
    obtain ⟨rfl, rfl, rfl⟩ := singleton_split hsplit
    refine ⟨fun k errno written hk => ?_, fun _ _ k _ => ?_⟩
    · change (if k = 0 then WriteResult.fail EIO 0 else .ok) = _ at hk
      split_ifs at hk
      obtain ⟨-, rfl⟩ := WriteResult.fail.inj hk
      decide
    · change (pageLoop mem (pagePhdr c start) (eioStream start)).2.plan k = .ok
      rw [pageLoop_eioStream]
      rfl

theorem pos_eioStream (hlong : ¬ start < 2 ^ (c.bits - 1)) (mem : ProcMem) :
    (writeSegments mem ELF_PAGE_SIZE [pagePhdr c start] (eioStream start)).pos = start := by
  have hkept : 0 < (pagePhdr c start).p_filesz.toNat := by rw [pagePhdr_filesz]; decide
  have hftell : ¬ (eioStream start).ftell c.bits > 0 := by
    have hpos : ¬ (eioStream start).pos < 2 ^ (c.bits - 1) := hlong
    rw [FILE.ftell, if_neg hpos]
    decide
  have hloop := pageLoop_eioStream c start mem
  unfold pageLoop pages at hloop
  rw [writeSegments, if_pos ((filesz_pos_iff _).mpr hkept), writeSegment, hloop]
  simp only [if_neg hftell]
  rfl

end OnePage

/-- The recovery from failing writes keeps every segment in its place exactly when `long` tells
where a failing segment starts, no page count has wrapped, and the offsets fit. -/
theorem keepsAlignment_iff {mem : ProcMem} {phdr : List (Phdr c)} {fp : FILE}
    (h : LoadRun mem phdr fp) :
    KeepsAlignment mem phdr fp ↔ Recoverable mem phdr fp :=
  ⟨repairable_of_keepsAlignment h, keepsAlignment_of_repairable h⟩

/-- At 4096 a failing page is rewound and filled. -/
theorem keepsAlignment_eio :
    KeepsAlignment (markedMem 0) [pagePhdr .elf64 4096] (eioStream 4096) := by
  refine (keepsAlignment_iff (loadRun_eioStream .elf64 4096 (by decide) (by decide) _)).mpr ?_
  intro before ph after hsplit hpassed hfails
  obtain ⟨rfl, rfl, rfl⟩ := singleton_split hsplit
  constructor
  · decide
  · intro p hp _
    obtain rfl := List.mem_singleton.mp hp
    decide
  · intro mid q rest hmid
    simp at hmid

/-- At 2 GiB of an lp32 core the failing page is skipped, and everything behind it moves up. -/
theorem recovery_skipped :
    LoadRun (markedMem 0) [pagePhdr .elf32 (2 ^ 31)] (eioStream (2 ^ 31)) ∧
      (writeSegments (markedMem 0) ELF_PAGE_SIZE [pagePhdr .elf32 (2 ^ 31)]
        (eioStream (2 ^ 31))).pos = 2 ^ 31 ∧
      ¬ KeepsAlignment (markedMem 0) [pagePhdr .elf32 (2 ^ 31)] (eioStream (2 ^ 31)) := by
  have hpos := pos_eioStream .elf32 (2 ^ 31) (by decide) (markedMem 0)
  refine ⟨loadRun_eioStream .elf32 (2 ^ 31) (by decide) (by decide) _, hpos, fun hkeeps => ?_⟩
  have hstop := (hkeeps [] _ [] rfl along_nil (fails_eioStream .elf32 (2 ^ 31) _)).stop
  rw [List.nil_append, hpos] at hstop
  exact absurd hstop (by decide)

end Opencore
