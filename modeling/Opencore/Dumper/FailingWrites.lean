import Opencore.Dumper.Layout

/-! Failing writes in `WriteCoreLoadSegment`: what one segment, and a run over a list of them,
add to the file. -/
namespace Opencore
open Machine Elf

variable {c : ElfClass}

/-- A program header as the filters leave it, of any size. -/
structure PagedPhdr (ph : Phdr c) : Prop where
  kept : ph.p_filesz = 0 ∨ ph.p_filesz = ph.p_memsz
  whole : 4096 ∣ ph.p_memsz.toNat
  align : ph.p_align = BitVec.ofNat c.bits 4096

def pages (ph : Phdr c) : ℕ := tripCount (pageCount ELF_PAGE_SIZE ph)

def pageLoop (mem : ProcMem) (ph : Phdr c) (fp : FILE) : PageLoop × FILE :=
  writePages mem ELF_PAGE_SIZE ph (pages ph) 0 fp

/-- A write of this kept segment fails, with another error than ENOSPC. -/
def Fails (mem : ProcMem) (ph : Phdr c) (fp : FILE) : Prop :=
  0 < ph.p_filesz.toNat ∧ (pageLoop mem ph fp).1 = .failed

/-- The function returns inside this segment. -/
def NoSpace (mem : ProcMem) (ph : Phdr c) (fp : FILE) : Prop :=
  0 < ph.p_filesz.toNat ∧ (pageLoop mem ph fp).1 = .noSpace

theorem pages_eq (ph : Phdr c) :
    pages ph = if ph.p_memsz.toNat / 4096 % 2 ^ 32 < 2 ^ 31
      then ph.p_memsz.toNat / 4096 % 2 ^ 32 else 0 := by
  have hcount : (pageCount ELF_PAGE_SIZE ph).toNat = ph.p_memsz.toNat / 4096 % 2 ^ 32 := by
    have hsize : (ELF_PAGE_SIZE.setWidth c.bits).toNat = 4096 := by cases c <;> decide
    rw [pageCount, BitVec.toNat_setWidth, BitVec.toNat_udiv, hsize]
  rw [pages, tripCount_eq, hcount]

theorem pages_le {ph : Phdr c} (h : PagedPhdr ph) : pages ph * 4096 ≤ ph.p_memsz.toNat := by
  have hwhole := h.whole
  rw [pages_eq]
  split_ifs <;> omega

/-- `int count` reaches every page of a segment below 8 TiB only. -/
theorem pages_iff {ph : Phdr c} (h : PagedPhdr ph) :
    pages ph * 4096 = ph.p_memsz.toNat ↔ ph.p_memsz.toNat < 2 ^ 43 := by
  have hwhole := h.whole
  rw [pages_eq]
  split_ifs <;> omega

section Segment

variable {mem : ProcMem} {ph : Phdr c}

theorem writePages_grown (mem : ProcMem) (halign : ph.p_align = BitVec.ofNat c.bits 4096)
    (n i : ℕ) {fp : FILE} (hend : fp.pos = fp.content.length) (hpart : fp.PartialWrites 4096) :
    ∃ bytes, fp.Grown (writePages mem ELF_PAGE_SIZE ph n i fp).2 bytes ∧
      ((writePages mem ELF_PAGE_SIZE ph n i fp).1 = .done → bytes.length = n * 4096) ∧
      ((writePages mem ELF_PAGE_SIZE ph n i fp).1 ≠ .done → bytes.length < n * 4096) := by
  induction n generalizing i fp with
  | zero =>
    refine ⟨[], FILE.Grown.refl hend, fun _ => ?_, fun h => absurd rfl h⟩
    rw [Nat.zero_mul]
    rfl
  | succ n ih =>
    have hpage := length_readPage mem halign i
    cases hplan : fp.plan 0 with
    | ok =>
      have hstep := FILE.grown_store hend (readPage mem ELF_PAGE_SIZE ph i)
      obtain ⟨bytes, hgrown, hdone, hbroken⟩ := ih (i + 1) hstep.at_end (hstep.partialWrites hpart)
      rw [writePages, FILE.fwrite_ok hplan]
      refine ⟨_, hstep.trans hgrown, fun h => ?_, fun h => ?_⟩
      · rw [List.length_append, hpage, hdone h]
        ring
      · have := hbroken h
        rw [List.length_append, hpage]
        omega
    | fail errno written =>
      have hstep := FILE.grown_store hend ((readPage mem ELF_PAGE_SIZE ph i).take written)
      have hwritten := hpart 0 errno written hplan
      rw [writePages, FILE.fwrite_fail hplan]
      refine ⟨_, hstep, fun h => ?_, fun _ => ?_⟩
      · dsimp only at h
        split_ifs at h
      · rw [List.length_take, hpage]
        omega

/-- Rewinding and filling overwrites what the page loop has left. -/
theorem refill_grown {fp fp' : FILE} {bytes : Bytes} (hend : fp.pos = fp.content.length)
    (hgrown : fp.Grown fp' bytes) {n : ℕ} (hle : bytes.length ≤ n * 4096)
    (hok : ∀ k < n, fp'.plan k = .ok) :
    fp.Grown ((List.range n).foldl (fun fp _ => fp.write (zeros ELF_PAGE_SIZE.toNat))
      (fp'.fseek fp.pos)) (zeros (n * 4096)) := by
  have hpage : ELF_PAGE_SIZE.toNat = 4096 := rfl
  have hzeros : (List.range n).flatMap (fun _ => zeros 4096) = zeros (n * 4096) := by
    apply List.eq_replicate_iff.mpr
    constructor
    · rw [length_flatMap_const _ 4096 _ fun _ _ => length_zeros 4096, List.length_range]
    · intro b hb
      obtain ⟨_, -, hb⟩ := List.mem_flatMap.mp hb
      exact List.eq_of_mem_replicate hb
  have hpos : (fp'.fseek fp.pos).pos ≤ (fp'.fseek fp.pos).content.length := by
    change fp.pos ≤ fp'.content.length
    rw [hgrown.content, List.length_append]
    omega
  have hfill := FILE.foldl_write_ok (fun _ : ℕ => zeros 4096) (List.range n) hpos
    (by rwa [List.length_range])
  obtain ⟨k, hk⟩ := hgrown.plan
  rw [hpage, hfill, hzeros, List.length_range]
  have hcontent : ({ fp'.fseek fp.pos with
      plan := fun m => (fp'.fseek fp.pos).plan (m + n) }.store (zeros (n * 4096))).content =
      fp.content ++ zeros (n * 4096) := by
    have htake : fp'.content.take fp.pos = fp.content := by
      rw [hgrown.content, List.take_left' hend.symm]
    have hdrop : fp'.content.drop (fp.pos + (zeros (n * 4096)).length) = [] := by
      apply List.drop_of_length_le
      rw [hgrown.content, List.length_append, length_zeros, hend]
      omega
    have hhole : fp.pos - fp'.content.length = 0 := Nat.sub_eq_zero_of_le hpos
    simp only [FILE.store, FILE.fseek, htake, hdrop, hhole, List.append_nil]
    rw [show zeros 0 = [] from rfl, List.append_nil]
  refine ⟨hcontent, ?_, n + k, fun m => ?_⟩
  · rw [hcontent, List.length_append, ← hend]
    rfl
  · change fp'.plan (m + n) = _
    rw [hk, Nat.add_assoc]

/-- What the file system grants while one segment is written: a failing write is short, and
the writes that fill the segment with zeros succeed. -/
structure Granted (mem : ProcMem) (ph : Phdr c) (fp : FILE) : Prop where
  short : fp.PartialWrites 4096
  zero_fill : Fails mem ph fp → 0 < fp.ftell c.bits →
    ∀ k < pages ph, (pageLoop mem ph fp).2.plan k = .ok

def Filled (mem : ProcMem) (ph : Phdr c) (fp : FILE) : Prop :=
  0 < ph.p_filesz.toNat →
    ph.p_memsz.toNat < 2 ^ 43 ∧ (Fails mem ph fp → 0 < fp.ftell c.bits)

theorem filesz_pos_iff (ph : Phdr c) : ph.p_filesz > 0 ↔ 0 < ph.p_filesz.toNat := by
  rw [gt_iff_lt, BitVec.lt_def]
  rfl

theorem PagedPhdr.size (h : PagedPhdr ph) (hkept : 0 < ph.p_filesz.toNat) :
    ph.p_filesz = ph.p_memsz := by
  apply h.kept.resolve_left
  intro h0
  rw [h0] at hkept
  exact absurd hkept (by simp)

theorem writeSegment_grown (hpaged : PagedPhdr ph) (hkept : 0 < ph.p_filesz.toNat) {fp : FILE}
    (hend : fp.pos = fp.content.length) (h : Granted mem ph fp) (hspace : ¬ NoSpace mem ph fp) :
    ∃ bytes fp', writeSegment mem ELF_PAGE_SIZE ph fp = (false, fp') ∧
      fp.Grown fp' bytes ∧ bytes.length ≤ pages ph * 4096 ∧
      (bytes.length = pages ph * 4096 ↔ (Fails mem ph fp → 0 < fp.ftell c.bits)) ∧
      (Fails mem ph fp → 0 < fp.ftell c.bits → bytes = zeros (pages ph * 4096)) := by
  obtain ⟨bytes, hgrown, hdone, hbroken⟩ :=
    writePages_grown mem hpaged.align (pages ph) 0 hend h.short
  have hfill := h.zero_fill
  unfold NoSpace at hspace
  unfold Fails at hfill ⊢
  unfold pageLoop at hspace hfill ⊢
  unfold pages at *
  unfold writeSegment
  dsimp only
  rcases hloop : writePages mem ELF_PAGE_SIZE ph (tripCount (pageCount ELF_PAGE_SIZE ph)) 0 fp with
    ⟨result, fp'⟩
  rw [hloop] at hgrown hdone hbroken hspace hfill
  cases result with
  | done =>
    have hlen := hdone rfl
    exact ⟨bytes, fp', rfl, hgrown, hlen.le, iff_of_true hlen (fun hf => nomatch hf.2),
      fun hf => nomatch hf.2⟩
  | noSpace => exact absurd ⟨hkept, rfl⟩ hspace
  | failed =>
    have hlen := hbroken (fun hf => nomatch hf)
    dsimp only
    by_cases hpos : 0 < fp.ftell c.bits
    · have hrefill := refill_grown hend hgrown hlen.le (hfill ⟨hkept, rfl⟩ hpos)
      have hseek : (fp.ftell c.bits).toNat = fp.pos := by
        unfold FILE.ftell at hpos ⊢
        split_ifs at hpos ⊢
        · exact Int.toNat_natCast _
        · exact absurd hpos (by decide)
      rw [if_pos hpos, hseek]
      exact ⟨_, _, rfl, hrefill, (length_zeros _).le, iff_of_true (length_zeros _) fun _ => hpos,
        fun _ _ => rfl⟩
    · rw [if_neg hpos]
      exact ⟨bytes, fp', rfl, hgrown, hlen.le,
        iff_of_false hlen.ne fun hf => hpos (hf ⟨hkept, rfl⟩), fun _ hf => absurd hf hpos⟩

theorem writeSegments_step (hpaged : PagedPhdr ph) {fp : FILE} (hend : fp.pos = fp.content.length)
    (h : Granted mem ph fp) (hspace : ¬ NoSpace mem ph fp) : ∃ bytes fp',
      (∀ phdr, writeSegments mem ELF_PAGE_SIZE (ph :: phdr) fp =
        writeSegments mem ELF_PAGE_SIZE phdr fp') ∧
      fp.Grown fp' bytes ∧ bytes.length ≤ ph.p_filesz.toNat ∧
      (bytes.length = ph.p_filesz.toNat ↔ Filled mem ph fp) ∧
      (Fails mem ph fp → Filled mem ph fp → bytes = zeros ph.p_filesz.toNat) := by
  by_cases hkept : 0 < ph.p_filesz.toNat
  · obtain ⟨bytes, fp', hwrite, hgrown, hle, hfull, hzero⟩ :=
      writeSegment_grown hpaged hkept hend h hspace
    have hsize := hpaged.size hkept
    have hpages := pages_le hpaged
    have hshort := pages_iff hpaged
    refine ⟨bytes, fp', fun phdr => ?_, hgrown, ?_, ?_, fun hf hfilled => ?_⟩
    · rw [writeSegments, if_pos ((filesz_pos_iff ph).mpr hkept), hwrite]
    · rw [hsize]
      exact hle.trans hpages
    · rw [hsize]
      constructor
      · intro hlen _
        have hcount : pages ph * 4096 = ph.p_memsz.toNat := by omega
        exact ⟨hshort.mp hcount, hfull.mp (hlen.trans hcount.symm)⟩
      · intro hfilled
        obtain ⟨hlt, hpos⟩ := hfilled hkept
        exact (hfull.mpr hpos).trans (hshort.mpr hlt)
    · obtain ⟨hlt, hpos⟩ := hfilled hkept
      rw [hzero hf (hpos hf), hshort.mpr hlt, hsize]
  · have hzero : ph.p_filesz.toNat = 0 := Nat.eq_zero_of_not_pos hkept
    refine ⟨[], fp, fun phdr => ?_, FILE.Grown.refl hend, Nat.zero_le _, ?_,
      fun hf => absurd hf.1 hkept⟩
    · rw [writeSegments, if_neg (mt (filesz_pos_iff ph).mp hkept)]
    · exact iff_of_true hzero.symm fun hf => absurd hf hkept

theorem writeSegments_noSpace (hpaged : PagedPhdr ph) {fp : FILE}
    (hend : fp.pos = fp.content.length) (h : Granted mem ph fp) (hspace : NoSpace mem ph fp)
    (phdr : List (Phdr c)) :
    ∃ bytes, fp.Grown (writeSegments mem ELF_PAGE_SIZE (ph :: phdr) fp) bytes := by
  obtain ⟨bytes, hgrown, -, -⟩ :=
    writePages_grown mem hpaged.align (pages ph) 0 hend h.short
  obtain ⟨hkept, hloop⟩ := hspace
  refine ⟨bytes, ?_⟩
  rw [writeSegments, if_pos ((filesz_pos_iff ph).mpr hkept), writeSegment]
  unfold pageLoop at hloop
  unfold pages at hloop hgrown
  generalize writePages mem ELF_PAGE_SIZE ph (tripCount (pageCount ELF_PAGE_SIZE ph)) 0 fp =
    loop at *
  obtain ⟨result, fp'⟩ := loop
  obtain rfl : result = .noSpace := hloop
  exact hgrown

end Segment

section Run

variable {mem : ProcMem} {phdr before after : List (Phdr c)} {ph : Phdr c} {fp : FILE}
  {P : Phdr c → FILE → Prop}

/-- `P` holds of every segment and the stream that the loop reaches it with. -/
def Along (mem : ProcMem) (P : Phdr c → FILE → Prop) (phdr : List (Phdr c)) (fp : FILE) : Prop :=
  ∀ before ph after, phdr = before ++ ph :: after →
    P ph (writeSegments mem ELF_PAGE_SIZE before fp)

theorem Along.of_append (h : Along mem P (before ++ after) fp) : Along mem P before fp := by
  intro b p a hsplit
  exact h b p (a ++ after) (by rw [hsplit, List.append_assoc, List.cons_append])

theorem along_nil : Along mem P [] fp := by
  intro b p a hsplit
  simp at hsplit

theorem along_concat :
    Along mem P (before ++ [ph]) fp ↔
      Along mem P before fp ∧ P ph (writeSegments mem ELF_PAGE_SIZE before fp) := by
  constructor
  · intro h
    exact ⟨h.of_append, h before ph [] rfl⟩
  · rintro ⟨hbefore, hlast⟩ b p a hsplit
    rcases List.eq_nil_or_concat a with rfl | ⟨a, x, rfl⟩
    · obtain ⟨rfl, hp⟩ := List.append_inj' hsplit rfl
      obtain rfl := List.singleton_inj.mp hp
      exact hlast
    · rw [List.concat_eq_append, ← List.cons_append, ← List.append_assoc] at hsplit
      exact hbefore b p a (List.append_inj' hsplit rfl).1

theorem along_cons {fp' : FILE} (hstep : ∀ phdr, writeSegments mem ELF_PAGE_SIZE (ph :: phdr) fp =
    writeSegments mem ELF_PAGE_SIZE phdr fp') :
    Along mem P (ph :: phdr) fp ↔ P ph fp ∧ Along mem P phdr fp' := by
  constructor
  · intro h
    refine ⟨h [] ph phdr rfl, fun b p a hsplit => ?_⟩
    rw [← hstep]
    exact h (ph :: b) p a (by rw [hsplit, List.cons_append])
  · rintro ⟨hhead, htail⟩ b p a hsplit
    cases b with
    | nil =>
      simp only [List.nil_append, List.cons.injEq] at hsplit
      obtain ⟨rfl, -⟩ := hsplit
      exact hhead
    | cons b0 b =>
      simp only [List.cons_append, List.cons.injEq] at hsplit
      obtain ⟨rfl, hrest⟩ := hsplit
      rw [hstep]
      exact htail b p a hrest

def Passed (mem : ProcMem) (phdr : List (Phdr c)) (fp : FILE) : Prop :=
  Along mem (fun ph fp => ¬ NoSpace mem ph fp) phdr fp

/-- What the file system grants in a run: the segments behind a full disk are not reached. -/
def Provided (mem : ProcMem) (phdr : List (Phdr c)) (fp : FILE) : Prop :=
  ∀ before ph after, phdr = before ++ ph :: after → Passed mem before fp →
    Granted mem ph (writeSegments mem ELF_PAGE_SIZE before fp)

theorem Provided.head (h : Provided mem (ph :: phdr) fp) : Granted mem ph fp :=
  h [] ph phdr rfl along_nil

theorem Provided.tail {fp' : FILE} (h : Provided mem (ph :: phdr) fp)
    (hspace : ¬ NoSpace mem ph fp)
    (hstep : ∀ phdr, writeSegments mem ELF_PAGE_SIZE (ph :: phdr) fp =
      writeSegments mem ELF_PAGE_SIZE phdr fp') : Provided mem phdr fp' := by
  intro b p a hsplit hpassed
  have hpassed' : Passed mem (ph :: b) fp := (along_cons hstep).mpr ⟨hspace, hpassed⟩
  rw [← hstep]
  exact h (ph :: b) p a (by rw [hsplit, List.cons_append]) hpassed'

theorem writeSegments_run (hpaged : ∀ ph ∈ before, PagedPhdr ph)
    (hend : fp.pos = fp.content.length) (h : Provided mem (before ++ after) fp)
    (hpassed : Passed mem before fp) :
    (∀ rest, writeSegments mem ELF_PAGE_SIZE (before ++ rest) fp =
        writeSegments mem ELF_PAGE_SIZE rest (writeSegments mem ELF_PAGE_SIZE before fp)) ∧
      Provided mem after (writeSegments mem ELF_PAGE_SIZE before fp) ∧
      ∃ bytes, fp.Grown (writeSegments mem ELF_PAGE_SIZE before fp) bytes ∧
        bytes.length ≤ segmentsSize before ∧
        (bytes.length = segmentsSize before ↔ Along mem (Filled mem) before fp) := by
  induction before generalizing fp with
  | nil =>
    exact ⟨fun _ => rfl, h, [], FILE.Grown.refl hend, le_rfl, iff_of_true rfl along_nil⟩
  | cons ph before ih =>
    have hspace : ¬ NoSpace mem ph fp := hpassed [] ph before rfl
    obtain ⟨bytes, fp', hstep, hgrown, hle, hfull, -⟩ :=
      writeSegments_step (hpaged ph List.mem_cons_self) hend h.head hspace
    obtain ⟨hrun, hprov, bytes', hgrown', hle', hfull'⟩ :=
      ih (fun p hp => hpaged p (List.mem_cons_of_mem ph hp)) hgrown.at_end (h.tail hspace hstep)
        ((along_cons hstep).mp hpassed).2
    have hsize := segmentsSize_cons ph before
    rw [hstep]
    refine ⟨fun rest => ?_, hprov, bytes ++ bytes', hgrown.trans hgrown', ?_, ?_⟩
    · rw [List.cons_append, hstep, hrun]
    · rw [List.length_append, hsize]
      omega
    · rw [List.length_append, hsize, along_cons hstep, ← hfull, ← hfull']
      omega

/-- Whatever happens, the file only grows. -/
theorem writeSegments_grown (hpaged : ∀ ph ∈ phdr, PagedPhdr ph)
    (hend : fp.pos = fp.content.length) (h : Provided mem phdr fp) :
    ∃ bytes, fp.Grown (writeSegments mem ELF_PAGE_SIZE phdr fp) bytes := by
  induction phdr generalizing fp with
  | nil => exact ⟨[], FILE.Grown.refl hend⟩
  | cons ph phdr ih =>
    have hhead := hpaged ph List.mem_cons_self
    by_cases hspace : NoSpace mem ph fp
    · exact writeSegments_noSpace hhead hend h.head hspace phdr
    · obtain ⟨bytes, fp', hstep, hgrown, -⟩ := writeSegments_step hhead hend h.head hspace
      obtain ⟨bytes', hgrown'⟩ :=
        ih (fun p hp => hpaged p (List.mem_cons_of_mem ph hp)) hgrown.at_end (h.tail hspace hstep)
      rw [hstep]
      exact ⟨_, hgrown.trans hgrown'⟩

end Run
end Opencore
