import Opencore.Dumper.Core

/-! What each writer appends when its writes succeed: the ELF header, the program headers,
and the note records in order. -/
namespace Opencore
open Machine Elf

variable {a : Arch}

def coreName : Bytes := ascii "CORE" ++ [0]

def linuxName : Bytes := ascii "LINUX" ++ [0]

theorem pad4_coreName : pad4 coreName = coreMagic := by decide

theorem pad4_linuxName : pad4 linuxName = linuxMagic := by decide

def prstatusNote (p : PrStatus a) : Note := ⟨coreName, NT_PRSTATUS, p.bytes⟩

def siginfoNote (d : Dumper a) : Note := ⟨coreName, NT_SIGINFO, siginfoBytes d⟩

def regsetNotes (view : ProcessView a) (tid : BitVec 32) : List Note :=
  match a with
  | .arm64 =>
    [⟨coreName, NT_FPREGSET, fpregsetBytes view tid⟩,
      ⟨linuxName, NT_ARM_TLS, tlsBytes view tid⟩,
      ⟨linuxName, NT_ARM_PAC_MASK, pacMaskBytes view tid⟩,
      ⟨linuxName, NT_ARM_PAC_ENABLED_KEYS, pacEnabledKeysBytes view tid⟩,
      ⟨linuxName, NT_ARM_TAGGED_ADDR_CTRL, taggedAddrCtrlBytes view tid⟩]
  | _ => []

/-- The records of one `prstatus` slot; the first one is followed by NT_SIGINFO. -/
def slotNotes (d : Dumper a) (view : ProcessView a) (slot : PrStatus a × ℕ) : List Note :=
  prstatusNote slot.1 :: (if slot.2 = 0 then [siginfoNote d] else []) ++
    regsetNotes view slot.1.pr_pid

def auxvNote (d : Dumper a) : Note := ⟨coreName, NT_AUXV, d.auxv.flatMap Auxv.bytes⟩

@[simp] theorem length_siginfoBytes (d : Dumper a) : (siginfoBytes d).length = 128 := by
  unfold siginfoBytes
  cases d.siginfo <;> simp

@[simp] theorem length_fpregsetBytes (view : ProcessView a) (tid : BitVec 32) :
    (fpregsetBytes view tid).length = 528 := by
  unfold fpregsetBytes
  cases view.fpregset tid <;> simp

@[simp] theorem length_tlsBytes (view : ProcessView a) (tid : BitVec 32) :
    (tlsBytes view tid).length = 16 := by
  unfold tlsBytes
  cases view.tls tid <;> simp

@[simp] theorem length_pacMaskBytes (view : ProcessView a) (tid : BitVec 32) :
    (pacMaskBytes view tid).length = 16 := by
  unfold pacMaskBytes
  cases view.pacMask tid <;> simp

@[simp] theorem length_pacEnabledKeysBytes (view : ProcessView a) (tid : BitVec 32) :
    (pacEnabledKeysBytes view tid).length = 8 := by
  simp [pacEnabledKeysBytes]

@[simp] theorem length_taggedAddrCtrlBytes (view : ProcessView a) (tid : BitVec 32) :
    (taggedAddrCtrlBytes view tid).length = 8 := by
  simp [taggedAddrCtrlBytes]

/-- Header, magic and descriptor written in turn are the stored record, if the
hand-written sizes are those of the name and the descriptor. -/
theorem write_note {fp : FILE} (h : fp.Appending) {n : Note} {namesz descsz : BitVec 32}
    {magic : Bytes} (hname : namesz = BitVec.ofNat 32 n.name.length)
    (hdesc : descsz = BitVec.ofNat 32 n.desc.length) (hmagic : pad4 n.name = magic)
    (h4 : 4 ∣ n.desc.length) :
    ((fp.write (nhdrBytes namesz descsz n.type)).write magic).write n.desc =
      fp.append n.encode := by
  rw [FILE.write_eq h, FILE.write_eq (h.append _), FILE.append_append,
    FILE.write_eq (h.append _), FILE.append_append, Note.encode, pad4_eq_self h4, hmagic,
    hname, hdesc]

theorem writeCoreSignalInfo_eq {fp : FILE} (h : fp.Appending) (d : Dumper a) :
    writeCoreSignalInfo d fp = fp.append (siginfoNote d).encode :=
  write_note h (n := siginfoNote d) rfl (by simp [siginfoNote]) pad4_coreName
    (by simp [siginfoNote])

theorem writeCoreFpRegs_eq {fp : FILE} (h : fp.Appending) (view : ProcessView a)
    (tid : BitVec 32) :
    writeCoreFpRegs view tid fp =
      fp.append (Note.encode ⟨coreName, NT_FPREGSET, fpregsetBytes view tid⟩) :=
  write_note h (n := ⟨coreName, NT_FPREGSET, fpregsetBytes view tid⟩) rfl (by simp)
    pad4_coreName (by simp)

theorem writeCoreTLS_eq {fp : FILE} (h : fp.Appending) (view : ProcessView a)
    (tid : BitVec 32) :
    writeCoreTLS view tid fp =
      fp.append (Note.encode ⟨linuxName, NT_ARM_TLS, tlsBytes view tid⟩) :=
  write_note h (n := ⟨linuxName, NT_ARM_TLS, tlsBytes view tid⟩) rfl (by simp)
    pad4_linuxName (by simp)

theorem writeCorePAC_eq {fp : FILE} (h : fp.Appending) (view : ProcessView a)
    (tid : BitVec 32) :
    writeCorePAC view tid fp =
      fp.append (Note.encode ⟨linuxName, NT_ARM_PAC_MASK, pacMaskBytes view tid⟩ ++
        Note.encode ⟨linuxName, NT_ARM_PAC_ENABLED_KEYS, pacEnabledKeysBytes view tid⟩) := by
  let mask : Note := ⟨linuxName, NT_ARM_PAC_MASK, pacMaskBytes view tid⟩
  let keys : Note := ⟨linuxName, NT_ARM_PAC_ENABLED_KEYS, pacEnabledKeysBytes view tid⟩
  have hmask : ((fp.write (nhdrBytes NOTE_LINUX_NAME_SZ 16 mask.type)).write linuxMagic).write
      mask.desc = fp.append mask.encode :=
    write_note h rfl (by simp [mask]) pad4_linuxName (by simp [mask])
  have hkeys : (((fp.append mask.encode).write
      (nhdrBytes NOTE_LINUX_NAME_SZ 8 keys.type)).write linuxMagic).write keys.desc =
      (fp.append mask.encode).append keys.encode :=
    write_note (h.append _) rfl (by simp [keys]) pad4_linuxName (by simp [keys])
  rw [FILE.append_append, ← hmask] at hkeys
  exact hkeys

theorem writeCoreMTE_eq {fp : FILE} (h : fp.Appending) (view : ProcessView a)
    (tid : BitVec 32) :
    writeCoreMTE view tid fp =
      fp.append (Note.encode ⟨linuxName, NT_ARM_TAGGED_ADDR_CTRL, taggedAddrCtrlBytes view tid⟩) :=
  write_note h (n := ⟨linuxName, NT_ARM_TAGGED_ADDR_CTRL, taggedAddrCtrlBytes view tid⟩) rfl
    (by simp) pad4_linuxName (by simp)

theorem four_dvd_sizeofPrStatus (a : Arch) : 4 ∣ a.sizeofPrStatus := by cases a <;> decide

theorem writeRegsets_eq {fp : FILE} (h : fp.Appending) (view : ProcessView a)
    (tid : BitVec 32) :
    writeRegsets view tid fp = fp.append ((regsetNotes view tid).flatMap Note.encode) := by
  cases a with
  | arm64 =>
    simp only [writeRegsets, regsetNotes]
    rw [writeCoreFpRegs_eq h, writeCoreTLS_eq (h.append _), FILE.append_append,
      writeCorePAC_eq (h.append _), FILE.append_append, writeCoreMTE_eq (h.append _),
      FILE.append_append]
    simp
  | x86_64 => exact (FILE.append_nil h).symm
  | arm => exact (FILE.append_nil h).symm
  | x86 => exact (FILE.append_nil h).symm

theorem writePrStatus_eq {fp : FILE} (h : fp.Appending) (d : Dumper a) (view : ProcessView a)
    (slot : PrStatus a × ℕ) :
    writePrStatus d view fp slot = fp.append ((slotNotes d view slot).flatMap Note.encode) := by
  have hpr : ((fp.write (nhdrBytes NOTE_CORE_NAME_SZ (BitVec.ofNat 32 a.sizeofPrStatus)
      NT_PRSTATUS)).write coreMagic).write slot.1.bytes = fp.append (prstatusNote slot.1).encode :=
    write_note h (n := prstatusNote slot.1) rfl (by simp [prstatusNote]) pad4_coreName
      (by simpa [prstatusNote] using four_dvd_sizeofPrStatus a)
  have hsig : (if slot.2 = 0 then writeCoreSignalInfo d (fp.append (prstatusNote slot.1).encode)
      else fp.append (prstatusNote slot.1).encode) =
      fp.append ((prstatusNote slot.1).encode ++
        (if slot.2 = 0 then [siginfoNote d] else []).flatMap Note.encode) := by
    split_ifs
    · rw [writeCoreSignalInfo_eq (h.append _), FILE.append_append]
      simp
    · simp
  simp only [writePrStatus]
  rw [hpr, hsig,
    writeRegsets_eq (h.append _), FILE.append_append]
  simp [slotNotes]

theorem writeCorePrStatus_eq {fp : FILE} (h : fp.Appending) (d : Dumper a)
    (view : ProcessView a) :
    writeCorePrStatus d view fp = fp.append
      (((d.prstatus.take (tripCount (BitVec.ofNat 32 d.prstatus.length))).zipIdx.flatMap
        (slotNotes d view)).flatMap Note.encode) := by
  rw [List.flatMap_assoc]
  exact FILE.foldl_append (fun fp slot hfp => writePrStatus_eq hfp d view slot) h _

theorem writeCoreAUXV_eq {fp : FILE} (h : fp.Appending) (d : Dumper a) :
    writeCoreAUXV d fp = fp.append
      (nhdrBytes NOTE_CORE_NAME_SZ (BitVec.ofNat 32 (sizeofAuxv a.cls) * d.auxvnum) NT_AUXV ++
        coreMagic ++ (d.auxv.take (tripCount d.auxvnum)).flatMap Auxv.bytes) := by
  simp only [writeCoreAUXV]
  rw [FILE.write_eq h, FILE.write_eq (h.append _), FILE.append_append,
    FILE.foldl_write (h.append _), FILE.append_append]

/-- The bytes of NT_FILE after its header and name, before the padding. -/
def ntFileBody (d : Dumper a) : Bytes :=
  let phnum := BitVec.ofNat 32 d.phdr.length
  wordBytes (phnum.signExtend a.cls.bits) ++ (bytesFromPageSize d).take (a.cls.bits / 8) ++
    (d.file.take (tripCount phnum)).flatMap File.bytes ++
    (d.maps.take (tripCount phnum)).flatMap fun vma => vma.file ++ [0]

def ntFileDescsz (d : Dumper a) : BitVec 32 :=
  BitVec.ofNat 32 (sizeofFile a.cls) * BitVec.ofNat 32 d.phdr.length +
    2 * BitVec.ofNat 32 (a.cls.bits / 8) + RoundUp d.fileslen 4

theorem writeNtFile_eq {fp : FILE} (h : fp.Appending) (d : Dumper a) :
    writeNtFile d fp = fp.append
      (nhdrBytes NOTE_CORE_NAME_SZ (ntFileDescsz d) NT_FILE ++ coreMagic ++ ntFileBody d) := by
  simp only [writeNtFile]
  rw [FILE.write_eq h, FILE.write_eq (h.append _), FILE.append_append,
    FILE.write_eq (h.append _), FILE.append_append, FILE.write_eq (h.append _),
    FILE.append_append, FILE.foldl_write (h.append _), FILE.append_append,
    FILE.foldl_write (h.append _), FILE.append_append]
  simp only [ntFileBody, ntFileDescsz, List.append_assoc]

theorem writeCoreHeader_eq {fp : FILE} (h : fp.Appending) (d : Dumper a) :
    writeCoreHeader d fp = fp.append d.ehdr.bytes := FILE.write_eq h _

/-- Pages `0, …, n - 1` of a segment as they are emitted when every write succeeds. -/
def segmentBytes {c : ElfClass} (mem : ProcMem) (align_size : BitVec 32) (ph : Phdr c) : Bytes :=
  (List.range (tripCount (pageCount align_size ph))).flatMap (readPage mem align_size ph)

theorem writePages_eq {c : ElfClass} {fp : FILE} (h : fp.Appending) (mem : ProcMem)
    (align_size : BitVec 32) (ph : Phdr c) (n i : ℕ) :
    writePages mem align_size ph n i fp =
      (.done, fp.append ((List.range' i n).flatMap (readPage mem align_size ph))) := by
  induction n generalizing i fp with
  | zero => simp [writePages, FILE.append_nil h]
  | succ n ih =>
    rw [writePages, FILE.fwrite_eq h]
    simp only [ih (h.append _), FILE.append_append, List.range'_succ, List.flatMap_cons]

theorem writeSegment_eq {c : ElfClass} {fp : FILE} (h : fp.Appending) (mem : ProcMem)
    (align_size : BitVec 32) (ph : Phdr c) :
    writeSegment mem align_size ph fp = (false, fp.append (segmentBytes mem align_size ph)) := by
  simp only [writeSegment, writePages_eq h, segmentBytes, List.range_eq_range']

/-- The bytes of the kept segments, in order. -/
def loadBytes {c : ElfClass} (mem : ProcMem) (align_size : BitVec 32) (phdr : List (Phdr c)) :
    Bytes :=
  phdr.flatMap fun ph => if ph.p_filesz > 0 then segmentBytes mem align_size ph else []

theorem writeSegments_eq {c : ElfClass} {fp : FILE} (h : fp.Appending) (mem : ProcMem)
    (align_size : BitVec 32) (phdr : List (Phdr c)) :
    writeSegments mem align_size phdr fp = fp.append (loadBytes mem align_size phdr) := by
  induction phdr generalizing fp with
  | nil => exact (FILE.append_nil h).symm
  | cons ph phdr ih =>
    rw [writeSegments]
    split_ifs with hsz
    · simp only [writeSegment_eq h, ih (h.append _), FILE.append_append, loadBytes,
        List.flatMap_cons, if_pos hsz]
    · rw [ih h, loadBytes, loadBytes, List.flatMap_cons, if_neg hsz, List.nil_append]

end Opencore
