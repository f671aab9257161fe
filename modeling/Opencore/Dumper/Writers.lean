import Opencore.Machine.Stdio
import Opencore.Elf.Notes
import Opencore.Dumper.State

/-! The functions that write the core file, one `fwrite` after the other. -/
namespace Opencore
open Machine Elf

variable {a : Arch}

/-- `char magic[8]` after `snprintf(magic, 5, "CORE")`. -/
def coreMagic : Bytes := ascii "CORE" ++ zeros 4

/-- `char magic[8]` after `snprintf(magic, 6, "LINUX")`. -/
def linuxMagic : Bytes := ascii "LINUX" ++ zeros 3

def NOTE_CORE_NAME_SZ : BitVec 32 := 5
def NOTE_LINUX_NAME_SZ : BitVec 32 := 6

@[simp] theorem length_coreMagic : coreMagic.length = 8 := by decide

def writeCoreHeader (d : Dumper a) (fp : FILE) : FILE := fp.write d.ehdr.bytes

/-- The three `+=` to `note.p_filesz` in `size_t` arithmetic; `int` operands are
sign-extended. -/
def noteFilesz (d : Dumper a) : BitVec a.cls.bits :=
  let w := a.cls.bits
  let auxv := BitVec.ofNat w (sizeofAuxv a.cls) * d.auxvnum.signExtend w +
    BitVec.ofNat w sizeofNhdr + 8
  let file := BitVec.ofNat w (sizeofFile a.cls) * BitVec.ofNat w d.phdr.length +
    BitVec.ofNat w sizeofNhdr + 8 + 2 * BitVec.ofNat w (w / 8) +
    (RoundUp d.fileslen 4).signExtend w
  d.note.p_filesz + auxv + d.extra_note_filesz.signExtend w + file

def writeCoreNoteHeader (d : Dumper a) (fp : FILE) : Dumper a × FILE :=
  let d := { d with note := { d.note with p_filesz := noteFilesz d } }
  (d, fp.write d.note.bytes)

/-- `phdr[0].p_offset = offset`, then each offset from the previous segment. -/
def placeSegments {c : ElfClass} (offset : BitVec c.bits) : List (Phdr c) → List (Phdr c)
  | [] => []
  | ph :: phdr => { ph with p_offset := offset } :: placeSegments (offset + ph.p_filesz) phdr

def writeCoreProgramHeaders (d : Dumper a) (fp : FILE) : Dumper a × FILE :=
  if d.phdr = [] then (d, fp)
  else
    let phnum := tripCount (BitVec.ofNat 32 d.phdr.length)
    let offset := RoundUp (d.note.p_offset + d.note.p_filesz) (d.align_size.setWidth a.cls.bits)
    -- phdr[0] is placed and written before the loop looks at phnum
    let placed := placeSegments offset (d.phdr.take (max 1 phnum))
    ({ d with phdr := placed ++ d.phdr.drop (max 1 phnum) },
      placed.foldl (fun fp ph => fp.write ph.bytes) fp)

def siginfoBytes (d : Dumper a) : Bytes :=
  match d.siginfo with
  | none => zeros 128
  | some info => info.pointee.toList

def writeCoreSignalInfo (d : Dumper a) (fp : FILE) : FILE :=
  let fp := fp.write (nhdrBytes NOTE_CORE_NAME_SZ 128 NT_SIGINFO)
  let fp := fp.write coreMagic
  fp.write (siginfoBytes d)

/-! arm64 only: the register sets that follow each NT_PRSTATUS. -/

def fpregsetBytes (view : ProcessView a) (tid : BitVec 32) : Bytes :=
  match view.fpregset tid with
  | none => zeros 528
  | some fpregset => fpregset.toList

def tlsBytes (view : ProcessView a) (tid : BitVec 32) : Bytes :=
  match view.tls tid with
  | none => zeros 16
  | some tls => tls.toList

def GENMASK_UL (h l : ℕ) : BitVec 64 :=
  (BitVec.allOnes 64 <<< l) &&& (BitVec.allOnes 64 >>> (64 - 1 - h))

def DEF_VA_BITS : ℕ := 39

def pacMaskBytes (view : ProcessView a) (tid : BitVec 32) : Bytes :=
  match view.pacMask tid with
  | none => wordBytes (GENMASK_UL 54 DEF_VA_BITS) ++ wordBytes (GENMASK_UL 54 DEF_VA_BITS)
  | some uregs => wordBytes uregs.1 ++ wordBytes uregs.2

def pacEnabledKeysBytes (view : ProcessView a) (tid : BitVec 32) : Bytes :=
  wordBytes ((view.pacEnabledKeys tid).getD (-1))

def taggedAddrCtrlBytes (view : ProcessView a) (tid : BitVec 32) : Bytes :=
  wordBytes ((view.taggedAddrCtrl tid).getD (-1))

def writeCoreFpRegs (view : ProcessView a) (tid : BitVec 32) (fp : FILE) : FILE :=
  let fp := fp.write (nhdrBytes NOTE_CORE_NAME_SZ 528 NT_FPREGSET)
  let fp := fp.write coreMagic
  fp.write (fpregsetBytes view tid)

/-- The descriptor size is that of `user_pac_mask`, the descriptor an `Elf64_tls`. -/
def writeCoreTLS (view : ProcessView a) (tid : BitVec 32) (fp : FILE) : FILE :=
  let fp := fp.write (nhdrBytes NOTE_LINUX_NAME_SZ 16 NT_ARM_TLS)
  let fp := fp.write linuxMagic
  fp.write (tlsBytes view tid)

def writeCorePAC (view : ProcessView a) (tid : BitVec 32) (fp : FILE) : FILE :=
  let fp := fp.write (nhdrBytes NOTE_LINUX_NAME_SZ 16 NT_ARM_PAC_MASK)
  let fp := fp.write linuxMagic
  let fp := fp.write (pacMaskBytes view tid)
  let fp := fp.write (nhdrBytes NOTE_LINUX_NAME_SZ 8 NT_ARM_PAC_ENABLED_KEYS)
  let fp := fp.write linuxMagic
  fp.write (pacEnabledKeysBytes view tid)

def writeCoreMTE (view : ProcessView a) (tid : BitVec 32) (fp : FILE) : FILE :=
  let fp := fp.write (nhdrBytes NOTE_LINUX_NAME_SZ 8 NT_ARM_TAGGED_ADDR_CTRL)
  let fp := fp.write linuxMagic
  fp.write (taggedAddrCtrlBytes view tid)

/-- The calls that only arm64 makes at the end of an iteration of `WriteCorePrStatus`. -/
def writeRegsets (view : ProcessView a) (tid : BitVec 32) (fp : FILE) : FILE :=
  match a with
  | .arm64 =>
    let fp := writeCoreFpRegs view tid fp
    let fp := writeCoreTLS view tid fp
    let fp := writeCorePAC view tid fp
    writeCoreMTE view tid fp
  | _ => fp

/-- What `WriteCorePrStatus` writes in one iteration. -/
def writePrStatus (d : Dumper a) (view : ProcessView a) (fp : FILE) (slot : PrStatus a × ℕ) :
    FILE :=
  let fp := fp.write (nhdrBytes NOTE_CORE_NAME_SZ (BitVec.ofNat 32 a.sizeofPrStatus) NT_PRSTATUS)
  let fp := fp.write coreMagic
  let fp := fp.write slot.1.bytes
  let fp := if slot.2 = 0 then writeCoreSignalInfo d fp else fp
  writeRegsets view slot.1.pr_pid fp

def writeCorePrStatus (d : Dumper a) (view : ProcessView a) (fp : FILE) : FILE :=
  let prnum := tripCount (BitVec.ofNat 32 d.prstatus.length)
  (d.prstatus.take prnum).zipIdx.foldl (writePrStatus d view) fp

def writeCoreAUXV (d : Dumper a) (fp : FILE) : FILE :=
  let descsz := BitVec.ofNat 32 (sizeofAuxv a.cls) * d.auxvnum
  let fp := fp.write (nhdrBytes NOTE_CORE_NAME_SZ descsz NT_AUXV)
  let fp := fp.write coreMagic
  (d.auxv.take (tripCount d.auxvnum)).foldl (fun fp v => fp.write v.bytes) fp

/-- The object's memory from `page_size` on: the members in declaration order. -/
def bytesFromPageSize (d : Dumper a) : Bytes :=
  wordBytes d.page_size ++ wordBytes (ptrValue d.ucontext_raw) ++ wordBytes (ptrValue d.siginfo)

def writeNtFile (d : Dumper a) (fp : FILE) : FILE :=
  let phnum := BitVec.ofNat 32 d.phdr.length
  let w := a.cls.bits / 8
  let descsz := BitVec.ofNat 32 (sizeofFile a.cls) * phnum + 2 * BitVec.ofNat 32 w +
    RoundUp d.fileslen 4
  let fp := fp.write (nhdrBytes NOTE_CORE_NAME_SZ descsz NT_FILE)
  let fp := fp.write coreMagic
  let number := phnum.signExtend a.cls.bits
  let fp := fp.write (wordBytes number)
  -- `fwrite(&page_size, 8, 1, fp)` on lp64, `fwrite(&page_size, 4, 1, fp)` on lp32
  let fp := fp.write ((bytesFromPageSize d).take w)
  let fp := (d.file.take (tripCount phnum)).foldl (fun fp f => fp.write f.bytes) fp
  (d.maps.take (tripCount phnum)).foldl (fun fp vma => fp.write (vma.file ++ [0])) fp

def alignNoteSegment (d : Dumper a) (fp : FILE) : FILE :=
  let w := a.cls.bits
  let align_filesz := d.note.p_filesz - (RoundUp d.fileslen 4).signExtend w +
    d.fileslen.signExtend w
  let offset := RoundUp (d.note.p_offset + align_filesz) (d.align_size.setWidth w)
  let size := offset - (d.note.p_offset + align_filesz)
  fp.write (zeros size.toNat)

/-- Page `i` of a segment: a zeroed buffer overwritten by what `pread64` delivers. The
product `i * align_size` has type `uint32_t`. -/
def readPage {c : ElfClass} (mem : ProcMem) (align_size : BitVec 32) (ph : Phdr c) (i : ℕ) :
    Bytes :=
  let addr := ph.p_vaddr + (BitVec.ofNat 32 i * align_size).setWidth c.bits
  let zero := zeros align_size.toNat
  match mem.pread64 (addr.setWidth 64) ph.p_align.toNat with
  | none => zero
  | some b => b ++ zero.drop b.length

inductive PageLoop
  | done
  | failed
  | noSpace
  deriving DecidableEq

/-- The page loop over `n` remaining pages, the first of them page `i`. -/
def writePages {c : ElfClass} (mem : ProcMem) (align_size : BitVec 32) (ph : Phdr c) :
    ℕ → ℕ → FILE → PageLoop × FILE
  | 0, _, fp => (.done, fp)
  | n + 1, i, fp =>
    match fp.fwrite (readPage mem align_size ph i) with
    | (.ok, fp) => writePages mem align_size ph n (i + 1) fp
    | (.fail errno _, fp) => (if errno = ENOSPC then .noSpace else .failed, fp)

/-- `int count = phdr[index].p_memsz / align_size`. -/
def pageCount {c : ElfClass} (align_size : BitVec 32) (ph : Phdr c) : BitVec 32 :=
  (ph.p_memsz / align_size.setWidth c.bits).setWidth 32

/-- One kept segment; `true` means that the function returns. -/
def writeSegment {c : ElfClass} (mem : ProcMem) (align_size : BitVec 32) (ph : Phdr c)
    (fp : FILE) : Bool × FILE :=
  let current_pos := fp.ftell c.bits
  let count := tripCount (pageCount align_size ph)
  match writePages mem align_size ph count 0 fp with
  | (.done, fp) => (false, fp)
  | (.noSpace, fp) => (true, fp)
  | (.failed, fp) =>
    if current_pos > 0 then
      (false, (List.range count).foldl (fun fp _ => fp.write (zeros align_size.toNat))
        (fp.fseek current_pos.toNat))
    else (false, fp)

/-- The `while` loop of `WriteCoreLoadSegment`. -/
def writeSegments {c : ElfClass} (mem : ProcMem) (align_size : BitVec 32) :
    List (Phdr c) → FILE → FILE
  | [], fp => fp
  | ph :: phdr, fp =>
    if ph.p_filesz > 0 then
      match writeSegment mem align_size ph fp with
      | (true, fp) => fp
      | (false, fp) => writeSegments mem align_size phdr fp
    else writeSegments mem align_size phdr fp

def writeCoreLoadSegment (d : Dumper a) (mem : Option ProcMem) (fp : FILE) : FILE :=
  match mem with
  | none => fp
  | some mem =>
    writeSegments mem d.align_size (d.phdr.take (tripCount (BitVec.ofNat 32 d.phdr.length))) fp

end Opencore
