import Opencore.Dumper.Filter
import Opencore.Dumper.Threads
import Opencore.Dumper.Writers

/-! `DoCoredump`: collecting the process state, filtering, and writing the file. -/
namespace Opencore
open Machine Elf

variable {a : Arch}

def parserPhdr {c : ElfClass} (align_size : BitVec 32) (vma : VirtualMemoryArea) (ph : Phdr c) :
    Phdr c :=
  let flag (i : Fin 4) (lower upper : Char) (bit : BitVec 32) : BitVec 32 :=
    if vma.flags[i] = UInt8.ofNat lower.toNat ∨ vma.flags[i] = UInt8.ofNat upper.toNat then bit
    else 0
  let p_memsz := vma.endAddr.setWidth c.bits - vma.beginAddr.setWidth c.bits
  { ph with
    p_type := PT_LOAD
    p_vaddr := vma.beginAddr.setWidth c.bits
    p_paddr := 0
    p_memsz := p_memsz
    p_flags := ph.p_flags ||| flag 0 'r' 'R' PF_R ||| flag 1 'w' 'W' PF_W ||| flag 2 'x' 'X' PF_X
    p_filesz := p_memsz
    p_align := align_size.setWidth c.bits }

def parserNtFile (c : ElfClass) (vma : VirtualMemoryArea) : File c where
  beginAddr := vma.beginAddr.setWidth c.bits
  endAddr := vma.endAddr.setWidth c.bits
  offset := (vma.offset >>> 12).setWidth c.bits

/-- `fileslen += vma.file.length() + 1` over the maps. -/
def addFileslen (fileslen : BitVec 32) (maps : List VirtualMemoryArea) : BitVec 32 :=
  maps.foldl (fun n vma => n + BitVec.ofNat 32 (vma.file.length + 1)) fileslen

/-- `ParseProcessMapsVma`, given the areas that `ParseMaps` appends. -/
def parseProcessMapsVma (d : Dumper a) (areas : List VirtualMemoryArea) : Dumper a :=
  let d := { d with maps := d.maps ++ areas }
  if d.maps = [] then d
  else
    { d with
      phdr := d.maps.map fun vma => parserPhdr d.align_size vma {}
      file := d.maps.map (parserNtFile a.cls)
      fileslen := addFileslen d.fileslen d.maps }

/-- `e_ident` after `snprintf(e_ident, 5, ELFMAG)` and the three assignments. -/
def coreIdent (c : ElfClass) : Vector UInt8 16 :=
  #v[0x7f, 0x45, 0x4c, 0x46, (match c with | .elf32 => 1 | .elf64 => 2), 1, 1,
    0, 0, 0, 0, 0, 0, 0, 0, 0]

def createCoreHeader (d : Dumper a) : Dumper a :=
  { d with
    ehdr := {
      e_ident := coreIdent a.cls
      e_type := ET_CORE
      e_machine := a.machine
      e_version := EV_CURRENT
      e_entry := 0
      e_phoff := BitVec.ofNat a.cls.bits (sizeofEhdr a.cls)
      e_shoff := 0
      e_flags := 0
      e_ehsize := BitVec.ofNat 16 (sizeofEhdr a.cls)
      e_phentsize := BitVec.ofNat 16 (sizeofPhdr a.cls)
      e_phnum := (BitVec.ofNat 32 d.phdr.length + 1).setWidth 16
      e_shentsize := 0
      e_shnum := 0
      e_shstrndx := 0 } }

/-- The offset is computed from the count that was stored in 16 bits. -/
def createCoreNoteHeader (d : Dumper a) : Dumper a :=
  { d with
    note := { d.note with
      p_type := PT_NOTE
      p_offset := BitVec.ofNat a.cls.bits (sizeofEhdr a.cls) +
        d.ehdr.e_phnum.setWidth a.cls.bits * BitVec.ofNat a.cls.bits (sizeofPhdr a.cls) } }

/-- The first pass counts into `auxvnum`, the second fills the vector of that size. -/
def createCoreAUXV (d : Dumper a) (entries : List (Auxv a.cls)) : Dumper a :=
  let auxvnum := d.auxvnum + BitVec.ofNat 32 entries.length
  { d with
    auxvnum := auxvnum
    auxv := entries ++ List.replicate (tripCount auxvnum - entries.length) {} }

/-- `Prepare`; the scratch buffer `zero` is not part of the state. -/
def prepare (d : Dumper a) : Dumper a := { d with ehdr := {}, note := {} }

def collect (d : Dumper a) (view : ProcessView a) : Option (Dumper a) := do
  let d := stopTheWorld (prepare d) view
  let d := parseProcessMapsVma d view.maps
  let d := createCoreNoteHeader (createCoreHeader d)
  let d ← createCorePrStatus d view.prstatus
  some (createCoreAUXV d view.auxv)

def writeHeaders (d : Dumper a) (fp : FILE) : Dumper a × FILE :=
  let fp := writeCoreHeader d fp
  let (d, fp) := writeCoreNoteHeader d fp
  writeCoreProgramHeaders d fp

def writeNotes (d : Dumper a) (view : ProcessView a) (fp : FILE) : FILE :=
  let fp := writeCorePrStatus d view fp
  let fp := writeCoreAUXV d fp
  writeNtFile d fp

/-- `DoCoredump` after the filter. -/
def writeCore (d : Dumper a) (view : ProcessView a) (fp : FILE) : Dumper a × FILE :=
  let (d, fp) := writeHeaders d fp
  let fp := writeNotes d view fp
  let fp := alignNoteSegment d fp
  (d, writeCoreLoadSegment d view.mem fp)

/-- `DoCoredump` into a file whose writes meet `plan`. `none` means that the process
died: an index out of range, or a fault in a filter. -/
def doCoredump (d : Dumper a) (view : ProcessView a) (plan : ℕ → WriteResult) :
    Option (Dumper a × FILE) := do
  let d ← collect d view
  let d ← specialCoreFilter d view.files
  some (writeCore d view (FILE.create plan))

theorem doCoredump_eq (d : Dumper a) (view : ProcessView a) (plan : ℕ → WriteResult) :
    doCoredump d view plan = ((collect d view).bind fun d => specialCoreFilter d view.files).map
      fun d => writeCore d view (FILE.create plan) := by
  rw [Option.map_eq_bind, Option.bind_assoc]
  rfl

end Opencore
