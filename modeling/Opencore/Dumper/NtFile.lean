import Opencore.Dumper.Emission

/-! NT_FILE on lp64 and the signal context: eight bytes are written from a four-byte
member, so half of the page-size word comes from its neighbour. -/
namespace Opencore
open Machine Elf

variable {a : Arch}

/-- The bytes that `WriteNtFile` emits when every write succeeds. -/
def ntFileBytes (d : Dumper a) : Bytes := (writeNtFile d (FILE.create fun _ => .ok)).content

/-- The word after the note header, the name and the number of entries. -/
def emittedPageSize (d : Dumper a) : ℕ := ofLe (slice (ntFileBytes d) 28 8)

/-- The half of a pointer that lies next to `page_size`. -/
def lowHalf {w : ℕ} {α : Type} (p : Option (Ref w α)) : ℕ := (ptrValue p).toNat % 2 ^ 32

theorem ntFileBytes_eq (hc : a.cls = .elf64) (d : Dumper a) : ∃ before after,
    before.length = 28 ∧ ∀ context,
      ntFileBytes { d with ucontext_raw := context } = before ++
        ((bytesFromPageSize { d with ucontext_raw := context }).take 8 ++ after) := by
  have hwidth : a.cls.bits / 8 = 8 := by rw [hc]; rfl
  refine ⟨nhdrBytes NOTE_CORE_NAME_SZ (ntFileDescsz d) NT_FILE ++ coreMagic ++
    wordBytes ((BitVec.ofNat 32 d.phdr.length).signExtend a.cls.bits),
    (d.file.take (tripCount (BitVec.ofNat 32 d.phdr.length))).flatMap File.bytes ++
      (d.maps.take (tripCount (BitVec.ofNat 32 d.phdr.length))).flatMap fun vma => vma.file ++ [0],
    ?_, fun context => ?_⟩
  · simp only [List.length_append, length_nhdrBytes, length_coreMagic, length_wordBytes, hwidth]
  · rw [ntFileBytes, writeNtFile_eq (FILE.appending_create fun _ => rfl), FILE.content_append]
    simp only [ntFileBody, ntFileDescsz, hwidth, FILE.create, List.nil_append, List.append_assoc]

theorem ofLe_pageSize (hc : a.cls = .elf64) (d : Dumper a) :
    ofLe ((bytesFromPageSize d).take 8) = d.page_size.toNat + 2 ^ 32 * lowHalf d.ucontext_raw := by
  have hwidth : a.cls.bits / 8 = 8 := by rw [hc]; rfl
  have hctx := ofLe_wordBytes a.cls.eight_dvd_bits (ptrValue d.ucontext_raw)
  have htake : (bytesFromPageSize d).take 8 =
      wordBytes d.page_size ++ (wordBytes (ptrValue d.ucontext_raw)).take 4 := by
    rw [bytesFromPageSize, List.append_assoc, List.take_append, List.take_append_of_le_length]
    · rw [List.take_of_length_le (by simp), length_wordBytes]
    · rw [length_wordBytes, length_wordBytes, hwidth]
      norm_num
  rw [htake, ofLe_append, ofLe_wordBytes (by norm_num), ofLe_take, hctx, length_wordBytes, lowHalf]
  norm_num

theorem emittedPageSize_eq (hc : a.cls = .elf64) (d : Dumper a) :
    emittedPageSize d = d.page_size.toNat + 2 ^ 32 * lowHalf d.ucontext_raw := by
  have hwidth : a.cls.bits / 8 = 8 := by rw [hc]; rfl
  obtain ⟨before, after, hlen, hbytes⟩ := ntFileBytes_eq hc d
  have htake : ((bytesFromPageSize d).take 8).length = 8 := by
    rw [List.length_take]
    simp only [bytesFromPageSize, List.length_append, length_wordBytes, hwidth]
    norm_num
  have hword := slice_mid_of_eq (c := after) hlen.symm htake.symm
  rw [emittedPageSize, show d = { d with ucontext_raw := d.ucontext_raw } from rfl, hbytes,
    hword, ofLe_pageSize hc]

/-- The emitted bytes of two states that differ in the signal context only agree when the low
halves of the two pointers do, and the page-size word is `page_size` when that half is zero. -/
theorem ntFileBytes_context_iff (hc : a.cls = .elf64) (d : Dumper a)
    (context : Option (Ref a.cls.bits a.MContext)) :
    (ntFileBytes { d with ucontext_raw := context } = ntFileBytes d ↔
      lowHalf context = lowHalf d.ucontext_raw) ∧
    (emittedPageSize d = d.page_size.toNat ↔ lowHalf d.ucontext_raw = 0) := by
  constructor
  · constructor
    · intro h
      have hword : emittedPageSize { d with ucontext_raw := context } = emittedPageSize d := by
        rw [emittedPageSize, h, emittedPageSize]
      rw [emittedPageSize_eq hc, emittedPageSize_eq hc] at hword
      exact Nat.eq_of_mul_eq_mul_left (by norm_num) (Nat.add_left_cancel hword)
    · intro h
      obtain ⟨before, after, -, hbytes⟩ := ntFileBytes_eq hc d
      have hwidth : a.cls.bits / 8 = 8 := by rw [hc]; rfl
      have hlen (e : Dumper a) : ((bytesFromPageSize e).take 8).length = 8 := by
        rw [List.length_take]
        simp only [bytesFromPageSize, List.length_append, length_wordBytes, hwidth]
        norm_num
      have hsame : (bytesFromPageSize { d with ucontext_raw := context }).take 8 =
          (bytesFromPageSize d).take 8 := by
        have hx := leBytes_ofLe ((bytesFromPageSize { d with ucontext_raw := context }).take 8)
        have hy := leBytes_ofLe ((bytesFromPageSize d).take 8)
        rw [hlen, ofLe_pageSize hc] at hx hy
        rw [← hx, ← hy, h]
      rw [hbytes context, hsame]
      exact (hbytes d.ucontext_raw).symm
  · rw [emittedPageSize_eq hc]
    omega

/-- The state of a crash dump: a context is set, at an address. -/
def crashDumperAt (address : BitVec 64) (h : address ≠ 0) : Dumper .arm64 :=
  { Dumper.new .arm64 4096 with
    ucontext_raw := some ⟨address, ⟨0, Vector.replicate 31 0, 0, 0, 0⟩, h⟩ }

def crashDumper : Dumper .arm64 := crashDumperAt 0x7ff012345678 (by decide)

/-- A context whose address has the same low half leaves the bytes, and one whose low half is
zero leaves the page size. -/
theorem ntFileBytes_context_moved :
    ntFileBytes (crashDumperAt 0x7fe012345678 (by decide)) = ntFileBytes crashDumper ∧
      emittedPageSize (crashDumperAt 0x7ff000000000 (by decide)) = 4096 := by
  let moved := crashDumperAt 0x7fe012345678 (by decide)
  let aligned := crashDumperAt 0x7ff000000000 (by decide)
  obtain ⟨hbytes, -⟩ := ntFileBytes_context_iff rfl crashDumper moved.ucontext_raw
  obtain ⟨-, hword⟩ := ntFileBytes_context_iff rfl aligned none
  exact ⟨hbytes.mpr (by decide), hword.mpr (by decide)⟩

/-- With a context the page-size word is 0x1234567800001000. -/
theorem ntFileBytes_context_crash :
    emittedPageSize crashDumper = 0x1234567800001000 ∧
    ntFileBytes { crashDumper with ucontext_raw := none } ≠ ntFileBytes crashDumper := by
  have hcrash : emittedPageSize crashDumper = 0x1234567800001000 := by
    rw [emittedPageSize_eq rfl]
    rfl
  have hnone : emittedPageSize { crashDumper with ucontext_raw := none } = 0x1000 := by
    rw [emittedPageSize_eq rfl]
    rfl
  refine ⟨hcrash, fun h => ?_⟩
  rw [emittedPageSize, ← h] at hcrash
  rw [emittedPageSize, hcrash] at hnone
  exact absurd hnone (by norm_num)

end Opencore
