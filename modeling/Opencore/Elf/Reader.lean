import Opencore.Machine.Codec
import Opencore.Elf.Headers

/-! Reading the ELF header and the program headers back from their stored bytes. -/
namespace Opencore.Elf
open Machine

/-- `e_ident` in front of the other members. -/
def withIdent {α : Type*} (bs : Bytes) (next : Vector UInt8 16 → Bytes → Option α) : Option α :=
  if h : 16 ≤ bs.length then
    next ⟨(bs.take 16).toArray, by rw [List.size_toArray, List.length_take_of_le h]⟩ (bs.drop 16)
  else none

def takeEhdr (c : ElfClass) (bs : Bytes) : Option (Ehdr c × Bytes) :=
  withIdent bs fun e_ident bs =>
  withWord 16 bs fun e_type bs =>
  withWord 16 bs fun e_machine bs =>
  withWord 32 bs fun e_version bs =>
  withWord c.bits bs fun e_entry bs =>
  withWord c.bits bs fun e_phoff bs =>
  withWord c.bits bs fun e_shoff bs =>
  withWord 32 bs fun e_flags bs =>
  withWord 16 bs fun e_ehsize bs =>
  withWord 16 bs fun e_phentsize bs =>
  withWord 16 bs fun e_phnum bs =>
  withWord 16 bs fun e_shentsize bs =>
  withWord 16 bs fun e_shnum bs =>
  withWord 16 bs fun e_shstrndx bs =>
    some (⟨e_ident, e_type, e_machine, e_version, e_entry, e_phoff, e_shoff, e_flags, e_ehsize,
      e_phentsize, e_phnum, e_shentsize, e_shnum, e_shstrndx⟩, bs)

def takePhdr : (c : ElfClass) → Bytes → Option (Phdr c × Bytes)
  | .elf32, bs =>
    withWord 32 bs fun p_type bs =>
    withWord ElfClass.elf32.bits bs fun p_offset bs =>
    withWord ElfClass.elf32.bits bs fun p_vaddr bs =>
    withWord ElfClass.elf32.bits bs fun p_paddr bs =>
    withWord ElfClass.elf32.bits bs fun p_filesz bs =>
    withWord ElfClass.elf32.bits bs fun p_memsz bs =>
    withWord 32 bs fun p_flags bs =>
    withWord ElfClass.elf32.bits bs fun p_align bs =>
      some (⟨p_type, p_flags, p_offset, p_vaddr, p_paddr, p_filesz, p_memsz, p_align⟩, bs)
  | .elf64, bs =>
    withWord 32 bs fun p_type bs =>
    withWord 32 bs fun p_flags bs =>
    withWord ElfClass.elf64.bits bs fun p_offset bs =>
    withWord ElfClass.elf64.bits bs fun p_vaddr bs =>
    withWord ElfClass.elf64.bits bs fun p_paddr bs =>
    withWord ElfClass.elf64.bits bs fun p_filesz bs =>
    withWord ElfClass.elf64.bits bs fun p_memsz bs =>
    withWord ElfClass.elf64.bits bs fun p_align bs =>
      some (⟨p_type, p_flags, p_offset, p_vaddr, p_paddr, p_filesz, p_memsz, p_align⟩, bs)

theorem withIdent_toList {α : Type*} (ident : Vector UInt8 16) (rest : Bytes)
    (next : Vector UInt8 16 → Bytes → Option α) :
    withIdent (ident.toList ++ rest) next = next ident rest := by
  have hlen : ident.toList.length = 16 := Vector.length_toList
  have hle : 16 ≤ (ident.toList ++ rest).length := by
    rw [List.length_append]
    omega
  unfold withIdent
  rw [dif_pos hle]
  simp only [List.drop_left' hlen, List.take_left' hlen]
  rfl

theorem takeEhdr_bytes {c : ElfClass} (e : Ehdr c) (rest : Bytes) :
    takeEhdr c (e.bytes ++ rest) = some (e, rest) := by
  have hbits := c.eight_dvd_bits
  have h16 : 8 ∣ 16 := by norm_num
  have h32 : 8 ∣ 32 := by norm_num
  simp only [takeEhdr, Ehdr.bytes, List.append_assoc]
  rw [withIdent_toList, withWord_wordBytes h16, withWord_wordBytes h16, withWord_wordBytes h32,
    withWord_wordBytes hbits, withWord_wordBytes hbits, withWord_wordBytes hbits,
    withWord_wordBytes h32, withWord_wordBytes h16, withWord_wordBytes h16,
    withWord_wordBytes h16, withWord_wordBytes h16, withWord_wordBytes h16, withWord_wordBytes h16]

theorem takePhdr_bytes {c : ElfClass} (p : Phdr c) (rest : Bytes) :
    takePhdr c (p.bytes ++ rest) = some (p, rest) := by
  have hbits := c.eight_dvd_bits
  have h32 : 8 ∣ 32 := by norm_num
  cases c with
  | elf32 =>
    simp only [takePhdr, Phdr.bytes, List.append_assoc]
    rw [withWord_wordBytes h32, withWord_wordBytes hbits, withWord_wordBytes hbits,
      withWord_wordBytes hbits, withWord_wordBytes hbits, withWord_wordBytes hbits,
      withWord_wordBytes h32, withWord_wordBytes hbits]
  | elf64 =>
    simp only [takePhdr, Phdr.bytes, List.append_assoc]
    rw [withWord_wordBytes h32, withWord_wordBytes h32, withWord_wordBytes hbits,
      withWord_wordBytes hbits, withWord_wordBytes hbits, withWord_wordBytes hbits,
      withWord_wordBytes hbits, withWord_wordBytes hbits]

theorem phdrBytes_injective {c : ElfClass} {p q : Phdr c} (h : p.bytes = q.bytes) : p = q := by
  have hp := takePhdr_bytes p []
  rw [h, takePhdr_bytes] at hp
  exact (Prod.mk.inj (Option.some.inj hp)).1.symm

end Opencore.Elf
