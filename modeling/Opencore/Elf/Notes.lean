import Opencore.Machine.Word
import Opencore.Machine.Bytes

/-! The note segment of an ELF file: records of a 12-byte header, a name padded to four
bytes and a descriptor padded to four bytes, and the reader that walks them. -/
namespace Opencore.Elf
open Machine

structure Note where
  /-- The name as stored, its terminating NUL included. -/
  name : Bytes
  type : BitVec 32
  desc : Bytes
  deriving DecidableEq, Repr

/-- Bytes followed by the zeros that bring them to a multiple of four. -/
def pad4 (b : Bytes) : Bytes := b ++ zeros (alignUp b.length 4 - b.length)

/-- `Elf32_Nhdr` and `Elf64_Nhdr`, which are the same record. -/
def nhdrBytes (namesz descsz type : BitVec 32) : Bytes :=
  wordBytes namesz ++ wordBytes descsz ++ wordBytes type

def Note.encode (n : Note) : Bytes :=
  nhdrBytes (BitVec.ofNat 32 n.name.length) (BitVec.ofNat 32 n.desc.length) n.type ++
    pad4 n.name ++ pad4 n.desc

structure Note.Fits (n : Note) : Prop where
  name_lt : n.name.length < 2 ^ 32
  desc_lt : n.desc.length < 2 ^ 32

def readNote (bs : Bytes) : Option (Note × Bytes) :=
  let namesz := ofLe (slice bs 0 4)
  let descsz := ofLe (slice bs 4 4)
  let type := ofLe (slice bs 8 4)
  let next := 12 + alignUp namesz 4 + alignUp descsz 4
  if bs.length < next then none
  else some (⟨slice bs 12 namesz, BitVec.ofNat 32 type, slice bs (12 + alignUp namesz 4) descsz⟩,
    bs.drop next)

theorem readNote_shorter {bs rest : Bytes} {n : Note} (h : readNote bs = some (n, rest)) :
    rest.length < bs.length := by
  simp only [readNote] at h
  split_ifs at h with hlen
  simp only [Option.some.injEq, Prod.mk.injEq] at h
  rw [← h.2, List.length_drop]
  omega

/-- Read records until the input is used up; `none` if it ends inside a record. -/
def readNotes (bs : Bytes) : Option (List Note) :=
  match bs with
  | [] => some []
  | b :: bs =>
    match _hn : readNote (b :: bs) with
    | none => none
    | some (n, rest) => (readNotes rest).map (n :: ·)
termination_by bs.length
decreasing_by exact readNote_shorter _hn

@[simp] theorem length_nhdrBytes (a b c : BitVec 32) : (nhdrBytes a b c).length = 12 := by
  simp [nhdrBytes]

@[simp] theorem length_pad4 (b : Bytes) : (pad4 b).length = alignUp b.length 4 := by
  have := le_alignUp (v := b.length) (n := 4) (by norm_num)
  simp only [pad4, List.length_append, length_zeros]
  omega

theorem length_encode (n : Note) :
    n.encode.length = 12 + alignUp n.name.length 4 + alignUp n.desc.length 4 := by
  simp [Note.encode, Nat.add_assoc]

theorem pad4_eq_self {b : Bytes} (h : 4 ∣ b.length) : pad4 b = b := by
  have hle := alignUp_le (v := b.length) (by norm_num) h le_rfl
  rw [pad4, Nat.sub_eq_zero_of_le hle]
  simp [zeros]

theorem slice_nhdr (a b c : BitVec 32) (rest : Bytes) :
    slice (nhdrBytes a b c ++ rest) 0 4 = wordBytes a ∧
    slice (nhdrBytes a b c ++ rest) 4 4 = wordBytes b ∧
    slice (nhdrBytes a b c ++ rest) 8 4 = wordBytes c := by
  have h0 := slice_mid [] (wordBytes a) (wordBytes b ++ wordBytes c ++ rest)
  have h4 := slice_mid (wordBytes a) (wordBytes b) (wordBytes c ++ rest)
  have h8 := slice_mid (wordBytes a ++ wordBytes b) (wordBytes c) rest
  simp only [length_wordBytes, List.length_append, List.length_nil, List.nil_append,
    List.append_assoc] at h0 h4 h8
  simp only [nhdrBytes, List.append_assoc]
  exact ⟨h0, h4, h8⟩

/-- Reading inverts encoding and leaves what follows the record. -/
theorem readNote_encode {n : Note} (h : n.Fits) (rest : Bytes) :
    readNote (n.encode ++ rest) = some (n, rest) := by
  let hdr := nhdrBytes (BitVec.ofNat 32 n.name.length) (BitVec.ofNat 32 n.desc.length) n.type
  have hshape : n.encode ++ rest = hdr ++ (pad4 n.name ++ (pad4 n.desc ++ rest)) := by
    simp [hdr, Note.encode]
  obtain ⟨hsz, hdsz, hty⟩ := slice_nhdr (BitVec.ofNat 32 n.name.length)
    (BitVec.ofNat 32 n.desc.length) n.type (pad4 n.name ++ (pad4 n.desc ++ rest))
  have hnamesz : ofLe (slice (n.encode ++ rest) 0 4) = n.name.length := by
    rw [hshape, hsz, ofLe_wordBytes (by norm_num), toNat_ofNat_of_lt h.name_lt]
  have hdescsz : ofLe (slice (n.encode ++ rest) 4 4) = n.desc.length := by
    rw [hshape, hdsz, ofLe_wordBytes (by norm_num), toNat_ofNat_of_lt h.desc_lt]
  have htype : BitVec.ofNat 32 (ofLe (slice (n.encode ++ rest) 8 4)) = n.type := by
    rw [hshape, hty, ofLe_wordBytes (by norm_num), BitVec.ofNat_toNat, BitVec.setWidth_eq]
  have hname : slice (n.encode ++ rest) 12 n.name.length = n.name := by
    rw [hshape, pad4, List.append_assoc n.name]
    exact slice_mid_of_eq (by simp [hdr]) rfl
  have hdesc : slice (n.encode ++ rest) (12 + alignUp n.name.length 4) n.desc.length = n.desc := by
    rw [hshape, ← List.append_assoc hdr, pad4.eq_def n.desc, List.append_assoc n.desc]
    exact slice_mid_of_eq (by simp [hdr]) rfl
  have hlen := length_encode n
  simp only [readNote, hnamesz, hdescsz, htype, hname, hdesc]
  rw [if_neg (by rw [List.length_append]; omega), List.drop_left' hlen]

@[simp] theorem readNotes_nil : readNotes [] = some [] := by rw [readNotes]

theorem readNotes_of_readNote {bs rest : Bytes} {n : Note} (h : readNote bs = some (n, rest)) :
    readNotes bs = (readNotes rest).map (n :: ·) := by
  cases bs with
  | nil =>
    have := readNote_shorter h
    simp at this
  | cons b bs =>
    rw [readNotes]
    split
    · next hn => rw [hn] at h; cases h
    · next n' rest' hn =>
      rw [hn] at h
      simp only [Option.some.injEq, Prod.mk.injEq] at h
      rw [h.1, h.2]

/-- The reader returns exactly the records that were laid out, and uses up the input. -/
theorem readNotes_encode (notes : List Note) (h : ∀ n ∈ notes, n.Fits) :
    readNotes (notes.flatMap Note.encode) = some notes := by
  induction notes with
  | nil => simp
  | cons n notes ih =>
    have hn := readNote_encode (h n List.mem_cons_self) (notes.flatMap Note.encode)
    rw [List.flatMap_cons, readNotes_of_readNote hn,
      ih (fun m hm => h m (List.mem_cons_of_mem n hm))]
    rfl

theorem readNotes_head {bs : Bytes} {n : Note} {notes : List Note}
    (h : readNotes bs = some (n :: notes)) :
    n.name = slice bs 12 (ofLe (slice bs 0 4)) := by
  cases bs with
  | nil => simp at h
  | cons b bs =>
    rw [readNotes] at h
    split at h
    · cases h
    · next n' rest hn =>
      obtain ⟨tail, -, htail⟩ := Option.map_eq_some_iff.mp h
      obtain ⟨rfl, -⟩ := List.cons.inj htail
      simp only [readNote] at hn
      split_ifs at hn
      simp only [Option.some.injEq, Prod.mk.injEq] at hn
      rw [← hn.1]

end Opencore.Elf
