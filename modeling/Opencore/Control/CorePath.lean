import Opencore.Machine.Scanf
import Opencore.Control.Singleton

/-! The path of a core file as `Dump` builds it, field by field, and when its last part is a
plain file name. -/
namespace Opencore
open Machine Elf

variable {a : Arch}

/-- What `Dump` meets when it reads a `comm` file into its buffer of 16 bytes. -/
inductive CommRead
  /-- `open` gives no descriptor above zero. -/
  | closed
  /-- `read` gives no bytes. -/
  | unreadable
  | bytes (comm : Bytes) (nonempty : comm ≠ []) (short : comm.length ≤ 15)

/-- What the comm branches append: the bytes up to a newline, as a C string. -/
def CommRead.appended : CommRead → Bytes
  | .closed => []
  | .unreadable => ascii "unknown"
  | .bytes comm _ _ => comm.takeWhile fun b => b ≠ 10 ∧ b ≠ 0

/-- What `Dump` reads from the system for the name. -/
structure NameSources (c : ElfClass) where
  processComm : CommRead
  threadComm : CommRead
  tv_sec : BitVec c.bits

def decimal {w : ℕ} (x : BitVec w) : Bytes :=
  (if x.toInt < 0 then ascii "-" else []) ++ render 10 1 x.toInt.natAbs

/-- The flags that are in effect: without any of the known ones, the default. -/
def effectiveFlag (flag : BitVec 32) : BitVec 32 :=
  if has flag FLAG_ALL then flag else flag ||| FLAG_CORE ||| FLAG_TID

/-- One field of the name; the pair is `output` and `need_split`. -/
def appendField (enabled : Bool) (text : Bytes) (st : Bytes × Bool) : Bytes × Bool :=
  if enabled then ((if st.2 then st.1 ++ ascii "_" else st.1) ++ text, true) else st

/-- The path that `Dump` hands to `Coredump`. -/
def dumpPath (d : Dumper a) (option : DumpOption a) (src : NameSources a.cls) : Bytes :=
  let d := d.applyOption option
  let output := if d.dir.length > 0 then d.dir ++ ascii "/" else []
  match option.filename with
  | some filename => output ++ filename
  | none =>
    let flag := effectiveFlag d.flag
    let output := if has flag FLAG_CORE then output ++ ascii "core." else output
    -- the first field has nothing to be split from
    let st := if has flag FLAG_PROCESS_COMM then (output ++ src.processComm.appended, true)
      else (output, false)
    let st := appendField (has flag FLAG_PID) (decimal d.pid) st
    let st := appendField (has flag FLAG_THREAD_COMM) src.threadComm.appended st
    let st := appendField (has flag FLAG_TID) (decimal d.tid) st
    (appendField (has flag FLAG_TIMESTAMP) (decimal src.tv_sec) st).1

def dirPart (dir : Bytes) : Bytes := if dir = [] then [] else dir ++ ascii "/"

def fieldOf (enabled : Bool) (text : Bytes) : List Bytes := if enabled then [text] else []

theorem fieldOf_eq_nil {enabled : Bool} {text : Bytes} (h : fieldOf enabled text = []) :
    enabled = false := by
  cases enabled with
  | false => rfl
  | true => cases h

theorem mem_fieldOf {enabled : Bool} {text field : Bytes} :
    field ∈ fieldOf enabled text ↔ enabled = true ∧ field = text := by
  cases enabled with
  | false => exact iff_of_false List.not_mem_nil (fun h => Bool.false_ne_true h.1)
  | true => simp [fieldOf]

def nameFields (flag pid tid : BitVec 32) {c : ElfClass} (src : NameSources c) : List Bytes :=
  fieldOf (has flag FLAG_PROCESS_COMM) src.processComm.appended ++
    fieldOf (has flag FLAG_PID) (decimal pid) ++
    fieldOf (has flag FLAG_THREAD_COMM) src.threadComm.appended ++
    fieldOf (has flag FLAG_TID) (decimal tid) ++
    fieldOf (has flag FLAG_TIMESTAMP) (decimal src.tv_sec)

/-- The fields joined by underscores, behind `core.`. -/
def nameOf (flag pid tid : BitVec 32) {c : ElfClass} (src : NameSources c) : Bytes :=
  (if has flag FLAG_CORE then ascii "core." else []) ++
    (ascii "_").intercalate (nameFields flag pid tid src)

/-- A name that is created in the directory it stands behind. -/
structure IsComponent (name : Bytes) : Prop where
  noSlash : 47 ∉ name
  nonempty : name ≠ []
  notDot : name ≠ ascii "."
  notDotDot : name ≠ ascii ".."

section Shape

theorem intercalate_concat {α : Type*} (sep x : List α) {xs : List (List α)} (hne : xs ≠ []) :
    sep.intercalate (xs ++ [x]) = sep.intercalate xs ++ sep ++ x := by
  induction xs with
  | nil => exact absurd rfl hne
  | cons y xs ih =>
    cases xs with
    | nil => rw [List.singleton_append, List.intercalate_cons_cons, List.intercalate_singleton,
        List.intercalate_singleton, List.append_assoc]
    | cons z xs =>
      rw [List.cons_append, List.cons_append, List.intercalate_cons_cons, ← List.cons_append,
        ih (List.cons_ne_nil z xs), List.intercalate_cons_cons]
      simp only [List.append_assoc]

/-- The pair while the fields are appended: the flag tells whether one has been. -/
def joined (base : Bytes) (fields : List Bytes) : Bytes × Bool :=
  (base ++ (ascii "_").intercalate fields, !fields.isEmpty)

theorem appendField_joined (enabled : Bool) (text base : Bytes) (fields : List Bytes) :
    appendField enabled text (joined base fields) =
      joined base (fields ++ fieldOf enabled text) := by
  cases enabled with
  | false =>
    rw [fieldOf, if_neg Bool.false_ne_true, List.append_nil]
    rfl
  | true =>
    cases fields with
    | nil => simp [appendField, fieldOf, joined]
    | cons f fields =>
      have hjoin := intercalate_concat (ascii "_") text (List.cons_ne_nil f fields)
      have hne : (f :: fields ++ [text]).isEmpty = false := rfl
      simp only [appendField, fieldOf, joined, if_true, hjoin, hne, List.isEmpty_cons,
        Bool.not_false, List.append_assoc]

theorem dumpPath_eq (d : Dumper a) {option : DumpOption a} (hname : option.filename = none)
    (src : NameSources a.cls) :
    dumpPath d option src =
      dirPart d.dir ++ nameOf (effectiveFlag d.flag) option.pid option.tid src := by
  have hdir : (if d.dir.length > 0 then d.dir ++ ascii "/" else []) = dirPart d.dir := by
    rw [dirPart]
    cases d.dir with
    | nil => rfl
    | cons b dir => rfl
  have hfirst (output : Bytes) (flag : BitVec 32) :
      (if has flag FLAG_PROCESS_COMM = true then (output ++ src.processComm.appended, true)
        else (output, false)) =
      joined output (fieldOf (has flag FLAG_PROCESS_COMM) src.processComm.appended) := by
    cases has flag FLAG_PROCESS_COMM with
    | false => simp [joined, fieldOf]
    | true => simp [joined, fieldOf]
  have hcore (output : Bytes) (flag : BitVec 32) :
      (if has flag FLAG_CORE = true then output ++ ascii "core." else output) =
        output ++ if has flag FLAG_CORE = true then ascii "core." else [] := by
    cases has flag FLAG_CORE with
    | false => exact (List.append_nil output).symm
    | true => rfl
  simp only [dumpPath, hname, applyOption_eq, hdir, hcore, hfirst, appendField_joined]
  rw [joined, nameOf, nameFields]
  exact List.append_assoc _ _ _

end Shape

section Component

theorem mem_intercalate {α : Type*} {b : α} {sep : List α} (hsep : b ∉ sep) (xs : List (List α)) :
    b ∈ sep.intercalate xs ↔ ∃ x ∈ xs, b ∈ x := by
  induction xs with
  | nil => simp
  | cons y xs ih =>
    cases xs with
    | nil => simp
    | cons z xs =>
      rw [List.intercalate_cons_cons, List.mem_append, List.mem_append, ih]
      simp only [hsep, or_false, List.mem_cons, exists_eq_or_imp]

theorem noSlash_decimal {w : ℕ} (x : BitVec w) : 47 ∉ decimal x := by
  intro hmem
  rw [decimal, List.mem_append] at hmem
  rcases hmem with hsign | hdigits
  · split_ifs at hsign
    · revert hsign
      decide
    · cases hsign
  · have hrange := isDigit_range (isDigit_render (by norm_num) (by norm_num) _ hdigits)
    revert hrange
    decide

theorem has_or_bit (mask b c : BitVec 32) : has mask (b ||| c) = (has mask b || has mask c) := by
  have hor (x y : BitVec 32) : x ||| y = 0 ↔ x = 0 ∧ y = 0 := BitVec.or_eq_zero_iff
  rw [Bool.eq_iff_iff, Bool.or_eq_true]
  simp only [has, bne_iff_ne, BitVec.and_or_distrib_left, ne_eq, hor]
  exact not_and_or

theorem has_or_mask (m n bit : BitVec 32) : has (m ||| n) bit = (has m bit || has n bit) := by
  have hcomm (x : BitVec 32) : has x bit = has bit x := by
    rw [has, has, BitVec.and_comm]
  rw [hcomm, hcomm m, hcomm n, has_or_bit]

theorem effectiveFlag_of_not_has_core {flag : BitVec 32}
    (hcore : has (effectiveFlag flag) FLAG_CORE = false) :
    effectiveFlag flag = flag ∧ has flag FLAG_ALL = true := by
  unfold effectiveFlag at hcore ⊢
  split_ifs at hcore ⊢ with h
  · exact ⟨rfl, h⟩
  · have hself : has FLAG_CORE FLAG_CORE = true := by decide
    rw [has_or_mask, has_or_mask, hself, Bool.or_true, Bool.true_or] at hcore
    cases hcore

theorem nameFields_ne_nil {flag : BitVec 32} (hcore : has (effectiveFlag flag) FLAG_CORE = false)
    (pid tid : BitVec 32) {c : ElfClass} (src : NameSources c) :
    nameFields (effectiveFlag flag) pid tid src ≠ [] := by
  obtain ⟨heff, hall⟩ := effectiveFlag_of_not_has_core hcore
  rw [heff] at hcore ⊢
  intro hnil
  simp only [nameFields, List.append_eq_nil_iff] at hnil
  obtain ⟨⟨⟨⟨hprocess, hpid⟩, hthread⟩, htid⟩, htime⟩ := hnil
  rw [FLAG_ALL, has_or_bit, has_or_bit, has_or_bit, has_or_bit, has_or_bit, hcore,
    fieldOf_eq_nil hprocess, fieldOf_eq_nil hpid, fieldOf_eq_nil hthread, fieldOf_eq_nil htid,
    fieldOf_eq_nil htime] at hall
  cases hall

/-- A name that consists of nothing but one field. -/
def Degenerate (text : Bytes) : Prop := text = [] ∨ text = ascii "." ∨ text = ascii ".."

theorem noSlash_joined (core : Bool) (fields : List Bytes) :
    47 ∉ (if core then ascii "core." else []) ++ (ascii "_").intercalate fields ↔
      ∀ text ∈ fields, 47 ∉ text := by
  have hcore : 47 ∉ if core then ascii "core." else [] := by cases core <;> decide
  rw [List.mem_append, mem_intercalate (by decide)]
  simp only [hcore, false_or, not_exists, not_and]

theorem Degenerate.eq_dot {text : Bytes} (h : Degenerate text) : ∀ b ∈ text, b = 46 := by
  rcases h with rfl | rfl | rfl
  · exact fun b hb => absurd hb List.not_mem_nil
  · exact fun b hb => List.mem_singleton.mp hb
  · exact fun b hb => (List.mem_cons.mp hb).elim id List.mem_singleton.mp

theorem not_degenerate_intercalate {fields : List Bytes} (hne : fields ≠ [])
    (hsingle : ∀ text, fields = [text] → ¬ Degenerate text) :
    ¬ Degenerate ((ascii "_").intercalate fields) := by
  cases fields with
  | nil => exact absurd rfl hne
  | cons text rest =>
    cases rest with
    | nil =>
      rw [List.intercalate_singleton]
      exact hsingle text rfl
    | cons next rest =>
      have hmem : 95 ∈ (ascii "_").intercalate (text :: next :: rest) := by
        rw [List.intercalate_cons_cons]
        exact List.mem_append_left _ (List.mem_append_right _ (by decide))
      intro hdegenerate
      exact absurd (hdegenerate.eq_dot 95 hmem) (by decide)

/-- The fields joined behind `core.` are a file name unless a field has a slash, or is all
there is and names no file. -/
theorem isComponent_joined {core : Bool} {fields : List Bytes} (hne : core = false → fields ≠ []) :
    IsComponent ((if core then ascii "core." else []) ++ (ascii "_").intercalate fields) ↔
      (∀ text ∈ fields, 47 ∉ text) ∧
        (core = false → ∀ text, fields = [text] → ¬ Degenerate text) := by
  have hslash := noSlash_joined core fields
  constructor
  · intro h
    refine ⟨hslash.mp h.noSlash, ?_⟩
    rintro rfl text rfl
    rw [if_neg Bool.false_ne_true, List.nil_append, List.intercalate_singleton] at h
    rintro (hnil | hdot | hdots)
    · exact h.nonempty hnil
    · exact h.notDot hdot
    · exact h.notDotDot hdots
  · rintro ⟨hfields, hsingle⟩
    have hlong : ¬ Degenerate ((if core then ascii "core." else []) ++
        (ascii "_").intercalate fields) := by
      cases core with
      | true =>
        rintro (hnil | hdot | hdots)
        · cases hnil
        · exact absurd (List.cons.inj hdot).1 (by decide)
        · exact absurd (List.cons.inj hdots).1 (by decide)
      | false =>
        rw [if_neg Bool.false_ne_true, List.nil_append]
        exact not_degenerate_intercalate (hne rfl) (hsingle rfl)
    exact ⟨hslash.mpr hfields, fun h => hlong (Or.inl h), fun h => hlong (Or.inr (Or.inl h)),
      fun h => hlong (Or.inr (Or.inr h))⟩

theorem isComponent_nameOf (flag pid tid : BitVec 32) {c : ElfClass} (src : NameSources c) :
    IsComponent (nameOf (effectiveFlag flag) pid tid src) ↔
      (∀ text ∈ nameFields (effectiveFlag flag) pid tid src, 47 ∉ text) ∧
        (has (effectiveFlag flag) FLAG_CORE = false →
          ∀ text, nameFields (effectiveFlag flag) pid tid src = [text] → ¬ Degenerate text) :=
  isComponent_joined fun hcore => nameFields_ne_nil hcore pid tid src

end Component

section Flags

theorem has_of_masked {flag only bit : BitVec 32} (honly : flag &&& FLAG_ALL = only)
    (hbit : FLAG_ALL &&& bit = bit) : has flag bit = has only bit := by
  rw [has, has, ← honly, BitVec.and_assoc, hbit]

theorem masked_of_has {flag rest : BitVec 32} {k : ℕ}
    (hall : FLAG_ALL = rest ||| BitVec.twoPow 32 k)
    (hbit : has flag (BitVec.twoPow 32 k) = true) (hrest : has flag rest = false) :
    flag &&& FLAG_ALL = BitVec.twoPow 32 k := by
  rw [has, BitVec.and_twoPow] at hbit
  rw [has, bne_eq_false_iff_eq] at hrest
  rw [hall, BitVec.and_or_distrib_left, hrest, BitVec.and_twoPow]
  split_ifs at hbit ⊢ with hlsb
  · exact BitVec.zero_or
  · exact absurd hbit (by decide)

theorem fieldOf_append_eq_singleton {enabled : Bool} {field text : Bytes} {rest : List Bytes}
    (h : fieldOf enabled field ++ rest = [text]) :
    enabled = true ∧ text = field ∧ rest = [] ∨ enabled = false ∧ rest = [text] := by
  cases enabled with
  | false => exact Or.inr ⟨rfl, h⟩
  | true =>
    obtain ⟨hfield, hrest⟩ := List.cons.inj h
    exact Or.inl ⟨rfl, hfield.symm, hrest⟩

/-- Where there is one field it is a number, or the one flag that is set is a comm's. -/
theorem nameFields_eq_singleton {flag pid tid : BitVec 32} {c : ElfClass} {src : NameSources c}
    {text : Bytes} (hcore : has flag FLAG_CORE = false)
    (h : nameFields flag pid tid src = [text]) :
    (∃ (w : ℕ) (x : BitVec w), text = decimal x) ∨
      (flag &&& FLAG_ALL = FLAG_PROCESS_COMM ∧ text = src.processComm.appended) ∨
      (flag &&& FLAG_ALL = FLAG_THREAD_COMM ∧ text = src.threadComm.appended) := by
  unfold nameFields at h
  simp only [List.append_assoc] at h
  rcases fieldOf_append_eq_singleton h with ⟨hset, htext, hrest⟩ | ⟨hprocess, h⟩
  · -- the process comm alone
    simp only [List.append_eq_nil_iff] at hrest
    obtain ⟨hpid, hthread, htid, htime⟩ := hrest
    have hoff : has flag (FLAG_CORE ||| FLAG_PID ||| FLAG_THREAD_COMM ||| FLAG_TID |||
        FLAG_TIMESTAMP) = false := by
      simp only [has_or_bit, hcore, fieldOf_eq_nil hpid, fieldOf_eq_nil hthread,
        fieldOf_eq_nil htid, fieldOf_eq_nil htime, Bool.or_false]
    exact Or.inr (Or.inl ⟨masked_of_has (k := 1) (by decide) hset hoff, htext⟩)
  rcases fieldOf_append_eq_singleton h with ⟨-, htext, -⟩ | ⟨hpid, h⟩
  · exact Or.inl ⟨_, _, htext⟩
  rcases fieldOf_append_eq_singleton h with ⟨hset, htext, hrest⟩ | ⟨-, h⟩
  · -- the thread comm alone
    simp only [List.append_eq_nil_iff] at hrest
    obtain ⟨htid, htime⟩ := hrest
    have hoff : has flag (FLAG_CORE ||| FLAG_PROCESS_COMM ||| FLAG_PID ||| FLAG_TID |||
        FLAG_TIMESTAMP) = false := by
      simp only [has_or_bit, hcore, hprocess, hpid, fieldOf_eq_nil htid, fieldOf_eq_nil htime,
        Bool.or_false]
    exact Or.inr (Or.inr ⟨masked_of_has (k := 3) (by decide) hset hoff, htext⟩)
  rcases fieldOf_append_eq_singleton h with ⟨-, htext, -⟩ | ⟨-, h⟩
  · exact Or.inl ⟨_, _, htext⟩
  rw [← List.append_nil (fieldOf _ _)] at h
  rcases fieldOf_append_eq_singleton h with ⟨-, htext, -⟩ | ⟨-, h⟩
  · exact Or.inl ⟨_, _, htext⟩
  · cases h

theorem not_degenerate_decimal {w : ℕ} (x : BitVec w) : ¬ Degenerate (decimal x) := by
  obtain ⟨digit, hmem⟩ := List.exists_mem_of_ne_nil (render 10 1 x.toInt.natAbs)
    (render_ne_nil (by norm_num))
  have hrange := isDigit_range (isDigit_render (by norm_num) (by norm_num) _ hmem)
  intro hdegenerate
  have hdot := hdegenerate.eq_dot digit (List.mem_append_right _ hmem)
  rw [hdot] at hrange
  revert hrange
  decide

end Flags

section Comms

def CommRead.NoSlash : CommRead → Prop
  | .closed => True
  | .unreadable => True
  | .bytes comm _ _ => 47 ∉ comm.takeWhile fun b => b ≠ 10 ∧ b ≠ 0

/-- Nothing is read before a newline, or what names a directory. -/
def CommRead.Nameless : CommRead → Prop
  | .closed => True
  | .unreadable => False
  | .bytes comm _ _ => Degenerate (comm.takeWhile fun b => b ≠ 10 ∧ b ≠ 0)

/-- No enabled comm has a slash, and a comm that is the whole name names a file. -/
structure PlainComms (flag : BitVec 32) {c : ElfClass} (src : NameSources c) : Prop where
  process : has flag FLAG_PROCESS_COMM = true → src.processComm.NoSlash
  thread : has flag FLAG_THREAD_COMM = true → src.threadComm.NoSlash
  processAlone : flag &&& FLAG_ALL = FLAG_PROCESS_COMM → ¬ src.processComm.Nameless
  threadAlone : flag &&& FLAG_ALL = FLAG_THREAD_COMM → ¬ src.threadComm.Nameless

theorem noSlash_appended (read : CommRead) : 47 ∉ read.appended ↔ read.NoSlash := by
  cases read with
  | closed => exact iff_of_true (List.not_mem_nil) trivial
  | unreadable => exact iff_of_true (by decide) trivial
  | bytes comm nonempty short => exact Iff.rfl

theorem degenerate_appended (read : CommRead) : Degenerate read.appended ↔ read.Nameless := by
  cases read with
  | closed => exact iff_of_true (Or.inl rfl) trivial
  | unreadable => exact iff_of_false (by rintro (h | h | h) <;> cases h) id
  | bytes comm nonempty short => exact Iff.rfl

theorem has_effectiveFlag {flag bit : BitVec 32} (hbit : has (FLAG_CORE ||| FLAG_TID) bit = false) :
    has (effectiveFlag flag) bit = has flag bit := by
  unfold effectiveFlag
  split_ifs with h
  · rfl
  · rw [BitVec.or_assoc, has_or_mask, hbit, Bool.or_false]

/-- The numbers have no slash, so it is a comm that brings one. -/
theorem noSlash_nameFields {flag : BitVec 32} (pid tid : BitVec 32) {c : ElfClass}
    (src : NameSources c) :
    (∀ text ∈ nameFields (effectiveFlag flag) pid tid src, 47 ∉ text) ↔
      (has flag FLAG_PROCESS_COMM = true → src.processComm.NoSlash) ∧
        (has flag FLAG_THREAD_COMM = true → src.threadComm.NoSlash) := by
  have hprocess : has (effectiveFlag flag) FLAG_PROCESS_COMM = has flag FLAG_PROCESS_COMM :=
    has_effectiveFlag (by decide)
  have hthread : has (effectiveFlag flag) FLAG_THREAD_COMM = has flag FLAG_THREAD_COMM :=
    has_effectiveFlag (by decide)
  simp only [nameFields, List.mem_append, mem_fieldOf, hprocess, hthread]
  constructor
  · intro h
    constructor
    · intro hset
      exact (noSlash_appended _).mp (h _ (Or.inl (Or.inl (Or.inl (Or.inl ⟨hset, rfl⟩)))))
    · intro hset
      exact (noSlash_appended _).mp (h _ (Or.inl (Or.inl (Or.inr ⟨hset, rfl⟩))))
  · rintro ⟨hprocess, hthread⟩ text
      ((((⟨hset, rfl⟩ | ⟨-, rfl⟩) | ⟨hset, rfl⟩) | ⟨-, rfl⟩) | ⟨-, rfl⟩)
    · exact (noSlash_appended _).mpr (hprocess hset)
    · exact noSlash_decimal pid
    · exact (noSlash_appended _).mpr (hthread hset)
    · exact noSlash_decimal tid
    · exact noSlash_decimal src.tv_sec

theorem nameFields_of_alone (flag pid tid : BitVec 32) {c : ElfClass}
    (src : NameSources c) :
    (flag &&& FLAG_ALL = FLAG_PROCESS_COMM →
        nameFields flag pid tid src = [src.processComm.appended]) ∧
      (flag &&& FLAG_ALL = FLAG_THREAD_COMM →
        nameFields flag pid tid src = [src.threadComm.appended]) := by
  constructor
  · intro h
    rw [nameFields, has_of_masked h (by decide), has_of_masked h (by decide),
      has_of_masked h (by decide), has_of_masked h (by decide), has_of_masked h (by decide)]
    rfl
  · intro h
    rw [nameFields, has_of_masked h (by decide), has_of_masked h (by decide),
      has_of_masked h (by decide), has_of_masked h (by decide), has_of_masked h (by decide)]
    rfl

/-- Without `core.` a name of one field is a file name unless that field is a comm that names
no file. -/
theorem not_degenerate_nameFields {flag : BitVec 32} (pid tid : BitVec 32) {c : ElfClass}
    (src : NameSources c) :
    (has (effectiveFlag flag) FLAG_CORE = false →
        ∀ text, nameFields (effectiveFlag flag) pid tid src = [text] → ¬ Degenerate text) ↔
      (flag &&& FLAG_ALL = FLAG_PROCESS_COMM → ¬ src.processComm.Nameless) ∧
        (flag &&& FLAG_ALL = FLAG_THREAD_COMM → ¬ src.threadComm.Nameless) := by
  obtain ⟨hprocess, hthread⟩ := nameFields_of_alone flag pid tid src
  have hknown {only : BitVec 32} (honly : flag &&& FLAG_ALL = only)
      (hcore : has only FLAG_CORE = false) (hall : has only FLAG_ALL = true) :
      effectiveFlag flag = flag ∧ has flag FLAG_CORE = false := by
    rw [← has_of_masked honly (by decide)] at hcore hall
    exact ⟨if_pos hall, hcore⟩
  constructor
  · intro h
    constructor
    · intro honly
      obtain ⟨heff, hcore⟩ := hknown honly (by decide) (by decide)
      rw [heff] at h
      rw [← degenerate_appended]
      exact h hcore _ (hprocess honly)
    · intro honly
      obtain ⟨heff, hcore⟩ := hknown honly (by decide) (by decide)
      rw [heff] at h
      rw [← degenerate_appended]
      exact h hcore _ (hthread honly)
  · rintro ⟨hprocess, hthread⟩ hcore text hfields
    obtain ⟨heff, -⟩ := effectiveFlag_of_not_has_core hcore
    rw [heff] at hcore hfields
    rcases nameFields_eq_singleton hcore hfields with ⟨w, x, rfl⟩ | ⟨honly, rfl⟩ | ⟨honly, rfl⟩
    · exact not_degenerate_decimal x
    · rw [degenerate_appended]
      exact hprocess honly
    · rw [degenerate_appended]
      exact hthread honly

/-- The path is the directory and, as one file name, the text that the flags ask for. -/
def GeneratedPath (d : Dumper a) (option : DumpOption a) (src : NameSources a.cls) : Prop :=
  ∃ name, dumpPath d option src = dirPart d.dir ++ name ∧
    name = nameOf (effectiveFlag d.flag) option.pid option.tid src ∧ IsComponent name

/-- The generated path names a file in the directory exactly for plain comms. -/
theorem generatedPath_iff (d : Dumper a) {option : DumpOption a} (hname : option.filename = none)
    (src : NameSources a.cls) : GeneratedPath d option src ↔ PlainComms d.flag src := by
  have hcomponent := isComponent_nameOf d.flag option.pid option.tid src
  rw [noSlash_nameFields, not_degenerate_nameFields] at hcomponent
  constructor
  · rintro ⟨name, -, rfl, h⟩
    obtain ⟨⟨hprocess, hthread⟩, hprocessAlone, hthreadAlone⟩ := hcomponent.mp h
    exact ⟨hprocess, hthread, hprocessAlone, hthreadAlone⟩
  · intro h
    exact ⟨_, dumpPath_eq d hname src, rfl,
      hcomponent.mpr ⟨⟨h.process, h.thread⟩, h.processAlone, h.threadAlone⟩⟩

def plainComms (c : ElfClass) : NameSources c where
  processComm := .bytes (ascii "main\n") (by decide) (by decide)
  threadComm := .unreadable
  tv_sec := 1

def urlComms (c : ElfClass) : NameSources c where
  processComm := .unreadable
  threadComm := .bytes (ascii "http://host\n") (by decide) (by decide)
  tv_sec := 1

theorem generatedPath_main :
    GeneratedPath (Dumper.new .arm64 4096) { pid := 7, tid := 7 } (plainComms _) :=
  (generatedPath_iff (Dumper.new .arm64 4096) rfl (plainComms _)).mpr
    { process := fun _ => (noSlash_appended _).mp (by decide)
      thread := fun _ => trivial
      processAlone := fun h => absurd h (by decide)
      threadAlone := fun h => absurd h (by decide) }

/-- The slashes of the thread's name lead out of the directory. -/
theorem not_generatedPath_url :
    ¬ GeneratedPath { Dumper.new .arm64 4096 with flag := FLAG_CORE ||| FLAG_THREAD_COMM }
      { pid := 7, tid := 9 } (urlComms _) := by
  rintro ⟨name, -, rfl, hcomponent⟩
  have hslash := hcomponent.noSlash
  revert hslash
  decide

end Comms

end Opencore
