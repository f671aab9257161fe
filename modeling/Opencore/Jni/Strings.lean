import Opencore.Machine.ModifiedUtf8
import Opencore.Control.CorePath

/-! The natives that set the dumper up and ask for dumps, and the path that `docallback` makes a
Java string of. -/
namespace Opencore.Jni
open Machine Elf

variable {a : Arch}

/-- `NewStringUTF` reads up to the NUL; `none` is a C string that is not modified UTF-8. -/
def newStringUTF (chars : Bytes) : Option Utf16 := decodeUtf (chars.takeWhile (· ≠ 0))

def getStringUTFChars (s : Utf16) : Bytes := encodeUtf s

/-- What reaches the dumper from outside: the natives, and the handler of a signal. A null
`jstring` is `none`. -/
inductive Entry (a : Arch)
  | nativeSetDir (dir : Option Utf16)
  | nativeSetFlag (flag : BitVec 32)
  | nativeSetTimeout (sec : BitVec 32)
  | nativeSetFilter (filter : BitVec 32)
  | nativeCoredump (tid : BitVec 32) (filename : Option Utf16)
  | HandleSignal (tid : BitVec 32) (siginfo : Option (Ref a.cls.bits SigInfo))
      (context : Option (Ref a.cls.bits a.MContext))

def Entry.option (pid : BitVec 32) : Entry a → Option (DumpOption a)
  | nativeCoredump tid filename =>
    some { filename := filename.map getStringUTFChars, pid := pid, tid := tid }
  | HandleSignal tid siginfo context =>
    some { pid := pid, tid := tid, siginfo := siginfo, context := context }
  | _ => none

/-- The call of the library, if there is one. -/
def Entry.call (pid : BitVec 32) : Entry a → Option (Call a)
  | nativeSetDir none => none
  | nativeSetDir (some dir) => some (.SetDir (getStringUTFChars dir))
  | nativeSetFlag flag => some (.SetFlag flag)
  | nativeSetTimeout sec => some (.SetTimeout sec)
  | nativeSetFilter filter => some (.SetFilter filter)
  | entry => some (.Dump (entry.option pid))

def runEntries (pid : BitVec 32) (d : Dumper a) (entries : List (Entry a)) : Dumper a :=
  runCalls d (entries.filterMap (Entry.call pid))

def nativeGetDir (d : Dumper a) : Option Utf16 := newStringUTF d.dir

def dirAfter (dir : Utf16) : List (Entry a) → Utf16
  | [] => dir
  | .nativeSetDir (some dir') :: entries => dirAfter dir' entries
  | _ :: entries => dirAfter dir entries

def inDir (dir name : Utf16) : Utf16 := if dir = [] then name else dir ++ 47 :: name

theorem newStringUTF_of_noNul {chars : Bytes} (h : 0 ∉ chars) :
    newStringUTF chars = decodeUtf chars := by
  have hall : chars.takeWhile (· ≠ 0) = chars := by
    rw [List.takeWhile_eq_self_iff]
    intro b hb
    simpa using fun heq : b = 0 => h (heq ▸ hb)
  rw [newStringUTF, hall]

theorem newStringUTF_getStringUTFChars (s : Utf16) :
    newStringUTF (getStringUTFChars s) = some s := by
  rw [getStringUTFChars, newStringUTF_of_noNul (zero_notMem_encodeUtf s), decodeUtf_encodeUtf]

section Dir

theorem dir_call {d : Dumper a} (call : Call a) (h : ∀ dir, call ≠ .SetDir dir) :
    (call.run d).dir = d.dir := by
  cases call with
  | SetDir dir => exact absurd rfl (h dir)
  | SetFlag flag => rfl
  | SetTimeout sec =>
    rw [Call.run]
    split_ifs <;> rfl
  | SetFilter filter => rfl
  | Dump option =>
    cases option with
    | none => rfl
    | some option =>
      rw [Call.run]
      split_ifs
      · rfl
      · rw [applyOption_eq]

/-- The dumper holds the bytes of the directory that was set last. -/
theorem dir_runEntries (pid : BitVec 32) {d : Dumper a} {dir : Utf16}
    (h : d.dir = getStringUTFChars dir) (entries : List (Entry a)) :
    (runEntries pid d entries).dir = getStringUTFChars (dirAfter dir entries) := by
  induction entries generalizing d dir with
  | nil => exact h
  | cons entry entries ih =>
    cases entry with
    | nativeSetDir dir' =>
      cases dir' with
      | none => exact ih h
      | some dir' => exact ih (d := d.setDir (getStringUTFChars dir')) rfl
    | nativeSetFlag flag => exact ih ((dir_call (.SetFlag flag) nofun).trans h)
    | nativeSetTimeout sec => exact ih ((dir_call (.SetTimeout sec) nofun).trans h)
    | nativeSetFilter filter => exact ih ((dir_call (.SetFilter filter) nofun).trans h)
    | nativeCoredump tid filename => exact ih ((dir_call (.Dump _) nofun).trans h)
    | HandleSignal tid siginfo context => exact ih ((dir_call (.Dump _) nofun).trans h)

end Dir

section Path

theorem getStringUTFChars_eq_nil {s : Utf16} (h : getStringUTFChars s = []) : s = [] := by
  have hdecode := newStringUTF_getStringUTFChars s
  rw [h] at hdecode
  exact (Option.some.inj hdecode).symm

theorem decodeUtf_dirPart (dir : Utf16) (name : Bytes) :
    decodeUtf (dirPart (getStringUTFChars dir) ++ name) = (decodeUtf name).map (inDir dir) := by
  by_cases hdir : dir = []
  · subst hdir
    exact Option.map_id'.symm
  · have hne : getStringUTFChars dir ≠ [] := fun h => hdir (getStringUTFChars_eq_nil h)
    have hslash : IsSingle 47 := by decide
    rw [dirPart, if_neg hne, List.append_assoc]
    change decodeUtf (encodeUtf dir ++ 47 :: name) = _
    rw [decodeUtf_split hslash, decodeUtf_encodeUtf, Option.bind_some]
    congr 1
    funext s
    exact (if_neg hdir).symm

theorem dumpPath_named (d : Dumper a) {option : DumpOption a} {filename : Bytes}
    (h : option.filename = some filename) (src : NameSources a.cls) :
    dumpPath d option src = dirPart d.dir ++ filename := by
  simp only [dumpPath, h, applyOption_eq, dirPart]
  cases d.dir with
  | nil => rfl
  | cons b dir => rfl

theorem isSingle_decimal {w : ℕ} (x : BitVec w) : ∀ b ∈ decimal x, IsSingle b := by
  intro b hb
  rw [decimal, List.mem_append] at hb
  rcases hb with hsign | hdigits
  · split_ifs at hsign
    · obtain rfl := List.mem_singleton.mp hsign
      decide
    · cases hsign
  · have hrange := isDigit_range (isDigit_render (by norm_num) (by norm_num) _ hdigits)
    unfold IsSingle
    omega

/-- The process or thread has a name that is modified UTF-8, or none is read. -/
def Readable (read : CommRead) : Prop := ∃ s, decodeUtf read.appended = some s

theorem zero_notMem_appended (read : CommRead) : 0 ∉ read.appended := by
  cases read with
  | closed => exact List.not_mem_nil
  | unreadable => decide
  | bytes comm nonempty short =>
    intro h
    have hzero := List.mem_takeWhile_imp h
    simp at hzero

theorem zero_notMem_dirPart (dir : Utf16) : 0 ∉ dirPart (getStringUTFChars dir) := by
  have hdir := zero_notMem_encodeUtf dir
  rw [dirPart]
  split_ifs
  · exact List.not_mem_nil
  · rw [List.mem_append, not_or]
    exact ⟨hdir, by decide⟩

theorem zero_notMem_nameOf (flag pid tid : BitVec 32) {c : ElfClass} (src : NameSources c) :
    0 ∉ nameOf flag pid tid src := by
  have hdecimal {w : ℕ} (x : BitVec w) : 0 ∉ decimal x := fun h =>
    absurd (isSingle_decimal x 0 h) (by decide)
  have hcore : 0 ∉ if has flag FLAG_CORE = true then ascii "core." else [] := by
    split_ifs <;> decide
  rw [nameOf, List.mem_append, mem_intercalate (by decide), not_or]
  refine ⟨hcore, ?_⟩
  rintro ⟨text, htext, hzero⟩
  simp only [nameFields, List.mem_append, mem_fieldOf] at htext
  rcases htext with (((⟨-, rfl⟩ | ⟨-, rfl⟩) | ⟨-, rfl⟩) | ⟨-, rfl⟩) | ⟨-, rfl⟩
  · exact zero_notMem_appended _ hzero
  · exact hdecimal pid hzero
  · exact zero_notMem_appended _ hzero
  · exact hdecimal tid hzero
  · exact hdecimal src.tv_sec hzero

def coreString (flag : BitVec 32) : Utf16 :=
  if has flag FLAG_CORE then [99, 111, 114, 101, 46] else []

theorem decodeUtf_nameOf (flag pid tid : BitVec 32) {c : ElfClass} (src : NameSources c) :
    decodeUtf (nameOf flag pid tid src) =
      ((nameFields flag pid tid src).mapM decodeUtf).map fun texts =>
        coreString flag ++ [95].intercalate texts := by
  have hjoin := decodeUtf_intercalate (b := 95) (by decide) (nameFields flag pid tid src)
  rw [nameOf, coreString]
  split_ifs
  · have hcore : ascii "core." = [99, 111, 114, 101, 46] := by decide
    have hsingle : ∀ b ∈ ([99, 111, 114, 101, 46] : Bytes), IsSingle b := by simp [IsSingle]
    rw [hcore, decodeUtf_singles hsingle]
    change (decodeUtf ([95].intercalate (nameFields flag pid tid src))).map _ = _
    rw [hjoin, Option.map_map]
    rfl
  · exact hjoin

theorem mapM_isSome {α β : Type*} {f : α → Option β} (xs : List α) :
    (∃ ys, xs.mapM f = some ys) ↔ ∀ x ∈ xs, ∃ y, f x = some y := by
  induction xs with
  | nil => exact iff_of_true ⟨[], rfl⟩ nofun
  | cons x xs ih =>
    rw [List.forall_mem_cons, ← ih, List.mapM_cons]
    cases f x with
    | none => simp
    | some y => cases xs.mapM f <;> simp

/-- The numbers can always be read, so it is a comm that cannot. -/
theorem readable_nameFields {flag : BitVec 32} (pid tid : BitVec 32) {c : ElfClass}
    (src : NameSources c) :
    (∃ texts, (nameFields (effectiveFlag flag) pid tid src).mapM decodeUtf = some texts) ↔
      (has flag FLAG_PROCESS_COMM = true → Readable src.processComm) ∧
        (has flag FLAG_THREAD_COMM = true → Readable src.threadComm) := by
  have hprocess : has (effectiveFlag flag) FLAG_PROCESS_COMM = has flag FLAG_PROCESS_COMM :=
    has_effectiveFlag (by decide)
  have hthread : has (effectiveFlag flag) FLAG_THREAD_COMM = has flag FLAG_THREAD_COMM :=
    has_effectiveFlag (by decide)
  have hdecimal {w : ℕ} (x : BitVec w) : ∃ s, decodeUtf (decimal x) = some s := by
    have hread := decodeUtf_singles (isSingle_decimal x) []
    rw [List.append_nil] at hread
    exact ⟨_, hread⟩
  rw [mapM_isSome]
  simp only [nameFields, List.mem_append, mem_fieldOf, hprocess, hthread]
  constructor
  · intro h
    constructor
    · intro hset
      exact h _ (Or.inl (Or.inl (Or.inl (Or.inl ⟨hset, rfl⟩))))
    · intro hset
      exact h _ (Or.inl (Or.inl (Or.inr ⟨hset, rfl⟩)))
  · rintro ⟨hprocess, hthread⟩ text
      ((((⟨hset, rfl⟩ | ⟨-, rfl⟩) | ⟨hset, rfl⟩) | ⟨-, rfl⟩) | ⟨-, rfl⟩)
    · exact hprocess hset
    · exact hdecimal pid
    · exact hthread hset
    · exact hdecimal tid
    · exact hdecimal src.tv_sec

/-- Whatever was called before, the directory comes back as it was set last, the listener of a
dump that names its file has that name in the directory, and one of a dump without a name has the
generated one, unless a name of the process or the thread that belongs to it is not modified
UTF-8. -/
theorem listener_path (pid : BitVec 32) (pageSize : ℕ) (entries : List (Entry a)) :
    nativeGetDir (runEntries pid (Dumper.new a pageSize) entries) = some (dirAfter [] entries) ∧
      (∀ tid filename src, newStringUTF (dumpPath (runEntries pid (Dumper.new a pageSize) entries)
          { filename := some (getStringUTFChars filename), pid := pid, tid := tid } src) =
        some (inDir (dirAfter [] entries) filename)) ∧
      ∀ (option : DumpOption a) src,
        newStringUTF (dumpPath (runEntries pid (Dumper.new a pageSize) entries)
            { option with filename := none } src) =
          ((nameFields (effectiveFlag (runEntries pid (Dumper.new a pageSize) entries).flag)
            option.pid option.tid src).mapM decodeUtf).map (fun texts =>
              inDir (dirAfter [] entries)
                (coreString (effectiveFlag (runEntries pid (Dumper.new a pageSize) entries).flag) ++
                  [95].intercalate texts)) ∧
        ((∃ path, newStringUTF (dumpPath (runEntries pid (Dumper.new a pageSize) entries)
            { option with filename := none } src) = some path) ↔
          (has (runEntries pid (Dumper.new a pageSize) entries).flag FLAG_PROCESS_COMM = true →
            Readable src.processComm) ∧
          (has (runEntries pid (Dumper.new a pageSize) entries).flag FLAG_THREAD_COMM = true →
            Readable src.threadComm)) := by
  have hdir : (runEntries pid (Dumper.new a pageSize) entries).dir =
      getStringUTFChars (dirAfter [] entries) := dir_runEntries pid rfl entries
  generalize runEntries pid (Dumper.new a pageSize) entries = d at hdir ⊢
  generalize dirAfter [] entries = dir at hdir ⊢
  refine ⟨?_, ?_, ?_⟩
  · rw [nativeGetDir, hdir, newStringUTF_getStringUTFChars]
  · intro tid filename src
    have hzero : 0 ∉ dirPart (getStringUTFChars dir) ++ getStringUTFChars filename := by
      rw [List.mem_append, not_or]
      exact ⟨zero_notMem_dirPart dir, zero_notMem_encodeUtf filename⟩
    rw [dumpPath_named d rfl, hdir, newStringUTF_of_noNul hzero, decodeUtf_dirPart,
      getStringUTFChars, decodeUtf_encodeUtf, Option.map_some]
  · intro option src
    have hpath : newStringUTF (dumpPath d { option with filename := none } src) =
        (decodeUtf (nameOf (effectiveFlag d.flag) option.pid option.tid src)).map (inDir dir) := by
      rw [dumpPath_eq d rfl, hdir, newStringUTF_of_noNul, decodeUtf_dirPart]
      rw [List.mem_append, not_or]
      exact ⟨zero_notMem_dirPart dir, zero_notMem_nameOf _ _ _ _⟩
    rw [hpath, decodeUtf_nameOf, Option.map_map]
    refine ⟨rfl, ?_⟩
    rw [← readable_nameFields option.pid option.tid src]
    simp only [Option.map_eq_some_iff]
    constructor
    · rintro ⟨_, texts, htexts, -⟩
      exact ⟨texts, htexts⟩
    · rintro ⟨texts, htexts⟩
      exact ⟨_, texts, htexts, rfl⟩

/-- Eight letters of two bytes are cut after 15 bytes, in the last of them. -/
example : ¬ Readable (.bytes (getStringUTFChars (List.replicate 8 0xe4) |>.take 15)
    (by decide) (by decide)) := by
  rintro ⟨s, hs⟩
  cases hs

end Path

end Opencore.Jni
