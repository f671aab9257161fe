import Opencore.Machine.Fields
import Opencore.Dumper.KnownBits
import Opencore.Jni.Strings

/-! `toString` of `Coredump.java`: what can be read back from the text, and that nothing else has
an influence on a dump. -/
namespace Opencore.Sdk
open Machine Elf Jni

variable {a : Arch}

def chars (text : Bytes) : Utf16 := text.map UInt8.toUInt16

/-- The name of a bit; the flag is `need_seq`. -/
def appendName (mask : BitVec 32) (st : Bytes × Bool) (label : BitVec 32 × Bytes) : Bytes × Bool :=
  if has mask label.1 then ((if st.2 then st.1 ++ ascii "|" else st.1) ++ label.2, true) else st

/-- `coreFlagToString` and `coreFilterToString`, which differ in the names. -/
def maskToString (noBit : Bytes) (labels : List (BitVec 32 × Bytes)) (mask : BitVec 32) : Bytes :=
  if mask = 0 then noBit else (labels.foldl (appendName mask) ([], false)).1

def flagLabels : List (BitVec 32 × Bytes) :=
  [(FLAG_CORE, ascii "FLAG_CORE"), (FLAG_PROCESS_COMM, ascii "FLAG_PROCESS_COMM"),
    (FLAG_PID, ascii "FLAG_PID"), (FLAG_THREAD_COMM, ascii "FLAG_THREAD_COMM"),
    (FLAG_TID, ascii "FLAG_TID"), (FLAG_TIMESTAMP, ascii "FLAG_TIMESTAMP")]

/-- `FILTER_NON_READ_VMA` is written as `FLAG_TID`, which is the name of a flag. -/
def filterLabels : List (BitVec 32 × Bytes) :=
  [(FILTER_SPECIAL_VMA, ascii "FILTER_SPECIAL_VMA"), (FILTER_FILE_VMA, ascii "FILTER_FILE_VMA"),
    (FILTER_SHARED_VMA, ascii "FILTER_SHARED_VMA"),
    (FILTER_SANITIZER_SHADOW_VMA, ascii "FILTER_SANITIZER_SHADOW_VMA"),
    (FILTER_NON_READ_VMA, ascii "FLAG_TID"),
    (FILTER_SIGNAL_CONTEXT, ascii "FILTER_SIGNAL_CONTEXT"),
    (FILTER_MINIDUMP, ascii "FILTER_MINIDUMP"),
    (FILTER_JAVAHEAP_VMA, ascii "FILTER_JAVAHEAP_VMA"),
    (FILTER_JIT_CACHE_VMA, ascii "FILTER_JIT_CACHE_VMA")]

def coreFlagToString (flag : BitVec 32) : Bytes := maskToString (ascii "FLAG_NONE") flagLabels flag

def coreFilterToString (filter : BitVec 32) : Bytes :=
  maskToString (ascii "FILTER_NONE") filterLabels filter

def boolean (b : Bool) : Bytes := if b then ascii "true" else ascii "false"

/-- `toString`, with the results of `isReady`, of the natives and of
`mJavaCrashHandler.isEnabled()`; `none` when the directory is not modified UTF-8. -/
def toString (isReady : Bool) (nativeVersion : Utf16) (isEnabled nativeIsEnabled : Bool)
    (d : Dumper a) : Option Utf16 :=
  if isReady then
    (nativeGetDir d).map fun nativeGetDir =>
      chars (ascii "Coredump[") ++ nativeVersion ++
        chars (ascii ",") ++ nativeGetDir ++
        chars (ascii ",") ++ chars (coreFlagToString d.flag) ++
        chars (ascii ",") ++ chars (coreFilterToString d.filter) ++
        chars (ascii ",") ++ chars (boolean isEnabled) ++
        chars (ascii ",") ++ chars (boolean nativeIsEnabled) ++
        chars (ascii ",") ++ chars (decimal d.timeout) ++
        chars (ascii "]")
  else
    some (chars (ascii "Coredump[") ++ chars (ascii "NOT READY!!]"))

section Names

def names (labels : List (BitVec 32 × Bytes)) (mask : BitVec 32) : List Bytes :=
  (labels.filter fun label => has mask label.1).map Prod.snd

/-- Names that can be told apart in a text. -/
structure Labels (noBit : Bytes) (labels : List (BitVec 32 × Bytes)) : Prop where
  nodup : (labels.map Prod.snd).Nodup
  noBar : ∀ name ∈ noBit :: labels.map Prod.snd, 124 ∉ name ∧ name ≠ []
  noComma : ∀ name ∈ noBit :: labels.map Prod.snd, 44 ∉ name
  fresh : noBit ∉ labels.map Prod.snd

theorem flag_labels : Labels (ascii "FLAG_NONE") flagLabels := by
  constructor <;> decide

theorem filter_labels : Labels (ascii "FILTER_NONE") filterLabels := by
  constructor <;> decide

variable {noBit : Bytes} {labels : List (BitVec 32 × Bytes)}

theorem appendName_joined (mask : BitVec 32) (label : BitVec 32 × Bytes) (done : List Bytes) :
    appendName mask ([124].intercalate done, !done.isEmpty) label =
      ([124].intercalate (done ++ names [label] mask), !(done ++ names [label] mask).isEmpty) := by
  cases hbit : has mask label.1 with
  | false => simp [appendName, names, hbit]
  | true =>
    cases done with
    | nil => simp [appendName, names, hbit]
    | cons name done =>
      have hjoin := intercalate_concat [124] label.2 (List.cons_ne_nil name done)
      have hbar : ascii "|" = [124] := by decide
      rw [List.cons_append] at hjoin
      simp only [appendName, names, hbit, hbar, List.filter_cons, List.filter_nil, if_true,
        List.map_cons, List.map_nil, hjoin, List.isEmpty_cons, Bool.not_false, List.cons_append]

theorem foldl_appendName (mask : BitVec 32) (labels : List (BitVec 32 × Bytes))
    (done : List Bytes) :
    labels.foldl (appendName mask) ([124].intercalate done, !done.isEmpty) =
      ([124].intercalate (done ++ names labels mask), !(done ++ names labels mask).isEmpty) := by
  induction labels generalizing done with
  | nil => rw [names, List.filter_nil, List.map_nil, List.append_nil, List.foldl_nil]
  | cons label labels ih =>
    have hsplit : names (label :: labels) mask = names [label] mask ++ names labels mask := by
      rw [names, names, names, ← List.map_append, ← List.filter_append, List.singleton_append]
    rw [List.foldl_cons, appendName_joined, ih, hsplit, List.append_assoc]

theorem maskToString_eq (noBit : Bytes) (labels : List (BitVec 32 × Bytes)) (mask : BitVec 32) :
    maskToString noBit labels mask =
      if mask = 0 then noBit else [124].intercalate (names labels mask) := by
  have hfold : labels.foldl (appendName mask) ([], false) =
      ([124].intercalate (names labels mask), !(names labels mask).isEmpty) :=
    foldl_appendName mask labels []
  rw [maskToString, hfold]

theorem mem_names {mask : BitVec 32} {name : Bytes} (h : name ∈ names labels mask) :
    name ∈ labels.map Prod.snd := by
  obtain ⟨label, hlabel, rfl⟩ := List.mem_map.mp h
  exact List.mem_map_of_mem (List.mem_of_mem_filter hlabel)

/-- The text names the bits, and tells zero from a mask without a known bit. -/
theorem Labels.maskToString_inj (h : Labels noBit labels) (mask mask' : BitVec 32) :
    maskToString noBit labels mask = maskToString noBit labels mask' ↔
      (mask = 0 ↔ mask' = 0) ∧ SameBits (labels.map Prod.fst) mask mask' := by
  have hnames (mask : BitVec 32) : ∀ name ∈ names labels mask, 124 ∉ name ∧ name ≠ [] :=
    fun name hname => h.noBar name (List.mem_cons_of_mem _ (mem_names hname))
  -- what is written for zero is no list of names
  have hzero (mask : BitVec 32) : noBit ≠ [124].intercalate (names labels mask) := by
    intro heq
    have hsingle : [124].intercalate [noBit] = noBit := List.intercalate_singleton
    rw [← hsingle] at heq
    have hone := intercalate_inj (by simpa using h.noBar noBit List.mem_cons_self) (hnames mask) heq
    exact h.fresh (mem_names (hone ▸ List.mem_singleton_self noBit))
  rw [maskToString_eq, maskToString_eq]
  constructor
  · intro heq
    by_cases hmask : mask = 0
    · by_cases hmask' : mask' = 0
      · subst hmask hmask'
        exact ⟨Iff.rfl, fun _ _ => rfl⟩
      · rw [if_pos hmask, if_neg hmask'] at heq
        exact absurd heq (hzero mask')
    · by_cases hmask' : mask' = 0
      · rw [if_neg hmask, if_pos hmask'] at heq
        exact absurd heq.symm (hzero mask)
      · rw [if_neg hmask, if_neg hmask'] at heq
        refine ⟨iff_of_false hmask hmask', ?_⟩
        intro bit hbit
        obtain ⟨label, hlabel, rfl⟩ := List.mem_map.mp hbit
        exact filter_map_inj h.nodup (intercalate_inj (hnames mask) (hnames mask') heq) label hlabel
  · rintro ⟨hsame, hbits⟩
    have hlist : names labels mask = names labels mask' := by
      rw [names, names]
      congr 1
      exact List.filter_congr fun label hlabel => hbits label.1 (List.mem_map_of_mem hlabel)
    by_cases hmask : mask = 0
    · rw [if_pos hmask, if_pos (hsame.mp hmask)]
    · rw [if_neg hmask, if_neg (fun hmask' => hmask (hsame.mpr hmask')), hlist]

theorem Labels.noComma_maskToString (h : Labels noBit labels) (mask : BitVec 32) :
    44 ∉ maskToString noBit labels mask := by
  rw [maskToString_eq]
  split_ifs
  · exact h.noComma noBit List.mem_cons_self
  · rw [mem_intercalate (by decide)]
    rintro ⟨name, hname, hcomma⟩
    exact h.noComma name (List.mem_cons_of_mem _ (mem_names hname)) hcomma

end Names

section Fields

theorem notMem_decimal {b : UInt8} (hb : b.toNat < 45) {w : ℕ} (x : BitVec w) : b ∉ decimal x := by
  intro hmem
  rw [decimal, List.mem_append] at hmem
  rcases hmem with hsign | hdigits
  · split_ifs at hsign
    · have hminus : ascii "-" = [45] := by decide
      rw [hminus, List.mem_singleton] at hsign
      subst hsign
      exact absurd hb (by decide)
    · cases hsign
  · have hrange := isDigit_range (isDigit_render (by norm_num) (by norm_num) _ hdigits)
    omega

theorem decimal_inj {w : ℕ} {x y : BitVec w} (h : decimal x = decimal y) : x = y := by
  have hminus : ascii "-" = [45] := by decide
  have hdigits (n : ℕ) : 45 ∉ render 10 1 n := fun hmem =>
    absurd (isDigit_render (by norm_num) (by norm_num) _ hmem) (by decide)
  have hvalue (n : ℕ) : digitsValue 10 (render 10 1 n) = n :=
    digitsValue_render (by norm_num) (by norm_num)
  have habs (h : render 10 1 x.toInt.natAbs = render 10 1 y.toInt.natAbs) :
      x.toInt.natAbs = y.toInt.natAbs := by
    rw [← hvalue x.toInt.natAbs, h, hvalue]
  apply BitVec.eq_of_toInt_eq
  rw [decimal, decimal, hminus] at h
  split_ifs at h with hx hy hy
  · have heq := habs (List.append_cancel_left h)
    omega
  · exact absurd (h ▸ List.mem_append_left _ (List.mem_singleton_self _)) (hdigits _)
  · exact absurd (h ▸ List.mem_append_left _ (List.mem_singleton_self _)) (hdigits _)
  · have heq := habs h
    omega

def statusFields (isEnabled nativeIsEnabled : Bool) (d : Dumper a) : List Bytes :=
  [coreFlagToString d.flag, coreFilterToString d.filter, boolean isEnabled,
    boolean nativeIsEnabled, decimal d.timeout ++ ascii "]"]

theorem chars_inj {text text' : Bytes} (h : chars text = chars text') : text = text' :=
  List.map_injective_iff.mpr (fun _ _ => UInt8.toUInt16_inj.mp) h

theorem notMem_chars {text : Bytes} (h : 44 ∉ text) : 44 ∉ chars text := by
  intro hmem
  obtain ⟨b, hb, heq⟩ := List.mem_map.mp hmem
  have hcomma : b = 44 := UInt8.toUInt16_inj.mp heq
  exact h (hcomma ▸ hb)

theorem notMem_statusFields (isEnabled nativeIsEnabled : Bool) (d : Dumper a) :
    ∀ field ∈ (statusFields isEnabled nativeIsEnabled d).map chars, 44 ∉ field := by
  have hboolean (b : Bool) : 44 ∉ boolean b := by
    cases b <;> decide
  have hlast : 44 ∉ decimal d.timeout ++ ascii "]" := by
    rw [List.mem_append, not_or]
    exact ⟨notMem_decimal (by decide) _, by decide⟩
  intro field hfield
  obtain ⟨text, htext, rfl⟩ := List.mem_map.mp hfield
  apply notMem_chars
  simp only [statusFields, List.mem_cons, List.not_mem_nil, or_false] at htext
  rcases htext with rfl | rfl | rfl | rfl | rfl
  · exact flag_labels.noComma_maskToString _
  · exact filter_labels.noComma_maskToString _
  · exact hboolean isEnabled
  · exact hboolean nativeIsEnabled
  · exact hlast

theorem toString_eq (nativeVersion : Utf16) (isEnabled nativeIsEnabled : Bool) {d : Dumper a}
    {dir : Utf16} (hdir : nativeGetDir d = some dir) :
    toString true nativeVersion isEnabled nativeIsEnabled d =
      some (chars (ascii "Coredump[") ++ nativeVersion ++ chars (ascii ",") ++ dir ++
        44 :: [44].intercalate ((statusFields isEnabled nativeIsEnabled d).map chars)) := by
  have hcomma : chars (ascii ",") = [44] := by decide
  rw [toString, if_pos rfl, hdir, Option.map_some]
  simp only [statusFields, List.map_cons, List.map_nil, List.intercalate_cons_cons,
    List.intercalate_singleton, hcomma, List.append_assoc, List.cons_append,
    List.nil_append]
  simp only [chars, List.map_append]

theorem toString_ready_ne (nativeVersion : Utf16) (isEnabled nativeIsEnabled isEnabled'
    nativeIsEnabled' : Bool) (d d' : Dumper a) {dir : Utf16} (hdir : nativeGetDir d = some dir) :
    toString true nativeVersion isEnabled nativeIsEnabled d ≠
      toString false nativeVersion isEnabled' nativeIsEnabled' d' := by
  rw [toString_eq nativeVersion isEnabled nativeIsEnabled hdir, toString, if_neg Bool.false_ne_true]
  intro h
  have hcomma : (44 : UInt16) ∈ chars (ascii "Coredump[") ++ chars (ascii "NOT READY!!]") :=
    Option.some.inj h ▸ List.mem_append_right _ List.mem_cons_self
  exact absurd hcomma (by decide)

theorem boolean_inj {b b' : Bool} (h : boolean b = boolean b') : b = b' := by
  revert b b'
  decide

theorem toString_inj {nativeVersion : Utf16} {isEnabled nativeIsEnabled isEnabled'
    nativeIsEnabled' : Bool} {d d' : Dumper a} {dir dir' : Utf16}
    (hdir : nativeGetDir d = some dir) (hdir' : nativeGetDir d' = some dir') :
    toString true nativeVersion isEnabled nativeIsEnabled d =
        toString true nativeVersion isEnabled' nativeIsEnabled' d' ↔
      dir = dir' ∧ coreFlagToString d.flag = coreFlagToString d'.flag ∧
        coreFilterToString d.filter = coreFilterToString d'.filter ∧ isEnabled = isEnabled' ∧
        nativeIsEnabled = nativeIsEnabled' ∧ d.timeout = d'.timeout := by
  rw [toString_eq nativeVersion isEnabled nativeIsEnabled hdir,
    toString_eq nativeVersion isEnabled' nativeIsEnabled' hdir']
  constructor
  · intro h
    obtain ⟨hfront, hfields⟩ := append_intercalate_inj
      (notMem_statusFields isEnabled nativeIsEnabled d)
      (notMem_statusFields isEnabled' nativeIsEnabled' d') (List.cons_ne_nil _ _) rfl
      (Option.some.inj h)
    have htexts := List.map_injective_iff.mpr (fun _ _ => chars_inj) hfields
    simp only [statusFields, List.cons.injEq, and_true] at htexts
    obtain ⟨hflag, hfilter, hjava, hnative, htimeout⟩ := htexts
    exact ⟨List.append_cancel_left hfront, hflag, hfilter, boolean_inj hjava,
      boolean_inj hnative, decimal_inj (List.append_cancel_right htimeout)⟩
  · rintro ⟨rfl, hflag, hfilter, rfl, rfl, htimeout⟩
    rw [statusFields, statusFields, hflag, hfilter, htimeout]

/-- Only a text with settings tells about them. -/
theorem toString_iff {nativeVersion : Utf16} {isEnabled nativeIsEnabled isEnabled'
    nativeIsEnabled' : Bool} (isReady isReady' : Bool) {d d' : Dumper a} {dir dir' : Utf16}
    (hdir : nativeGetDir d = some dir) (hdir' : nativeGetDir d' = some dir') {p : Prop}
    (h : toString true nativeVersion isEnabled nativeIsEnabled d =
      toString true nativeVersion isEnabled' nativeIsEnabled' d' ↔ p) :
    toString isReady nativeVersion isEnabled nativeIsEnabled d =
        toString isReady' nativeVersion isEnabled' nativeIsEnabled' d' ↔
      isReady = isReady' ∧ (isReady = true → p) := by
  cases isReady with
  | true =>
    cases isReady' with
    | true => exact h.trans ⟨fun hp => ⟨rfl, fun _ => hp⟩, fun hp => hp.2 rfl⟩
    | false => exact iff_of_false (toString_ready_ne _ _ _ _ _ _ _ hdir) (by simp)
  | false =>
    cases isReady' with
    | true => exact iff_of_false (toString_ready_ne _ _ _ _ _ _ _ hdir').symm (by simp)
    | false =>
      refine iff_of_true ?_ ⟨rfl, nofun⟩
      simp only [toString, Bool.false_eq_true, if_false]

end Fields

section Dump

/-- The dumper may differ in what the calls of the application set. -/
def Rest (first d : Dumper a) : Prop :=
  ∃ dir flag timeout filter pid tid siginfo ucontext_raw, d = { first with
    dir := dir, flag := flag, timeout := timeout, filter := filter, pid := pid, tid := tid
    siginfo := siginfo, ucontext_raw := ucontext_raw }

theorem rest_call {first d : Dumper a} (h : Rest first d) (call : Call a) :
    Rest first (call.run d) := by
  obtain ⟨dir, flag, timeout, filter, pid, tid, siginfo, context, rfl⟩ := h
  cases call with
  | SetDir dir' => exact ⟨dir', flag, timeout, filter, pid, tid, siginfo, context, rfl⟩
  | SetFlag flag' => exact ⟨dir, flag', timeout, filter, pid, tid, siginfo, context, rfl⟩
  | SetTimeout sec =>
    rw [Call.run]
    split_ifs
    · exact ⟨dir, flag, sec, filter, pid, tid, siginfo, context, rfl⟩
    · exact ⟨dir, flag, timeout, filter, pid, tid, siginfo, context, rfl⟩
  | SetFilter filter' => exact ⟨dir, flag, timeout, filter', pid, tid, siginfo, context, rfl⟩
  | Dump option =>
    cases option with
    | none => exact ⟨dir, flag, timeout, filter, pid, tid, siginfo, context, rfl⟩
    | some option =>
      rw [Call.run]
      split_ifs
      · exact ⟨dir, flag, timeout, filter, pid, tid, siginfo, context, rfl⟩
      · rw [applyOption_eq]
        exact ⟨dir, flag, timeout, filter, option.pid, option.tid, option.siginfo, _, rfl⟩

theorem rest_runCalls {first d : Dumper a} (h : Rest first d) (calls : List (Call a)) :
    Rest first (runCalls d calls) := by
  induction calls generalizing d with
  | nil => exact h
  | cons call calls ih => exact ih (rest_call h call)

/-- A dump overwrites what else the calls have set, a context that is left over apart. -/
theorem applyOption_of_rest {first d d' : Dumper a} (h : Rest first d) (h' : Rest first d')
    (hdir : d.dir = d'.dir) (htimeout : d.timeout = d'.timeout)
    (hfilter : SameBits filterBits d.filter d'.filter)
    (hcontext : has d.filter FILTER_SIGNAL_CONTEXT = true ∨ d.ucontext_raw = d'.ucontext_raw)
    (option : DumpOption a) :
    d'.applyOption option = (d.applyOption option).masked d'.flag d'.filter := by
  have hbit : has d.filter FILTER_SIGNAL_CONTEXT = has d'.filter FILTER_SIGNAL_CONTEXT :=
    hfilter _ (by decide)
  have hctx : (if has d.filter FILTER_SIGNAL_CONTEXT then option.context else d.ucontext_raw) =
      if has d'.filter FILTER_SIGNAL_CONTEXT then option.context else d'.ucontext_raw := by
    rw [← hbit]
    rcases hcontext with hset | hsame
    · rw [if_pos hset, if_pos hset]
    · rw [hsame]
  rw [applyOption_eq, applyOption_eq, hctx]
  obtain ⟨dir, flag, timeout, filter, pid, tid, siginfo, context, rfl⟩ := h
  obtain ⟨dir', flag', timeout', filter', pid', tid', siginfo', context', rfl⟩ := h'
  obtain rfl : dir = dir' := hdir
  obtain rfl : timeout = timeout' := htimeout
  rfl

theorem dumpPath_congr {d d' : Dumper a} (hdir : d.dir = d'.dir)
    (hflag : SameBits flagBits d.flag d'.flag) (option : DumpOption a) (src : NameSources a.cls) :
    dumpPath d option src = dumpPath d' option src := by
  cases hname : option.filename with
  | some filename => rw [dumpPath_named d hname, dumpPath_named d' hname, hdir]
  | none => rw [dumpPath_eq d hname, dumpPath_eq d' hname, hdir, nameOf_congr hflag]

/-- Where two histories of a process have the same text, neither is ready, or the settings that it
shows are the same, and so are the path and the bytes of every later dump, unless a context is left
over from a dump under another filter. -/
theorem status_decides (nativeVersion : Utf16) (pid : BitVec 32) (pageSize : ℕ)
    (entries entries' : List (Entry a))
    (isReady isEnabled nativeIsEnabled isReady' isEnabled' nativeIsEnabled' : Bool) :
    let d := runEntries pid (Dumper.new a pageSize) entries
    let d' := runEntries pid (Dumper.new a pageSize) entries'
    (toString isReady nativeVersion isEnabled nativeIsEnabled d =
        toString isReady' nativeVersion isEnabled' nativeIsEnabled' d' ↔
      isReady = isReady' ∧ (isReady = true →
        dirAfter [] entries = dirAfter [] entries' ∧
          ((d.flag = 0 ↔ d'.flag = 0) ∧ SameBits flagBits d.flag d'.flag) ∧
          ((d.filter = 0 ↔ d'.filter = 0) ∧ SameBits filterBits d.filter d'.filter) ∧
          isEnabled = isEnabled' ∧ nativeIsEnabled = nativeIsEnabled' ∧
          d.timeout = d'.timeout)) ∧
    (isReady = true →
      toString isReady nativeVersion isEnabled nativeIsEnabled d =
        toString isReady' nativeVersion isEnabled' nativeIsEnabled' d' →
      has d.filter FILTER_SIGNAL_CONTEXT = true ∨ d.ucontext_raw = d'.ucontext_raw →
      ∀ option, (∀ src, dumpPath d option src = dumpPath d' option src) ∧
        ∀ view plan, (doCoredump (d.applyOption option) view plan).map Prod.snd =
          (doCoredump (d'.applyOption option) view plan).map Prod.snd) := by
  intro d d'
  have hdir : d.dir = getStringUTFChars (dirAfter [] entries) := dir_runEntries pid rfl entries
  have hdir' : d'.dir = getStringUTFChars (dirAfter [] entries') := dir_runEntries pid rfl entries'
  have hnative : nativeGetDir d = some (dirAfter [] entries) := by
    rw [nativeGetDir, hdir, newStringUTF_getStringUTFChars]
  have hnative' : nativeGetDir d' = some (dirAfter [] entries') := by
    rw [nativeGetDir, hdir', newStringUTF_getStringUTFChars]
  have hready : toString true nativeVersion isEnabled nativeIsEnabled d =
      toString true nativeVersion isEnabled' nativeIsEnabled' d' ↔ _ :=
    toString_inj hnative hnative'
  rw [coreFlagToString, coreFlagToString, flag_labels.maskToString_inj, coreFilterToString,
    coreFilterToString, filter_labels.maskToString_inj] at hready
  have htext := toString_iff isReady isReady' hnative hnative' hready
  refine ⟨htext, ?_⟩
  intro hon hsame hcontext option
  obtain ⟨heq, ⟨-, hflag⟩, ⟨-, hfilter⟩, -, -, htimeout⟩ := (htext.mp hsame).2 hon
  have hdirs : d.dir = d'.dir := by
    rw [hdir, hdir', heq]
  refine ⟨fun src => dumpPath_congr hdirs hflag option src, fun view plan => ?_⟩
  have hfirst : Rest (Dumper.new a pageSize) (Dumper.new a pageSize) :=
    ⟨_, _, _, _, _, _, _, _, rfl⟩
  have hmasked : d'.applyOption option = (d.applyOption option).masked d'.flag d'.filter :=
    applyOption_of_rest (rest_runCalls hfirst _) (rest_runCalls hfirst _) hdirs htimeout hfilter
      hcontext option
  have hkept : (d.applyOption option).filter = d.filter := by
    rw [applyOption_eq]
  have hbits : SameBits filterBits (d.applyOption option).filter d'.filter := hkept ▸ hfilter
  rw [hmasked, doCoredump_masked hbits, Option.map_map]
  rfl

/-- Bits that no name belongs to. -/
theorem status_decides_unknown :
    let d := runEntries 7 (Dumper.new .arm64 4096) [.nativeSetFlag 5, .nativeSetFilter 3]
    let d' := runEntries 7 (Dumper.new .arm64 4096) [.nativeSetFlag 0x105, .nativeSetFilter 0x8003]
    ∀ option, (∀ src, dumpPath d option src = dumpPath d' option src) ∧
      ∀ view plan, (doCoredump (d.applyOption option) view plan).map Prod.snd =
        (doCoredump (d'.applyOption option) view plan).map Prod.snd := by
  obtain ⟨htext, hdump⟩ := status_decides (a := .arm64) [] 7 4096
    [.nativeSetFlag 5, .nativeSetFilter 3] [.nativeSetFlag 0x105, .nativeSetFilter 0x8003]
    true false false true false false
  have hflag : SameBits flagBits 5 0x105 := by decide
  have hfilter : SameBits filterBits 3 0x8003 := by decide
  exact hdump rfl (htext.mpr ⟨rfl, fun _ => ⟨rfl, ⟨iff_of_false (by decide) (by decide), hflag⟩,
    ⟨iff_of_false (by decide) (by decide), hfilter⟩, rfl, rfl, rfl⟩⟩) (Or.inr rfl)

end Dump

end Opencore.Sdk
