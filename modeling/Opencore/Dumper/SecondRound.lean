import Opencore.Elf.Reader
import Opencore.Dumper.Layout
import Opencore.Dumper.Rounds

/-! When the second dump by one object writes the file of the first: the counters that go on
show in the size of the notes or in the padding behind them. -/
namespace Opencore
open Machine Elf

variable {a : Arch}

/-- The notes of a state whose counters may exceed what they count. -/
def rawNotes (d : Dumper a) (view : ProcessView a) : Bytes :=
  ((d.prstatus.take (tripCount (BitVec.ofNat 32 d.prstatus.length))).zipIdx.flatMap
    (slotNotes d view)).flatMap Note.encode ++
  (nhdrBytes NOTE_CORE_NAME_SZ (BitVec.ofNat 32 (sizeofAuxv a.cls) * d.auxvnum) NT_AUXV ++
    coreMagic ++ (d.auxv.take (tripCount d.auxvnum)).flatMap Auxv.bytes) ++ fileRecord d

def rawLoads (d : Dumper a) : Option ProcMem → Bytes
  | none => []
  | some mem =>
    loadBytes mem d.align_size (d.phdr.take (tripCount (BitVec.ofNat 32 d.phdr.length)))

theorem writeCoreLoadSegment_eq {fp : FILE} (hfp : fp.Appending) (d : Dumper a)
    (mem : Option ProcMem) :
    writeCoreLoadSegment d mem fp = fp.append (rawLoads d mem) := by
  cases mem with
  | none => exact (FILE.append_nil hfp).symm
  | some mem => exact writeSegments_eq hfp mem _ _

theorem writeCore_bytes {d : Dumper a}
    (hphnum : tripCount (BitVec.ofNat 32 d.phdr.length) = d.phdr.length)
    (view : ProcessView a) {fp : FILE} (hfp : fp.Appending) (hempty : fp.content = []) :
    (writeCore d view fp).2.content = headerBytes d ++ (rawNotes (placed d) view ++
      (zeros (notePadding (placed d)) ++ rawLoads (placed d) view.mem)) := by
  simp only [writeCore, writeHeaders_placed hphnum hfp, writeNotes]
  rw [writeCorePrStatus_eq (hfp.append _), FILE.append_append, writeCoreAUXV_eq (hfp.append _),
    FILE.append_append, writeNtFile_eq (hfp.append _), FILE.append_append,
    alignNoteSegment_eq (hfp.append _), FILE.append_append,
    writeCoreLoadSegment_eq (hfp.append _), FILE.append_append, FILE.content_append, hempty]
  simp only [rawNotes, fileRecord, List.append_assoc, List.nil_append]

/-- The `int` counters hold what two rounds count. -/
structure TwiceFits (view : ProcessView a) : Prop where
  slots : 2 * slotsSize a view.tasks.length < 2 ^ 31
  names : alignUp (2 * namesSize view.maps) 4 < 2 ^ 31
  auxv : 2 * (sizeofAuxv a.cls * view.auxv.length) < 2 ^ 31

/-- What the second round has collected when the first one collected `d`. -/
def secondCount (view : ProcessView a) (d : Dumper a) : Dumper a :=
  countOn view (BitVec.ofNat 32 (slotsSize a view.tasks.length))
    (BitVec.ofNat 32 (namesSize view.maps)) (BitVec.ofNat 32 view.auxv.length) d

theorem length_le_namesSize (maps : List VirtualMemoryArea) : maps.length ≤ namesSize maps := by
  unfold namesSize
  induction maps with
  | nil => exact Nat.zero_le _
  | cons vma maps ih =>
    rw [List.map_cons, List.sum_cons, List.length_cons]
    omega

namespace TwiceFits

variable {view : ProcessView a}

theorem tasks (h : TwiceFits view) : view.tasks.length < 2 ^ 31 := by
  obtain ⟨-, hslots⟩ := slotsSize_spec a view.tasks.length
  have := h.slots
  omega

theorem auxv_length (h : TwiceFits view) : 2 * view.auxv.length < 2 ^ 31 := by
  have hsize : 8 ≤ sizeofAuxv a.cls := by cases a <;> decide
  have hmul := Nat.mul_le_mul_right view.auxv.length hsize
  have := h.auxv
  omega

theorem maps (h : TwiceFits view) : view.maps.length < 2 ^ 31 := by
  have hle := length_le_namesSize view.maps
  have halign := le_alignUp (v := 2 * namesSize view.maps) (n := 4) (by norm_num)
  have := h.names
  omega

theorem counters (h : TwiceFits view) : CountersFit view where
  slots := by
    have := h.slots
    omega
  names := by
    have hle : namesSize view.maps ≤ 2 * namesSize view.maps := by omega
    have halign := dvd_alignUp (2 * namesSize view.maps) 4
    have hpad := le_alignUp (v := 2 * namesSize view.maps) (n := 4) (by norm_num)
    exact (alignUp_le (by norm_num) halign (hle.trans hpad)).trans_lt h.names
  auxv := by
    have := h.auxv_length
    omega

end TwiceFits

section SecondCount

variable {view : ProcessView a} {d : Dumper a}

theorem Collected.secondCount (h : Collected view d) (htwice : TwiceFits view) :
    Counters (secondCount view d) (2 * slotsSize a view.tasks.length) (2 * view.auxv.length)
      (2 * namesSize view.maps) where
  extra_eq := by
    change BitVec.ofNat 32 _ + d.extra_note_filesz = _
    rw [h.extra, ← BitVec.ofNat_add, Nat.two_mul]
  auxvnum_eq := by
    change BitVec.ofNat 32 _ + d.auxvnum = _
    rw [h.auxvnum, ← BitVec.ofNat_add, Nat.two_mul]
  names_eq := by
    change BitVec.ofNat 32 _ + d.fileslen = _
    rw [h.fileslen, ← BitVec.ofNat_add, Nat.two_mul]
  extra_lt := fun _ => htwice.slots
  auxvnum_lt := fun _ => htwice.auxv_length
  names_lt := fun _ => htwice.names

theorem noteFilesz_of_same {d' : Dumper a} {rest rest' : Bytes} (hehdr : d.ehdr = d'.ehdr)
    (h : headerBytes d ++ rest = headerBytes d' ++ rest') : noteFilesz d = noteFilesz d' := by
  simp only [headerBytes, hehdr, List.append_assoc] at h
  have hnotes := List.append_cancel_left h
  have hlen : (placed d).note.bytes.length = (placed d').note.bytes.length := by
    rw [length_phdrBytes, length_phdrBytes]
  exact congrArg Phdr.p_filesz (phdrBytes_injective (List.append_inj_left hnotes hlen))

/-- Equal sizes leave nothing to count but names that the rounding to 4 hides. -/
theorem counted_of_noteFilesz (h : Collected view d) (hz : d.note.p_filesz = 0)
    (htwice : TwiceFits view) (hsize : noteFilesz d = noteFilesz (secondCount view d)) :
    slotsSize a view.tasks.length = 0 ∧ view.auxv.length = 0 ∧ namesSize view.maps ≤ 2 := by
  have hphnum : (secondCount view d).phdr.length = view.maps.length := h.phnum
  have hfirst := (h.counters fun _ => htwice.counters).noteFilesz_eq hz
  have hsecond := (h.secondCount htwice).noteFilesz_eq hz
  rw [h.phnum] at hfirst
  rw [hphnum, ← hsize, hfirst] at hsecond
  have hauxv : 0 < sizeofAuxv a.cls := by cases a <;> decide
  have hslots := htwice.slots
  have hentries := htwice.auxv
  have hnames := htwice.names
  have hle := le_alignUp (v := namesSize view.maps) (n := 4) (by norm_num)
  have hlt := alignUp_lt (v := namesSize view.maps) (n := 4) (by norm_num)
  have hdvd := dvd_alignUp (namesSize view.maps) 4
  have hle2 := le_alignUp (v := 2 * namesSize view.maps) (n := 4) (by norm_num)
  have hmono : alignUp (namesSize view.maps) 4 ≤ alignUp (2 * namesSize view.maps) 4 :=
    alignUp_le (by norm_num) (dvd_alignUp _ 4) (by omega)
  have hsum : countedSize a.cls (2 * slotsSize a view.tasks.length) (2 * view.auxv.length)
      view.maps.length + alignUp (2 * namesSize view.maps) 4 =
      countedSize a.cls (slotsSize a view.tasks.length) view.auxv.length view.maps.length +
        alignUp (namesSize view.maps) 4 + (slotsSize a view.tasks.length +
          sizeofAuxv a.cls * view.auxv.length +
          (alignUp (2 * namesSize view.maps) 4 - alignUp (namesSize view.maps) 4)) := by
    rw [countedSize, countedSize, Nat.mul_left_comm]
    omega
  have hwidth : 2 ^ 32 ≤ 2 ^ a.cls.bits := Nat.pow_le_pow_right (by norm_num) a.cls.bits_ge
  rw [hsum] at hsecond
  have hzero := eq_zero_of_ofNat_add (by omega) hsecond.symm
  have hmul : sizeofAuxv a.cls * view.auxv.length = 0 := by omega
  refine ⟨by omega, (Nat.mul_eq_zero.mp hmul).resolve_left hauxv.ne', ?_⟩
  omega

/-- A rounded size does not tell one name byte from two, the padding does. -/
theorem padding_ne {size names : ℕ} (h4 : 4 ∣ size) (hpos : 0 < names) (hle : names ≤ 2) :
    alignUp (size + names) 4096 - (size + names) ≠
      alignUp (size + 2 * names) 4096 - (size + 2 * names) := by
  have hpage : ∀ n, 0 < n → n ≤ 4 → alignUp (size + n) 4096 = alignUp (size + 4) 4096 := by
    intro n hn hn4
    have hfour : alignUp n 4 = 4 := by
      unfold alignUp
      omega
    rw [← alignUp_alignUp (v := size + n) (m := 4) (by norm_num) (by norm_num) (by norm_num),
      alignUp_add (by norm_num) h4, hfour]
  have hend := le_alignUp (v := size + 4) (n := 4096) (by norm_num)
  rw [hpage names hpos (by omega), hpage (2 * names) (by omega) (by omega)]
  omega

theorem length_rawNotes_empty {d : Dumper a} (view : ProcessView a) (hprstatus : d.prstatus = [])
    (hauxvnum : d.auxvnum = 0) : (rawNotes d view).length = 40 + (ntFileBody d).length := by
  have hzero : tripCount 0 = 0 := rfl
  simp only [rawNotes, fileRecord, hprstatus, hauxvnum, hzero, List.take_nil, List.take_zero,
    List.zipIdx_nil, List.flatMap_nil, List.length_append, List.length_nil, length_nhdrBytes,
    length_coreMagic]
  omega

/-- Without threads and auxiliary vector both rounds write notes of one length. -/
theorem length_rawNotes_second (h : Collected view d) (htasks : view.tasks.length = 0)
    (hauxv : view.auxv.length = 0) :
    (rawNotes (placed (secondCount view d)) view).length = (rawNotes (placed d) view).length := by
  have hprstatus : d.prstatus = [] := List.length_eq_zero_iff.mp (h.prnum.trans htasks)
  have hfirst : d.auxvnum = 0 := by
    rw [h.auxvnum, hauxv]
    rfl
  have hsecond : (secondCount view d).auxvnum = 0 := by
    change BitVec.ofNat 32 _ + d.auxvnum = 0
    rw [hfirst, hauxv]
    rfl
  have hbody : ntFileBody (placed (secondCount view d)) = ntFileBody (placed d) := by
    simp only [ntFileBody, placed, length_placeSegments]
    rfl
  rw [length_rawNotes_empty (d := placed (secondCount view d)) view hprstatus hsecond,
    length_rawNotes_empty (d := placed d) view hprstatus hfirst, hbody]

/-- The loops of both rounds see the same segments, placed alike if the notes have one size. -/
theorem rawLoads_second (hsize : noteFilesz d = noteFilesz (secondCount view d)) :
    rawLoads (placed (secondCount view d)) view.mem = rawLoads (placed d) view.mem := by
  have hphdr : (placed (secondCount view d)).phdr = (placed d).phdr := by
    simp only [placed, ← hsize]
    rfl
  unfold rawLoads
  rw [hphdr]
  rfl

/-- Two equal files of the first and the second round leave nothing to count. -/
theorem nothingCounted_of_same (h : Collected view d) (hz : d.note.p_filesz = 0)
    (htwice : TwiceFits view) {fp fp' : FILE} (hfp : fp.Appending) (hfp' : fp'.Appending)
    (hempty : fp.content = []) (hempty' : fp'.content = [])
    (hsame : (writeCore d view fp).2.content =
      (writeCore (secondCount view d) view fp').2.content) : NothingCounted view := by
  have hphnum : tripCount (BitVec.ofNat 32 d.phdr.length) = d.phdr.length := by
    rw [h.phnum]
    exact tripCount_ofNat htwice.maps
  rw [writeCore_bytes hphnum view hfp hempty,
    writeCore_bytes (d := secondCount view d) hphnum view hfp' hempty'] at hsame
  have hehdr : d.ehdr = (secondCount view d).ehdr := rfl
  have hsize := noteFilesz_of_same hehdr hsame
  obtain ⟨htasks, hauxv, hnames⟩ := counted_of_noteFilesz h hz htwice hsize
  have htasks' : view.tasks.length = 0 := by
    obtain ⟨-, hslots⟩ := slotsSize_spec a view.tasks.length
    omega
  have hmaps := length_le_namesSize view.maps
  -- the padding of the two rounds has one length
  have hheader : (headerBytes d).length = (headerBytes (secondCount view d)).length := by
    simp only [headerBytes, placed, ← hsize]
    rfl
  have hpadding : notePadding (placed d) = notePadding (placed (secondCount view d)) := by
    have hlength := congrArg List.length hsame
    simp only [List.length_append, length_zeros, rawLoads_second hsize, ← hheader,
      length_rawNotes_second h htasks' hauxv] at hlength
    omega
  have hoffset : d.note.p_offset =
      BitVec.ofNat a.cls.bits (headersSize a.cls view.maps.length) := by
    rw [h.note_offset, Nat.mod_eq_of_lt (by omega), headersSize]
  have hfirst := (h.counters fun _ => htwice.counters).notePadding_eq hz h.align hoffset
  have hsecond := (h.secondCount htwice).notePadding_eq hz h.align hoffset
  have hphnum' : (secondCount view d).phdr.length = view.maps.length := h.phnum
  rw [h.phnum, htasks, hauxv, ← Nat.add_assoc] at hfirst
  rw [hphnum', htasks, hauxv, ← Nat.add_assoc, ← hpadding, hfirst] at hsecond
  have h4 : 4 ∣ headersSize a.cls view.maps.length +
      countedSize a.cls 0 0 view.maps.length := by
    have hdvd := four_dvd_nameless view
    rwa [namelessSize, htasks, hauxv] at hdvd
  have hzero : namesSize view.maps = 0 := by
    by_contra hne
    exact padding_ne h4 (Nat.pos_of_ne_zero hne) hnames hsecond
  exact ⟨List.length_eq_zero_iff.mp htasks', List.length_eq_zero_iff.mp (by omega),
    List.length_eq_zero_iff.mp hauxv⟩

end SecondCount

section Rounds

variable {d : Dumper a} {view : ProcessView a}

theorem doCoredump_afterRound (hd : d.Fresh) (plan : ℕ → WriteResult) :
    doCoredump (d.afterRound view) view plan =
      ((collect d view).bind fun d => specialCoreFilter d view.files).map
        fun d => writeCore (secondCount view d) view (FILE.create plan) := by
  rw [doCoredump_eq, Dumper.afterRound, collect_carry view _ _ _ hd, Option.bind_map,
    Option.map_bind, Option.map_bind]
  congr 1
  funext d1
  simp only [Function.comp_apply, specialCoreFilter_countOn, Option.map_map]
  rfl

/-- Two equal cores in a row leave nothing to count. -/
theorem nothingCounted_of_rounds (hd : d.Fresh) (hauxv : d.auxv = []) (htwice : TwiceFits view)
    {option : DumpOption a} {k : ℕ} {core : Bytes}
    (h : rounds option view (k + 2) d = some (List.replicate (k + 2) core)) :
    NothingCounted view := by
  have hround : (d.setRound option).Fresh := { hd with }
  obtain ⟨d1, fp1, rest, hfirst, hrest, hcores⟩ := rounds_first hd hauxv h
  obtain ⟨⟨d2, fp2⟩, hsecond, hrest⟩ := Option.bind_eq_some_iff.mp hrest
  obtain ⟨rest', -, hrest⟩ := Option.bind_eq_some_iff.mp hrest
  obtain rfl := Option.some.inj hrest
  rw [List.replicate_succ, List.replicate_succ] at hcores
  obtain ⟨hcore1, hcores⟩ := List.cons.inj hcores
  obtain ⟨hcore2, -⟩ := List.cons.inj hcores
  have hsetting : (d.afterRound view).setRound option = (d.setRound option).afterRound view := rfl
  rw [hsetting, doCoredump_afterRound hround] at hsecond
  rw [doCoredump_eq] at hfirst
  obtain ⟨d3, hcollect, hfp1⟩ := Option.map_eq_some_iff.mp hfirst
  rw [hcollect] at hsecond
  have hcontent1 := congrArg (fun core => core.2.content) hfp1
  have hcontent2 := congrArg (fun core => core.2.content) (Option.some.inj hsecond)
  obtain ⟨d4, hd4, hfilter⟩ := Option.bind_eq_some_iff.mp hcollect
  obtain ⟨d5, hd5, hcol, -, hz, -⟩ := collect_spec hround view htwice.tasks
  obtain rfl := Option.some.inj (hd4.symm.trans hd5)
  obtain ⟨flags, hflags⟩ := specialCoreFilter_flags hfilter
  have hcol3 : Collected view d3 := hflags ▸ hcol.filtered flags
  have hz3 : d3.note.p_filesz = 0 := by rw [hflags]; exact hz
  have happ : (FILE.create fun _ => .ok).Appending := FILE.appending_create fun _ => rfl
  apply nothingCounted_of_same hcol3 hz3 htwice happ happ rfl rfl
  exact hcontent1.trans (hcore1.symm.trans (hcore2.trans hcontent2.symm))

theorem rounds_two (view : ProcessView a) (hd : d.Fresh) (hauxv : d.auxv = [])
    (hfilter : d.filter = FILTER_NONE) (htasks : view.tasks.length < 2 ^ 31)
    (option : DumpOption a) : ∃ cores, rounds option view 2 d = some cores := by
  have hround : (d.setRound option).Fresh := { hd with }
  obtain ⟨d1, hcollect, -, -, -, hkeep, hfirst⟩ :=
    doCoredump_unfiltered hround hfilter view htasks fun _ => .ok
  have hsecond : doCoredump ((d.setRound option).afterRound view) view (fun _ => .ok) = _ :=
    doCoredump_afterRound hround _
  rw [hcollect, Option.bind_some, hkeep, Option.map_some] at hsecond
  obtain ⟨d2, fp, hfirst⟩ : ∃ d2 fp,
      doCoredump (d.setRound option) view (fun _ => .ok) = some (d2, fp) := ⟨_, _, hfirst⟩
  obtain ⟨ehdr, note, hfinish⟩ := setRound_finish hd hauxv option hfirst
  have hrest : ∃ rest, rounds option view 1 (d.afterRound view) = some rest := by
    have hsetting : (d.afterRound view).setRound option = (d.setRound option).afterRound view := rfl
    rw [rounds, hsetting, hsecond]
    exact ⟨_, rfl⟩
  obtain ⟨rest, hrest⟩ := hrest
  rw [← rounds_headers option view hfinish] at hrest
  refine ⟨fp.content :: rest, ?_⟩
  rw [rounds, hfirst, Option.bind_eq_bind, Option.bind_some]
  dsimp only
  rw [hrest]
  rfl

end Rounds

theorem call_auxv (d : Dumper a) (call : Call a) : (call.run d).auxv = d.auxv := by
  cases call with
  | SetDir dir => rfl
  | SetFlag flag => rfl
  | SetTimeout sec =>
    rw [Call.run]
    split_ifs <;> rfl
  | SetFilter filter => rfl
  | Dump option =>
    cases option with
    | none => rfl
    | some option =>
      rw [Call.run, applyOption_eq]
      split_ifs <;> rfl

theorem runCalls_auxv (d : Dumper a) (calls : List (Call a)) :
    (runCalls d calls).auxv = d.auxv := by
  induction calls generalizing d with
  | nil => rfl
  | cons call calls ih => exact (ih (call.run d)).trans (call_auxv d call)

/-- The cores of several rounds are byte-identical if there is one round, or nothing to count.
Otherwise they are not, while the `int` counters hold what two rounds count. -/
theorem rounds_identical_iff (pageSize : ℕ) (calls : List (Call a)) (option : DumpOption a)
    (view : ProcessView a) {k : ℕ} {cores : List Bytes}
    (hrun : rounds option view k (runCalls (Dumper.new a pageSize) calls) = some cores) :
    (k ≤ 1 ∨ NothingCounted view → ∃ core, cores = List.replicate k core) ∧
    (TwiceFits view → (∃ core, cores = List.replicate k core) → k ≤ 1 ∨ NothingCounted view) := by
  have hd : (runCalls (Dumper.new a pageSize) calls).Fresh :=
    fresh_runCalls (fresh_new a pageSize) calls
  have hauxv : (runCalls (Dumper.new a pageSize) calls).auxv = [] := runCalls_auxv _ calls
  constructor
  · intro hsome
    cases k with
    | zero => exact ⟨[], (Option.some.inj hrun).symm⟩
    | succ k =>
      obtain ⟨d', fp, rest, hdump, hrest, rfl⟩ := rounds_first hd hauxv hrun
      refine ⟨fp.content, ?_⟩
      rcases hsome with hone | hn
      · obtain rfl : k = 0 := by omega
        rw [← Option.some.inj hrest]
        rfl
      · exact rounds_nothing hd hauxv hn hdump hrun
  · rintro htwice ⟨core, rfl⟩
    by_cases hone : k ≤ 1
    · exact Or.inl hone
    · obtain ⟨j, rfl⟩ := Nat.exists_eq_add_of_le' (Nat.lt_of_not_le hone)
      exact Or.inr (nothingCounted_of_rounds hd hauxv htwice hrun)

/-- Two rounds of an empty process agree. One with a page and a thread has two that differ. -/
theorem rounds_identical_both :
    (∃ cores, rounds {} { onePageProcess .arm64 [] with maps := [] } 2 (Dumper.new .arm64 4096) =
      some cores ∧ ∃ core, cores = [core, core]) ∧
    ∃ cores, rounds {} (onePageProcess .arm64 [⟨1, by decide⟩]) 2 (Dumper.new .arm64 4096) =
      some cores ∧ ¬ ∃ core, cores = [core, core] := by
  constructor
  · have hn : NothingCounted { onePageProcess .arm64 [] with maps := [] } := ⟨rfl, rfl, rfl⟩
    obtain ⟨cores, hrun⟩ := rounds_two { onePageProcess .arm64 [] with maps := [] }
      (fresh_new .arm64 4096) rfl rfl (by decide) {}
    exact ⟨cores, hrun, (rounds_identical_iff 4096 [] {} _ hrun).1 (Or.inr hn)⟩
  · obtain ⟨cores, hrun⟩ := rounds_two (onePageProcess .arm64 [⟨1, by decide⟩])
      (fresh_new .arm64 4096) rfl rfl (by decide) {}
    refine ⟨cores, hrun, fun hsame => ?_⟩
    have htwice : TwiceFits (onePageProcess .arm64 [⟨1, by decide⟩]) :=
      ⟨by decide, by decide, by decide⟩
    rcases (rounds_identical_iff 4096 [] {} _ hrun).2 htwice hsame with hone | hn
    · exact absurd hone (by decide)
    · exact absurd hn.maps (List.cons_ne_nil _ _)

/-- The second core of a process with one page is another one. -/
theorem rounds_differ : ∃ cores,
    rounds {} (onePageProcess .arm64 [⟨1, by decide⟩]) 2 (Dumper.new .arm64 4096) = some cores ∧
      ¬ ∃ core, cores = List.replicate 2 core := by
  obtain ⟨cores, hrun⟩ := rounds_two (onePageProcess .arm64 [⟨1, by decide⟩])
    (fresh_new .arm64 4096) rfl rfl (by decide) {}
  refine ⟨cores, hrun, ?_⟩
  rintro ⟨core, rfl⟩
  have hn := nothingCounted_of_rounds (fresh_new .arm64 4096) rfl
    ⟨by decide, by decide, by decide⟩ hrun
  exact absurd hn.maps (List.cons_ne_nil _ _)

end Opencore
