import Opencore.Dumper.Threads

/-! The slots of `prstatus`: `CreateCorePrStatus` stays in range, loses no thread, and
puts the top thread first. -/
namespace Opencore
open Machine Elf

variable {a : Arch}

/-- What one iteration leaves in its slot; `none` is a register read that failed. -/
def fillSlot (tid : BitVec 32) (regs : Option a.PtRegs) (p : PrStatus a) : PrStatus a :=
  { p with pr_pid := tid, pr_reg := regs.getD p.pr_reg }

/-- Where the registers of a thread come from. -/
def threadRegs (top : BitVec 32) (context : Option a.MContext)
    (regset : BitVec 32 → Option a.PtRegs) (tid : BitVec 32) : Option a.PtRegs :=
  if tid = top then (context.map a.ofContext).or (regset tid) else regset tid

theorem updateSlot_of_lt {prstatus : List (PrStatus a)} {idx : ℕ} (h : idx < prstatus.length)
    (f : PrStatus a → PrStatus a) : updateSlot prstatus idx f = some (prstatus.modify idx f) :=
  if_pos h

theorem getRegset_of_lt {prstatus : List (PrStatus a)} {idx : ℕ} (h : idx < prstatus.length)
    (regset : BitVec 32 → Option a.PtRegs) (tid : BitVec 32) :
    getRegset regset tid idx prstatus =
      some (prstatus.modify idx fun p => p.setReg ((regset tid).getD p.pr_reg)) := by
  unfold getRegset
  cases regset tid with
  | none => exact congrArg some (List.modify_id idx prstatus).symm
  | some regs => exact updateSlot_of_lt h _

theorem prStatusStep_eq (top : BitVec 32) (context : Option a.MContext)
    (regset : BitVec 32 → Option a.PtRegs) (tid : BitVec 32) (cur : ℕ) {prnum : ℕ}
    (prstatus : List (PrStatus a)) (hpos : 0 < prstatus.length) (hle : prnum ≤ prstatus.length) :
    prStatusStep top context regset prnum tid cur prstatus =
      some (if tid = top then
          (cur, prstatus.modify 0 (fillSlot tid (threadRegs top context regset tid)))
        else
          (cur + 1, prstatus.modify (if cur ≥ prnum then 0 else cur)
            (fillSlot tid (threadRegs top context regset tid)))) := by
  have hpos' : 0 < (prstatus.modify 0 (PrStatus.setPid tid)).length := by simpa using hpos
  unfold prStatusStep threadRegs
  split_ifs with htop hcur
  · rw [updateSlot_of_lt hpos, Option.bind_some]
    cases context with
    | none =>
      simp only [getRegset_of_lt hpos', Option.map_some, List.modify_modify_eq]
      rfl
    | some c =>
      simp only [updateSlot_of_lt hpos', Option.map_some, List.modify_modify_eq]
      rfl
  · simp only [updateSlot_of_lt hpos, Option.bind_some, getRegset_of_lt hpos',
      Option.map_some, List.modify_modify_eq]
    rfl
  · have hlt : cur < prstatus.length := by omega
    have hlt' : cur < (prstatus.modify cur (PrStatus.setPid tid)).length := by simpa using hlt
    simp only [updateSlot_of_lt hlt, Option.bind_some, getRegset_of_lt hlt',
      Option.map_some, List.modify_modify_eq]
    rfl

/-- The loop never leaves the vector and keeps its length. -/
theorem prStatusLoop_in_range (top : BitVec 32) (context : Option a.MContext)
    (regset : BitVec 32 → Option a.PtRegs) (threads : List ThreadRecord) (cur : ℕ) {prnum : ℕ}
    {prstatus : List (PrStatus a)} (hpos : 0 < prstatus.length) (hle : prnum ≤ prstatus.length) :
    ∃ result, prStatusLoop top context regset prnum threads cur prstatus = some result ∧
      result.length = prstatus.length := by
  induction threads generalizing cur prstatus with
  | nil => exact ⟨prstatus, rfl, rfl⟩
  | cons t threads ih =>
    have hnext (cur idx : ℕ) (f : PrStatus a → PrStatus a) :
        ∃ result, prStatusLoop top context regset prnum threads cur (prstatus.modify idx f) =
          some result ∧ result.length = prstatus.length := by
      have hlength : (prstatus.modify idx f).length = prstatus.length := List.length_modify ..
      rw [← hlength] at hpos hle ⊢
      exact ih cur hpos hle
    rw [prStatusLoop, prStatusStep_eq top context regset _ cur _ hpos hle, Option.bind_some]
    split_ifs
    · exact hnext cur 0 _
    · exact hnext (cur + 1) 0 _
    · exact hnext (cur + 1) cur _

theorem modify_append_cons {α : Type*} (before : List α) (x : α) (after : List α) (f : α → α) :
    (before ++ x :: after).modify before.length f = before ++ f x :: after := by
  induction before with
  | nil => rfl
  | cons y before ih => exact congrArg (y :: ·) ih

section Loop

variable (top : BitVec 32) (context : Option a.MContext) (regset : BitVec 32 → Option a.PtRegs)

def threadRecord (t : ThreadRecord) : PrStatus a :=
  fillSlot t.pid.val (threadRegs top context regset t.pid.val) PrStatus.zero

def otherThreads (threads : List ThreadRecord) : List ThreadRecord :=
  threads.filter fun t => t.pid.val ≠ top

/-- What slot 0 becomes through the occurrences of the top thread. -/
def fillTop (threads : List ThreadRecord) (p : PrStatus a) : PrStatus a :=
  (threads.filter fun t => t.pid.val = top).foldl
    (fun p t => fillSlot t.pid.val (threadRegs top context regset t.pid.val) p) p

/-- The loop invariant. Slots from 1 on hold the other threads seen so far, in order; the
counter points behind them, and enough slots are left for those still to come. -/
theorem prStatusLoop_invariant (threads rest seen : List ThreadRecord) (room prnum : ℕ)
    (slot0 : PrStatus a) (hroom : (otherThreads top threads).length ≤ room)
    (hnum : prnum = 1 + seen.length + room) :
    prStatusLoop top context regset prnum (threads ++ rest) (1 + seen.length)
        (slot0 :: (seen.map (threadRecord top context regset) ++
          List.replicate room PrStatus.zero)) =
      prStatusLoop top context regset prnum rest
        (1 + (seen ++ otherThreads top threads).length)
        (fillTop top context regset threads slot0 ::
          ((seen ++ otherThreads top threads).map (threadRecord top context regset) ++
            List.replicate (room - (otherThreads top threads).length) PrStatus.zero)) := by
  induction threads generalizing seen room slot0 with
  | nil => simp [otherThreads, fillTop]
  | cons t threads ih =>
    have hlen : (slot0 :: (seen.map (threadRecord top context regset) ++
        List.replicate room PrStatus.zero)).length = prnum := by simp; omega
    have hstep := prStatusStep_eq top context regset t.pid.val (1 + seen.length)
      (slot0 :: (seen.map (threadRecord top context regset) ++
        List.replicate room PrStatus.zero)) (by simp) hlen.ge
    rw [List.cons_append, prStatusLoop, hstep, Option.bind_some]
    by_cases htop : t.pid.val = top
    · have hothers : otherThreads top (t :: threads) = otherThreads top threads := by
        simp [otherThreads, htop]
      rw [hothers] at hroom
      have hnext := ih seen room
        (fillSlot t.pid.val (threadRegs top context regset t.pid.val) slot0) hroom hnum
      rw [hothers, if_pos htop]
      simpa [fillTop, htop] using hnext
    · have hothers : otherThreads top (t :: threads) = t :: otherThreads top threads := by
        simp [otherThreads, htop]
      rw [hothers, List.length_cons] at hroom
      obtain ⟨room, rfl⟩ : ∃ r, room = r + 1 := ⟨room - 1, by omega⟩
      have hslot := modify_append_cons (slot0 :: seen.map (threadRecord top context regset))
        PrStatus.zero (List.replicate room PrStatus.zero)
        (fillSlot t.pid.val (threadRegs top context regset t.pid.val))
      rw [List.length_cons, List.length_map, Nat.add_comm] at hslot
      have hnext := ih (seen ++ [t]) room slot0 (by omega) (by simp; omega)
      have hfill : fillTop top context regset (t :: threads) slot0 =
          fillTop top context regset threads slot0 := by simp [fillTop, htop]
      rw [hothers, if_neg htop, if_neg (by omega : ¬ 1 + seen.length ≥ prnum), hfill,
        List.replicate_succ]
      simp only [List.cons_append] at hslot
      simp only [hslot]
      simpa [threadRecord, Nat.add_assoc, Nat.add_sub_add_right] using hnext

/-- The order in which the threads end up in `prstatus`. -/
def arrangeThreads (threads : List ThreadRecord) : List ThreadRecord :=
  if ∃ t ∈ threads, t.pid.val = top then
    threads.filter (fun t => t.pid.val = top) ++ otherThreads top threads
  else threads.getLast?.toList ++ threads.dropLast

theorem filter_top {threads : List ThreadRecord} (hnd : (threads.map fun t => t.pid.val).Nodup)
    {t : ThreadRecord} (ht : t ∈ threads) (htop : t.pid.val = top) :
    threads.filter (fun t => t.pid.val = top) = [t] := by
  induction threads with
  | nil => cases ht
  | cons x threads ih =>
    rw [List.map_cons, List.nodup_cons] at hnd
    rcases List.mem_cons.mp ht with rfl | ht
    · have hrest : ∀ y ∈ threads, y.pid.val ≠ top := fun y hy h =>
        hnd.1 (htop.trans h.symm ▸ List.mem_map_of_mem hy)
      rw [List.filter_cons_of_pos (by simpa using htop),
        List.filter_eq_nil_iff.mpr (by simpa using hrest)]
    · have hx : x.pid.val ≠ top := fun h =>
        hnd.1 (h.trans htop.symm ▸ List.mem_map_of_mem ht)
      rw [List.filter_cons_of_neg (by simpa using hx), ih hnd.2 ht]

theorem length_otherThreads {threads : List ThreadRecord}
    (hnd : (threads.map fun t => t.pid.val).Nodup) {t : ThreadRecord} (ht : t ∈ threads)
    (htop : t.pid.val = top) : (otherThreads top threads).length + 1 = threads.length := by
  have hsplit := List.length_eq_length_filter_add (l := threads) fun t => decide (t.pid.val = top)
  rw [filter_top top hnd ht htop] at hsplit
  simp only [otherThreads, hsplit, List.length_singleton, decide_not]
  omega

/-- The loop over all threads, from zeroed slots, lays the records out in that order. -/
theorem prStatusLoop_eq {threads : List ThreadRecord}
    (hnd : (threads.map fun t => t.pid.val).Nodup) (hne : threads ≠ []) :
    prStatusLoop top context regset threads.length threads 1
        (List.replicate threads.length PrStatus.zero) =
      some ((arrangeThreads top threads).map (threadRecord top context regset)) := by
  have hpos : 0 < threads.length := List.length_pos_of_ne_nil hne
  obtain ⟨room, hroom⟩ : ∃ room, threads.length = 1 + room := ⟨threads.length - 1, by omega⟩
  have hzero : List.replicate threads.length (PrStatus.zero : PrStatus a) =
      PrStatus.zero :: List.replicate room PrStatus.zero := by
    rw [hroom, Nat.add_comm, List.replicate_succ]
  unfold arrangeThreads
  split_ifs with hmem
  · obtain ⟨t, ht, htop⟩ := hmem
    have hlen := length_otherThreads top hnd ht htop
    have hinv := prStatusLoop_invariant top context regset threads [] [] room threads.length
      PrStatus.zero (by omega) (by simp; omega)
    have hfull : room - (otherThreads top threads).length = 0 := by omega
    rw [hfull] at hinv
    have hfilter := filter_top top hnd ht htop
    rw [hfilter]
    rw [fillTop, hfilter] at hinv
    simpa [hzero, prStatusLoop, threadRecord] using hinv
  · -- every thread but the last fills the slots from 1 on, and the last wraps to slot 0
    have hothers : ∀ ts ⊆ threads, otherThreads top ts = ts := fun ts hts =>
      List.filter_eq_self.mpr fun t ht => by
        simpa using fun h => hmem ⟨t, hts ht, h⟩
    have htops : ∀ ts ⊆ threads, ts.filter (fun t => t.pid.val = top) = [] := fun ts hts =>
      List.filter_eq_nil_iff.mpr fun t ht => by
        simpa using fun h => hmem ⟨t, hts ht, h⟩
    obtain ⟨init, last, rfl⟩ := (List.eq_nil_or_concat' threads).resolve_left hne
    have hinit : otherThreads top init = init :=
      hothers init (List.subset_append_left init [last])
    obtain rfl : init.length = room := by simpa [Nat.add_comm] using hroom
    have hinv := prStatusLoop_invariant top context regset init [last] [] init.length
      (init ++ [last]).length PrStatus.zero (by rw [hinit]) (by simp; omega)
    have hslot0 : fillTop top context regset init PrStatus.zero = PrStatus.zero := by
      rw [fillTop, htops init (List.subset_append_left init [last])]
      rfl
    have hlast : last.pid.val ≠ top := fun h =>
      hmem ⟨last, List.mem_append_right init List.mem_cons_self, h⟩
    have hstep := prStatusStep_eq top context regset last.pid.val (1 + init.length)
      (PrStatus.zero :: init.map (threadRecord top context regset)) (by simp) le_rfl
    rw [List.length_cons, List.length_map, if_neg hlast, if_pos (by omega),
      List.modify_zero_cons, Nat.add_comm init.length 1] at hstep
    rw [hslot0, hinit] at hinv
    simp only [List.map_nil, List.nil_append, List.length_nil, Nat.add_zero, Nat.sub_self,
      List.replicate_zero, List.append_nil] at hinv
    rw [hzero, hinv, prStatusLoop, hroom, hstep]
    simp [prStatusLoop, threadRecord]

theorem arrangeThreads_pids {threads : List ThreadRecord}
    (hnd : (threads.map fun t => t.pid.val).Nodup) :
    (arrangeThreads top threads).map (fun t => t.pid.val) =
      if top ∈ threads.map fun t => t.pid.val then
        top :: (threads.map fun t => t.pid.val).filter (· ≠ top)
      else (threads.map fun t => t.pid.val).getLast?.toList ++
        (threads.map fun t => t.pid.val).dropLast := by
  have hiff : top ∈ threads.map (fun t => t.pid.val) ↔ ∃ t ∈ threads, t.pid.val = top :=
    List.mem_map
  unfold arrangeThreads
  simp only [hiff]
  split_ifs with hmem
  · obtain ⟨t, ht, htop⟩ := hmem
    rw [filter_top top hnd ht htop, List.filter_map, List.map_append, List.map_singleton, htop]
    rfl
  · rw [List.map_append, ← List.map_dropLast, List.getLast?_map]
    cases threads.getLast? <;> rfl

end Loop

/-- There are fewer threads than positive `pid_t` values, so `int prnum` holds their number. -/
theorem threads_length_lt {threads : List ThreadRecord}
    (hnd : (threads.map fun t => t.pid.val).Nodup) : threads.length < 2 ^ 31 := by
  have hpids : ∀ t : Tid, 1 ≤ t.val.toNat ∧ t.val.toNat < 2 ^ 31 := fun t => by
    have hpos := t.pos
    have hlt := t.val.isLt
    rw [BitVec.toInt_eq_toNat_cond] at hpos
    split_ifs at hpos <;> omega
  have hnat : ((threads.map fun t => t.pid.val).map BitVec.toNat).Nodup :=
    hnd.map fun x y h => BitVec.eq_of_toNat_eq h
  have hsub : ((threads.map fun t => t.pid.val).map BitVec.toNat).toFinset ⊆
      Finset.Ico 1 (2 ^ 31) := by
    intro n hn
    simp only [List.map_map, List.mem_toFinset, List.mem_map] at hn
    obtain ⟨t, -, rfl⟩ := hn
    exact Finset.mem_Ico.mpr (hpids t.pid)
  have hcard := Finset.card_le_card hsub
  rw [List.toFinset_card_of_nodup hnat, Nat.card_Ico, List.length_map, List.length_map] at hcard
  omega

theorem createCorePrStatus_eq (d : Dumper a) (regset : BitVec 32 → Option a.PtRegs)
    (hnd : (d.threads.map fun t => t.pid.val).Nodup) (hne : d.threads ≠ []) :
    createCorePrStatus d regset = some { d with
      prstatus := (arrangeThreads d.tid d.threads).map
        (threadRecord d.tid (d.ucontext_raw.map Ref.pointee) regset)
      extra_note_filesz := d.extra_note_filesz +
        extraNoteFilesz a (BitVec.ofNat 32 d.threads.length) } := by
  have hcount : tripCount (BitVec.ofNat 32 d.threads.length) = d.threads.length :=
    tripCount_ofNat (threads_length_lt hnd)
  simp only [createCorePrStatus, if_neg hne, hcount, List.take_length,
    prStatusLoop_eq d.tid _ regset hnd hne, Option.bind_eq_bind, Option.bind_some]

theorem createCorePrStatus_top (d : Dumper a) (regset : BitVec 32 → Option a.PtRegs)
    (hnd : (d.threads.map fun t => t.pid.val).Nodup)
    (htop : d.tid ∈ d.threads.map fun t => t.pid.val) :
    ∃ top rest, createCorePrStatus d regset = some { d with
        prstatus := top :: rest
        extra_note_filesz := d.extra_note_filesz +
          extraNoteFilesz a (BitVec.ofNat 32 d.threads.length) } ∧
      top.pr_pid = d.tid ∧
      top.pr_reg =
        (threadRegs d.tid (d.ucontext_raw.map Ref.pointee) regset d.tid).getD a.zeroRegs := by
  have hne : d.threads ≠ [] := by
    intro hnil
    rw [hnil] at htop
    cases htop
  have hpids := arrangeThreads_pids d.tid hnd
  rw [if_pos htop] at hpids
  obtain ⟨t, others, harrange, hpid, -⟩ := List.map_eq_cons_iff.mp hpids
  have heq := createCorePrStatus_eq d regset hnd hne
  rw [harrange, List.map_cons] at heq
  refine ⟨_, _, heq, hpid, ?_⟩
  rw [← hpid]
  rfl

end Opencore
