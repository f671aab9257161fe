import Opencore.Control.Child

/-! Whether the child has detached what it has attached when it exits. -/
namespace Opencore
open Machine Elf

variable {a : Arch} {view : ProcessView a} {plan : ℕ → WriteResult}

/-- Every thread whose `PTRACE_ATTACH` succeeded has been detached, and none whose failed. -/
def Released (s : ChildState a) : Prop :=
  (∀ tid ∈ s.attached, tid ∈ s.detached) ∧ ∀ tid ∈ s.failed, tid ∉ s.detached

/-- The alarm does not ring between a `PTRACE_ATTACH` that succeeded and the record of its
thread. -/
def RingsOutside (s : ChildState a) : ChildEvent → Prop
  | .alarm => ∀ ts rest, s.stage = .doCoredump (.push_back ts :: rest) → ts.attached = true →
      ts ∈ s.d.threads
  | _ => True

section Threads

theorem MemberCall.perform_threads {call : MemberCall} {d d' : Dumper a} {fp fp' : FILE}
    (h : call.perform view d fp = some (d', fp')) : d'.threads = d.threads := by
  cases call with
  | CreateCorePrStatus =>
    obtain ⟨d₁, hpr, heq⟩ := Option.map_eq_some_iff.mp h
    obtain ⟨rfl, -⟩ := Prod.mk.inj heq
    obtain ⟨prstatus, rfl⟩ := createCorePrStatus_frame hpr
    rfl
  | SpecialCoreFilter =>
    obtain ⟨d₁, hfilter, heq⟩ := Option.map_eq_some_iff.mp h
    obtain ⟨rfl, -⟩ := Prod.mk.inj heq
    obtain ⟨flags, -, rfl⟩ := Option.map_eq_some_iff.mp hfilter
    rfl
  | ParseProcessMapsVma =>
    obtain ⟨rfl, -⟩ := Prod.mk.inj (Option.some.inj h)
    unfold parseProcessMapsVma
    dsimp only
    split_ifs <;> rfl
  | WriteCoreProgramHeaders =>
    have hd : (writeCoreProgramHeaders d fp).1 = d' := congrArg Prod.fst (Option.some.inj h)
    rw [← hd, writeCoreProgramHeaders]
    split_ifs <;> rfl
  | _ =>
    obtain ⟨rfl, -⟩ := Prod.mk.inj (Option.some.inj h)
    rfl

theorem ResetCall.perform_threads (d : Dumper a) (call : ResetCall) :
    (call.perform d).threads = d.threads := by
  cases call <;> rfl

end Threads

section Invariant

def ChildStage.ahead : ChildStage → List DumpCall
  | doCoredump calls => calls
  | _ => []

structure ChildInv (view : ProcessView a) (s : ChildState a) : Prop where
  failed : ∀ tid ∈ s.failed, view.attach tid = false
  detached : ∀ tid ∈ s.detached, view.attach tid = true
  records : ∀ ts ∈ s.d.threads, ts.attached = view.attach ts.pid
  pushed : ∀ ts, .push_back ts ∈ s.stage.ahead →
    ts.attached = view.attach ts.pid ∧ (ts.attached = true → ts.pid ∈ s.attached)
  early : ∀ calls, s.stage = .doCoredump calls → s.detached = []

/-- A call of `DoCoredump` that attaches and records nothing. -/
theorem ChildInv.ahead {s t : ChildState a} (h : ChildInv view s) {calls rest : List DumpCall}
    (hs : s.stage = .doCoredump calls) (ht : t.stage = .doCoredump rest)
    (hrest : ∀ ts, .push_back ts ∈ rest → .push_back ts ∈ calls)
    (hthreads : t.d.threads = s.d.threads) (hattached : t.attached = s.attached)
    (hfailed : t.failed = s.failed) (hdetached : t.detached = s.detached) : ChildInv view t where
  failed := hfailed ▸ h.failed
  detached := hdetached ▸ h.detached
  records := hthreads ▸ h.records
  pushed := by
    intro ts hts
    rw [ht] at hts
    rw [hattached]
    exact h.pushed ts (hs ▸ hrest ts hts)
  early _ _ := hdetached.trans (h.early calls hs)

theorem ChildInv.leave {s t : ChildState a} (h : ChildInv view s)
    (ht : ∀ calls, t.stage ≠ .doCoredump calls)
    (hthreads : ∀ ts ∈ t.d.threads, ts ∈ s.d.threads) (hfailed : t.failed = s.failed)
    (hdetached : ∀ tid ∈ t.detached, view.attach tid = true) : ChildInv view t where
  failed := hfailed ▸ h.failed
  detached := hdetached
  records ts hts := h.records ts (hthreads ts hts)
  pushed := by
    intro ts hts
    cases hstage : t.stage with
    | doCoredump calls => exact absurd hstage (ht calls)
    | finish calls =>
      rw [hstage] at hts
      cases hts
    | exited =>
      rw [hstage] at hts
      cases hts
  early calls hcalls := absurd hcalls (ht calls)

theorem childInv_step {s t : ChildState a} {e : ChildEvent} (h : ChildInv view s)
    (hstep : ChildStep view plan s e t) : ChildInv view t := by
  have htail {call : DumpCall} {rest : List DumpCall} (ts : ThreadRecord)
      (hts : .push_back ts ∈ rest) : .push_back ts ∈ call :: rest := List.mem_cons_of_mem call hts
  cases hstep with
  | member hs hperform =>
    exact h.ahead hs rfl htail (MemberCall.perform_threads hperform) rfl rfl rfl
  | fopen hs => exact h.ahead hs rfl htail rfl rfl rfl rfl
  | fopenFails hs => exact h.ahead hs rfl nofun rfl rfl rfl rfl
  | @opendir rest hs =>
    refine h.ahead hs rfl ?_ rfl rfl rfl rfl
    intro ts hts
    simpa using hts
  | opendirFails hs => exact h.ahead hs rfl htail rfl rfl rfl rfl
  | readdir hs =>
    refine h.ahead hs rfl ?_ rfl rfl rfl rfl
    intro ts hts
    simpa using hts
  | readdirEnds hs => exact h.ahead hs rfl htail rfl rfl rfl rfl
  | @attach tid rest hs hattach =>
    refine ⟨h.failed, h.detached, h.records, ?_, fun _ _ => h.early _ hs⟩
    intro ts hts
    rcases List.mem_cons.mp hts with heq | hts
    · obtain rfl := DumpCall.push_back.inj heq
      exact ⟨hattach.symm, fun _ => List.mem_cons_self⟩
    · have hbefore : .push_back ts ∈ s.stage.ahead := by
        rw [hs]
        exact htail ts ((List.mem_cons.mp hts).resolve_left nofun)
      obtain ⟨houtcome, hmem⟩ := h.pushed ts hbefore
      exact ⟨houtcome, fun hset => List.mem_cons_of_mem _ (hmem hset)⟩
  | @attachFails tid rest hs hattach =>
    refine ⟨?_, h.detached, h.records, ?_, fun _ _ => h.early _ hs⟩
    · intro tid' htid'
      rcases List.mem_cons.mp htid' with rfl | htid'
      · exact hattach
      · exact h.failed tid' htid'
    · intro ts hts
      rcases List.mem_cons.mp hts with heq | hts
      · obtain rfl := DumpCall.push_back.inj heq
        exact ⟨hattach.symm, nofun⟩
      · have hbefore : .push_back ts ∈ s.stage.ahead := by
          rw [hs]
          exact htail ts hts
        exact h.pushed ts hbefore
  | @push_back ts rest hs =>
    have hahead (ts' : ThreadRecord) (hts' : .push_back ts' ∈ .push_back ts :: rest) :
        .push_back ts' ∈ s.stage.ahead := by
      rw [hs]
      exact hts'
    refine ⟨h.failed, h.detached, ?_, ?_, fun _ _ => h.early _ hs⟩
    · intro ts' hts'
      rcases List.mem_append.mp hts' with hts' | hts'
      · exact h.records ts' hts'
      · obtain rfl := List.mem_singleton.mp hts'
        exact (h.pushed ts' (hahead ts' List.mem_cons_self)).1
    · intro ts' hts'
      exact h.pushed ts' (hahead ts' (htail ts' hts'))
  | waitpid hs => exact h.ahead hs rfl htail rfl rfl rfl rfl
  | closedir hs => exact h.ahead hs rfl htail rfl rfl rfl rfl
  | fflush hs => exact h.ahead hs rfl htail rfl rfl rfl rfl
  | fsync hs => exact h.ahead hs rfl htail rfl rfl rfl rfl
  | fclose hs => exact h.ahead hs rfl htail rfl rfl rfl rfl
  | returned hs => exact h.leave nofun (fun _ hts => hts) rfl h.detached
  | @reset call rest hs =>
    refine h.leave nofun ?_ rfl h.detached
    intro ts hts
    rw [← ResetCall.perform_threads s.d call]
    exact hts
  | @detach index ts rest hs hts =>
    refine h.leave nofun (fun _ hts => hts) rfl ?_
    intro tid htid
    dsimp only at htid
    split_ifs at htid with hattached
    · rcases List.mem_cons.mp htid with rfl | htid
      · rw [← h.records ts (List.mem_of_getElem? hts)]
        exact hattached
      · exact h.detached tid htid
    · exact h.detached tid htid
  | detachEnds hs _ => exact h.leave nofun (fun _ hts => hts) rfl h.detached
  | clearThreads hs => exact h.leave nofun nofun rfl h.detached
  | exit hs => exact h.leave nofun (fun _ hts => hts) rfl h.detached
  | alarm _ _ => exact h.leave nofun (fun _ hts => hts) rfl h.detached

end Invariant

section Released

/-- The calls of `Finish` that are ahead detach this thread. -/
def DetachesIn (threads : List ThreadRecord) (tid : Tid) : List FinishCall → Prop
  | [] => False
  | .reset _ :: rest => DetachesIn threads tid rest
  | .detach index :: _ => ∃ i, index ≤ i ∧ threads[i]? = some ⟨tid, true⟩
  | .clearThreads :: _ => False

/-- The thread has been detached, or will be: by `Finish` from where it is, or by one that starts
at the present point. -/
def ChildStage.Covers (threads : List ThreadRecord) (detached : List Tid) (tid : Tid) :
    ChildStage → Prop
  | doCoredump calls => ⟨tid, true⟩ ∈ threads ∨ ∃ rest, calls = .push_back ⟨tid, true⟩ :: rest
  | finish calls => tid ∈ detached ∨ DetachesIn threads tid calls
  | exited => tid ∈ detached

def AllCovered (s : ChildState a) : Prop :=
  ∀ tid ∈ s.attached, s.stage.Covers s.d.threads s.detached tid

theorem detachesIn_finishCalls {threads : List ThreadRecord} {tid : Tid}
    (h : ⟨tid, true⟩ ∈ threads) : DetachesIn threads tid finishCalls := by
  obtain ⟨i, hi⟩ := List.mem_iff_getElem?.mp h
  exact ⟨i, Nat.zero_le i, hi⟩

theorem DetachesIn.mem {threads : List ThreadRecord} {tid : Tid} {calls : List FinishCall}
    (h : DetachesIn threads tid calls) : ⟨tid, true⟩ ∈ threads := by
  induction calls with
  | nil => exact h.elim
  | cons call rest ih =>
    cases call with
    | reset call => exact ih h
    | detach index =>
      obtain ⟨i, -, hi⟩ := h
      exact List.mem_of_getElem? hi
    | clearThreads => exact h.elim

theorem AllCovered.recorded {s : ChildState a} (h : AllCovered s) {calls : List DumpCall}
    (hs : s.stage = .doCoredump calls) (hcalls : ∀ ts rest, calls ≠ .push_back ts :: rest) :
    ∀ tid ∈ s.attached, ⟨tid, true⟩ ∈ s.d.threads := by
  intro tid htid
  have hcovers := h tid htid
  rw [hs] at hcovers
  rcases hcovers with hmem | ⟨rest, heq⟩
  · exact hmem
  · exact absurd heq (hcalls _ rest)

theorem AllCovered.finishing {s : ChildState a} (h : AllCovered s) {calls : List FinishCall}
    (hs : s.stage = .finish calls) :
    ∀ tid ∈ s.attached, tid ∈ s.detached ∨ DetachesIn s.d.threads tid calls := by
  intro tid htid
  have hcovers := h tid htid
  rw [hs] at hcovers
  exact hcovers

theorem allCovered_step {s t : ChildState a} {e : ChildEvent} (h : AllCovered s)
    (hstep : ChildStep view plan s e t) (hring : RingsOutside s e) : AllCovered t := by
  cases hstep with
  | member hs hperform =>
    intro tid htid
    have hmem := h.recorded hs nofun tid htid
    rw [← MemberCall.perform_threads hperform] at hmem
    exact Or.inl hmem
  | fopen hs => exact fun tid htid => Or.inl (h.recorded hs nofun tid htid)
  | fopenFails hs => exact fun tid htid => Or.inl (h.recorded hs nofun tid htid)
  | opendir hs => exact fun tid htid => Or.inl (h.recorded hs nofun tid htid)
  | opendirFails hs => exact fun tid htid => Or.inl (h.recorded hs nofun tid htid)
  | readdir hs => exact fun tid htid => Or.inl (h.recorded hs nofun tid htid)
  | readdirEnds hs => exact fun tid htid => Or.inl (h.recorded hs nofun tid htid)
  | @attach tid rest hs _ =>
    intro tid' htid'
    rcases List.mem_cons.mp htid' with rfl | htid'
    · exact Or.inr ⟨_, rfl⟩
    · exact Or.inl (h.recorded hs nofun tid' htid')
  | attachFails hs _ => exact fun tid htid => Or.inl (h.recorded hs nofun tid htid)
  | @push_back ts rest hs =>
    intro tid htid
    have hcovers := h tid htid
    rw [hs] at hcovers
    refine Or.inl (List.mem_append.mpr ?_)
    rcases hcovers with hmem | ⟨rest', heq⟩
    · exact Or.inl hmem
    · have hts := DumpCall.push_back.inj (List.cons.inj heq).1
      exact Or.inr (List.mem_singleton.mpr hts.symm)
  | waitpid hs => exact fun tid htid => Or.inl (h.recorded hs nofun tid htid)
  | closedir hs => exact fun tid htid => Or.inl (h.recorded hs nofun tid htid)
  | fflush hs => exact fun tid htid => Or.inl (h.recorded hs nofun tid htid)
  | fsync hs => exact fun tid htid => Or.inl (h.recorded hs nofun tid htid)
  | fclose hs => exact fun tid htid => Or.inl (h.recorded hs nofun tid htid)
  | returned hs =>
    intro tid htid
    exact Or.inr (detachesIn_finishCalls (h.recorded hs nofun tid htid))
  | @reset call rest hs =>
    intro tid htid
    rcases h.finishing hs tid htid with hdone | hlater
    · exact Or.inl hdone
    · refine Or.inr ?_
      dsimp only
      rw [ResetCall.perform_threads]
      exact hlater
  | @detach index ts rest hs hts =>
    intro tid htid
    dsimp only [ChildStage.Covers]
    rcases h.finishing hs tid htid with hdone | ⟨i, hle, hi⟩
    · refine Or.inl ?_
      split_ifs
      · exact List.mem_cons_of_mem _ hdone
      · exact hdone
    · rcases Nat.lt_or_eq_of_le hle with hlt | rfl
      · exact Or.inr ⟨i, hlt, hi⟩
      · obtain rfl : ts = ⟨tid, true⟩ := Option.some.inj (hts.symm.trans hi)
        exact Or.inl List.mem_cons_self
  | detachEnds hs hnone =>
    intro tid htid
    rcases h.finishing hs tid htid with hdone | ⟨i, hle, hi⟩
    · exact Or.inl hdone
    · have hlen := List.getElem?_eq_none_iff.mp hnone
      obtain ⟨hlt, -⟩ := List.getElem?_eq_some_iff.mp hi
      omega
  | clearThreads hs =>
    intro tid htid
    rcases h.finishing hs tid htid with hdone | hlater
    · exact Or.inl hdone
    · exact hlater.elim
  | exit hs =>
    intro tid htid
    rcases h.finishing hs tid htid with hdone | hlater
    · exact hdone
    · exact hlater.elim
  | alarm hs _ =>
    intro tid htid
    have hcovers := h tid htid
    cases hstage : s.stage with
    | doCoredump calls =>
      rw [hstage] at hcovers
      rcases hcovers with hmem | ⟨rest, rfl⟩
      · exact Or.inr (detachesIn_finishCalls hmem)
      · exact Or.inr (detachesIn_finishCalls (hring _ rest hstage rfl))
    | finish calls =>
      rw [hstage] at hcovers
      rcases hcovers with hdone | hlater
      · exact Or.inl hdone
      · exact Or.inr (detachesIn_finishCalls hlater.mem)
    | exited => exact absurd hstage hs

/-- `Finish` does not know of this attached thread. -/
structure Lost (tid : Tid) (s : ChildState a) : Prop where
  attached : tid ∈ s.attached
  detached : tid ∉ s.detached
  record : ⟨tid, true⟩ ∉ s.d.threads
  stage : ∀ calls, s.stage ≠ .doCoredump calls

theorem lost_step {tid : Tid} {s t : ChildState a} {e : ChildEvent} (h : Lost tid s)
    (hstep : ChildStep view plan s e t) : Lost tid t := by
  cases hstep with
  | member hs _ => exact absurd hs (h.stage _)
  | fopen hs => exact absurd hs (h.stage _)
  | fopenFails hs => exact absurd hs (h.stage _)
  | opendir hs => exact absurd hs (h.stage _)
  | opendirFails hs => exact absurd hs (h.stage _)
  | readdir hs => exact absurd hs (h.stage _)
  | readdirEnds hs => exact absurd hs (h.stage _)
  | attach hs _ => exact absurd hs (h.stage _)
  | attachFails hs _ => exact absurd hs (h.stage _)
  | push_back hs => exact absurd hs (h.stage _)
  | waitpid hs => exact absurd hs (h.stage _)
  | closedir hs => exact absurd hs (h.stage _)
  | fflush hs => exact absurd hs (h.stage _)
  | fsync hs => exact absurd hs (h.stage _)
  | fclose hs => exact absurd hs (h.stage _)
  | returned hs => exact absurd hs (h.stage _)
  | @reset call rest hs =>
    refine ⟨h.attached, h.detached, ?_, nofun⟩
    dsimp only
    rw [ResetCall.perform_threads]
    exact h.record
  | @detach index ts rest hs hts =>
    refine ⟨h.attached, ?_, h.record, nofun⟩
    dsimp only
    split_ifs with hattached
    · intro hmem
      rcases List.mem_cons.mp hmem with rfl | hmem
      · -- a record that is detached is one of an attached thread
        have hrecord := List.mem_of_getElem? hts
        obtain ⟨pid, attached⟩ := ts
        obtain rfl : attached = true := hattached
        exact h.record hrecord
      · exact h.detached hmem
    · exact h.detached
  | detachEnds hs _ => exact ⟨h.attached, h.detached, h.record, nofun⟩
  | clearThreads hs => exact ⟨h.attached, h.detached, List.not_mem_nil, nofun⟩
  | exit hs => exact ⟨h.attached, h.detached, h.record, nofun⟩
  | alarm _ _ => exact ⟨h.attached, h.detached, h.record, nofun⟩

/-- An alarm between `PTRACE_ATTACH` and the record loses the thread. -/
theorem lost_of_alarm {s t : ChildState a} {e : ChildEvent} (h : ChildInv view s)
    (hstep : ChildStep view plan s e t) (hring : ¬ RingsOutside s e) : ∃ tid, Lost tid t := by
  cases e with
  | alarm =>
    cases hstep with
    | alarm _ _ =>
      simp only [RingsOutside, not_forall] at hring
      obtain ⟨ts, rest, hs, hattached, hrecord⟩ := hring
      have hpushed : .push_back ts ∈ s.stage.ahead := by
        rw [hs]
        exact List.mem_cons_self
      refine ⟨ts.pid, (h.pushed ts hpushed).2 hattached, ?_, ?_, nofun⟩
      · rw [h.early _ hs]
        exact List.not_mem_nil
      · rw [← hattached]
        exact hrecord
  | _ => exact absurd trivial hring

theorem childInv_initial {d : Dumper a} (hd : d.Fresh) :
    ChildInv view (ChildState.initial d plan) where
  failed _ h := nomatch h
  detached _ h := nomatch h
  records ts hts := by
    have hmem : ts ∈ d.threads := hts
    rw [hd.threads] at hmem
    cases hmem
  pushed ts hts := by
    have hnot : .push_back ts ∉ dumpCalls := by simp [dumpCalls]
    exact absurd hts hnot
  early _ _ := rfl

/-- When the child exits, the threads are released exactly if the alarm has not rung between a
`PTRACE_ATTACH` and its record. -/
theorem released_iff {d : Dumper a} (hd : d.Fresh) {events : List ChildEvent} {s : ChildState a}
    (hrun : Run (ChildStep view plan) (ChildState.initial d plan) events s)
    (hexit : s.stage = .exited) :
    Released s ↔ Run (fun s e t => ChildStep view plan s e t ∧ RingsOutside s e)
      (ChildState.initial d plan) events s := by
  have hinv {events : List ChildEvent} {s : ChildState a}
      (hrun : Run (ChildStep view plan) (ChildState.initial d plan) events s) : ChildInv view s :=
    hrun.invariant (fun _ _ _ => childInv_step) (childInv_initial hd)
  constructor
  · intro hreleased
    rcases hrun.restrict_or (P := RingsOutside) with hall | ⟨ys, t, e, t', zs, hbefore, hstep,
      hring, hafter⟩
    · exact hall
    · obtain ⟨tid, hlost⟩ := lost_of_alarm (hinv hbefore) hstep hring
      have hend : Lost tid s := by
        apply hafter.invariant (I := Lost tid)
        · exact fun _ _ _ h hstep => lost_step h hstep
        · exact hlost
      exact absurd (hreleased.1 tid hend.attached) hend.detached
  · intro hrings
    have hcovered : AllCovered s := by
      apply hrings.invariant (I := AllCovered)
      · intro s e t h hstep
        exact allCovered_step h hstep.1 hstep.2
      · intro tid htid
        cases htid
    constructor
    · intro tid htid
      have hcovers := hcovered tid htid
      rw [hexit] at hcovers
      exact hcovers
    · intro tid hfailed hdetached
      have hsucceeded := (hinv hrun).detached tid hdetached
      rw [(hinv hrun).failed tid hfailed] at hsucceeded
      cases hsucceeded

end Released

def attachEvents : List ChildEvent := [.member, .fopen, .opendir, .readdir, .attach]

/-- The alarm and what `TimeoutHandle` does, with the iterations of `Continue`. -/
def timeoutEvents (iterations : List ChildEvent) : List ChildEvent :=
  .alarm :: .reset :: .reset :: .reset :: .reset :: .reset :: iterations.append
    [.detachEnds, .clearThreads, .reset, .reset, .reset, .exit]

/-- The alarm rings while the child waits for a thread that it has recorded. -/
theorem released_waiting :
    ∃ s, Run (ChildStep oneThreadProcess fun _ => .ok)
      (ChildState.initial (Dumper.new .arm64 4096) fun _ => .ok)
      (attachEvents ++ [.push_back] ++ timeoutEvents [.detach]) s ∧ s.stage = .exited ∧
      Released s := by
  have hrun : ∃ s, Run
      (fun s e t => ChildStep oneThreadProcess (fun _ => .ok) s e t ∧ RingsOutside s e)
      (ChildState.initial (Dumper.new .arm64 4096) fun _ => .ok)
      (attachEvents ++ [.push_back] ++ timeoutEvents [.detach]) s ∧ s.stage = .exited := by
    refine ⟨_, .cons ⟨.member rfl rfl, trivial⟩ (.cons ⟨.fopen rfl, trivial⟩
      (.cons ⟨.opendir rfl, trivial⟩ (.cons ⟨.readdir rfl, trivial⟩
      (.cons ⟨.attach rfl rfl, trivial⟩ (.cons ⟨.push_back rfl, trivial⟩
      (.cons ⟨.alarm nofun rfl, nofun⟩ (.cons ⟨.reset rfl, trivial⟩ (.cons ⟨.reset rfl, trivial⟩
      (.cons ⟨.reset rfl, trivial⟩ (.cons ⟨.reset rfl, trivial⟩ (.cons ⟨.reset rfl, trivial⟩
      (.cons ⟨.detach rfl rfl, trivial⟩ (.cons ⟨.detachEnds rfl rfl, trivial⟩
      (.cons ⟨.clearThreads rfl, trivial⟩ (.cons ⟨.reset rfl, trivial⟩
      (.cons ⟨.reset rfl, trivial⟩ (.cons ⟨.reset rfl, trivial⟩ (.cons ⟨.exit rfl, trivial⟩
      (.nil _))))))))))))))))))), rfl⟩
  obtain ⟨s, hrun, hexit⟩ := hrun
  have hplain := hrun.mono fun _ _ _ hstep => hstep.1
  exact ⟨s, hplain, hexit, (released_iff (fresh_new .arm64 4096) hplain hexit).mpr hrun⟩

/-- The alarm rings before the thread that has just been attached is recorded. -/
theorem not_released_attached :
    ∃ s, Run (ChildStep oneThreadProcess fun _ => .ok)
      (ChildState.initial (Dumper.new .arm64 4096) fun _ => .ok)
      (attachEvents ++ timeoutEvents []) s ∧ s.stage = .exited ∧ s.attached ≠ [] ∧
      s.detached = [] ∧ ¬ Released s := by
  refine ⟨_, .cons (.member rfl rfl) (.cons (.fopen rfl) (.cons (.opendir rfl)
    (.cons (.readdir rfl) (.cons (.attach rfl rfl) (.cons (.alarm nofun rfl)
    (.cons (.reset rfl) (.cons (.reset rfl) (.cons (.reset rfl) (.cons (.reset rfl)
    (.cons (.reset rfl) (.cons (.detachEnds rfl rfl) (.cons (.clearThreads rfl)
    (.cons (.reset rfl) (.cons (.reset rfl) (.cons (.reset rfl) (.cons (.exit rfl)
    (.nil _))))))))))))))))), rfl, List.cons_ne_nil _ _, rfl, ?_⟩
  intro h
  exact absurd (h.1 _ List.mem_cons_self) List.not_mem_nil

end Opencore
