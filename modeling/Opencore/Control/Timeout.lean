import Opencore.Control.Release
import Opencore.Dumper.FullDisk

/-! What the alarm leaves of the core, whenever it rings. -/
namespace Opencore
open Machine Elf

variable {a : Arch} {view : ProcessView a} {plan : ℕ → WriteResult}

section Calls

/-- What a call does to the dumper and the file if none fails; `none` is a fault. -/
def DumpCall.perform (view : ProcessView a) (plan : ℕ → WriteResult) (p : Dumper a × FILE) :
    DumpCall → Option (Dumper a × FILE)
  | member call => call.perform view p.1 p.2
  | fopen => some (p.1, FILE.create plan)
  | opendir => some (stopTheWorld p.1 view, p.2)
  | readdir entries => some (entries.foldl (fun d tid => stopTheThread d view.attach tid) p.1, p.2)
  | attach tid => some (stopTheThread p.1 view.attach tid, p.2)
  | push_back ts => some ({ p.1 with threads := p.1.threads ++ [ts] }, p.2)
  | _ => some p

def performCalls (view : ProcessView a) (plan : ℕ → WriteResult) (calls : List DumpCall)
    (p : Dumper a × FILE) : Option (Dumper a × FILE) :=
  calls.foldlM (DumpCall.perform view plan) p

theorem performCalls_cons {call : DumpCall} {calls : List DumpCall} {p q : Dumper a × FILE}
    (h : call.perform view plan p = some q) :
    performCalls view plan (call :: calls) p = performCalls view plan calls q := by
  rw [performCalls, List.foldlM_cons, h]
  rfl

theorem performCalls_attach (tid : Tid) (calls : List DumpCall) (p : Dumper a × FILE) :
    performCalls view plan (.attach tid :: calls) p =
      performCalls view plan calls (stopTheThread p.1 view.attach tid, p.2) :=
  performCalls_cons rfl

theorem performCalls_append (calls rest : List DumpCall) (p : Dumper a × FILE) :
    performCalls view plan (calls ++ rest) p =
      (performCalls view plan calls p).bind (performCalls view plan rest) :=
  List.foldlM_append

theorem performCalls_members (calls : List MemberCall) (p : Dumper a × FILE) :
    performCalls view plan (calls.map .member) p =
      calls.foldlM (fun p call => call.perform view p.1 p.2) p :=
  List.foldlM_map

/-- Without failing calls the child makes the core that `doCoredump` describes. -/
theorem performCalls_dumpCalls (d : Dumper a) :
    performCalls view plan dumpCalls (d, FILE.create plan) = doCoredump d view plan := by
  have hends (p : Dumper a × FILE) :
      performCalls view plan [.fflush, .fsync, .fclose] p = some p := rfl
  have hstopped : performCalls view plan dumpCalls (d, FILE.create plan) =
      performCalls view plan (memberCalls.map .member ++ [.fflush, .fsync, .fclose])
        (stopTheWorld (prepare d) view, FILE.create plan) := by
    rw [dumpCalls, performCalls_cons (q := (prepare d, FILE.create plan)) rfl,
      performCalls_cons (q := (prepare d, FILE.create plan)) rfl,
      performCalls_cons (q := (stopTheWorld (prepare d) view, FILE.create plan)) rfl]
  rw [hstopped, performCalls_append, performCalls_members, foldlM_memberCalls, funext hends]
  cases doCoredump d view plan <;> rfl

theorem MemberCall.perform_append {call : MemberCall} {d d' : Dumper a} {fp fp' : FILE}
    (hfp : fp.Appending) (h : call.perform view d fp = some (d', fp')) :
    ∃ b, fp' = fp.append b := by
  cases call with
  | CreateCorePrStatus =>
    obtain ⟨d₁, -, heq⟩ := Option.map_eq_some_iff.mp h
    obtain ⟨-, rfl⟩ := Prod.mk.inj heq
    exact ⟨[], (FILE.append_nil hfp).symm⟩
  | SpecialCoreFilter =>
    obtain ⟨d₁, -, heq⟩ := Option.map_eq_some_iff.mp h
    obtain ⟨-, rfl⟩ := Prod.mk.inj heq
    exact ⟨[], (FILE.append_nil hfp).symm⟩
  | WriteCoreHeader =>
    obtain ⟨-, rfl⟩ := Prod.mk.inj (Option.some.inj h)
    exact ⟨_, writeCoreHeader_eq hfp d⟩
  | WriteCoreNoteHeader =>
    obtain ⟨-, rfl⟩ := Prod.mk.inj (Option.some.inj h)
    exact ⟨_, FILE.write_eq hfp _⟩
  | WriteCoreProgramHeaders =>
    have hfile : (writeCoreProgramHeaders d fp).2 = fp' := congrArg Prod.snd (Option.some.inj h)
    rw [← hfile, writeCoreProgramHeaders]
    split_ifs
    · exact ⟨[], (FILE.append_nil hfp).symm⟩
    · exact ⟨_, FILE.foldl_write hfp _ _⟩
  | WriteCorePrStatus =>
    obtain ⟨-, rfl⟩ := Prod.mk.inj (Option.some.inj h)
    exact ⟨_, writeCorePrStatus_eq hfp d view⟩
  | WriteCoreAUXV =>
    obtain ⟨-, rfl⟩ := Prod.mk.inj (Option.some.inj h)
    exact ⟨_, writeCoreAUXV_eq hfp d⟩
  | WriteNtFile =>
    obtain ⟨-, rfl⟩ := Prod.mk.inj (Option.some.inj h)
    exact ⟨_, writeNtFile_eq hfp d⟩
  | AlignNoteSegment =>
    obtain ⟨-, rfl⟩ := Prod.mk.inj (Option.some.inj h)
    exact ⟨_, FILE.write_eq hfp _⟩
  | WriteCoreLoadSegment =>
    obtain ⟨-, rfl⟩ := Prod.mk.inj (Option.some.inj h)
    cases view.mem with
    | none => exact ⟨[], (FILE.append_nil hfp).symm⟩
    | some mem => exact ⟨_, writeSegments_eq hfp mem _ _⟩
  | _ =>
    obtain ⟨-, rfl⟩ := Prod.mk.inj (Option.some.inj h)
    exact ⟨[], (FILE.append_nil hfp).symm⟩

theorem DumpCall.perform_append {call : DumpCall} {p q : Dumper a × FILE} (hfp : p.2.Appending)
    (hcall : call ≠ .fopen) (h : call.perform view plan p = some q) :
    ∃ b, q.2 = p.2.append b := by
  have hsame : p.2 = p.2.append [] := (FILE.append_nil hfp).symm
  cases call with
  | member call => exact MemberCall.perform_append hfp h
  | fopen => exact absurd rfl hcall
  | _ =>
    obtain rfl := Option.some.inj h
    exact ⟨[], hsame⟩

/-- What is in the file stays in it while the calls that are ahead are made. -/
theorem performCalls_part {calls : List DumpCall} {p q : Dumper a × FILE} (hfp : p.2.Appending)
    (hcalls : .fopen ∉ calls) (h : performCalls view plan calls p = some q) :
    p.2.content <+: q.2.content := by
  induction calls generalizing p with
  | nil =>
    obtain rfl := Option.some.inj h
    exact List.prefix_refl _
  | cons call calls ih =>
    rw [performCalls, List.foldlM_cons] at h
    obtain ⟨r, hcall, hrest⟩ := Option.bind_eq_some_iff.mp h
    rw [List.mem_cons, not_or] at hcalls
    obtain ⟨b, hb⟩ := call.perform_append hfp (Ne.symm hcalls.1) hcall
    have hpart := ih (hb ▸ hfp.append b) hcalls.2 hrest
    rw [hb, FILE.content_append] at hpart
    exact (List.prefix_append _ _).trans hpart

end Calls

section Interrupted

/-- The file is open, or it is empty and `fopen` is still ahead. -/
def Opened (calls : List DumpCall) (fp : FILE) : Prop :=
  .fopen ∉ calls ∨ fp.content = [] ∧ (calls = dumpCalls ∨ calls = dumpCalls.tail)

theorem Opened.rest {call : DumpCall} {rest : List DumpCall} {fp : FILE}
    (h : Opened (call :: rest) fp) (hfirst : call ≠ .member .Prepare) (hfopen : call ≠ .fopen) :
    .fopen ∉ rest := by
  rcases h with hnot | ⟨-, hcalls | hcalls⟩
  · exact fun hmem => hnot (List.mem_cons_of_mem call hmem)
  · exact absurd (List.cons.inj hcalls).1 hfirst
  · exact absurd (List.cons.inj hcalls).1 hfopen

/-- A child that is to write this core, after these events. -/
def OnTheWay (view : ProcessView a) (plan : ℕ → WriteResult) (core : Dumper a × FILE)
    (past : List ChildEvent) (s : ChildState a) : Prop :=
  match s.stage with
  | .doCoredump calls =>
    performCalls view plan calls (s.d, s.fp) = some core ∧ Opened calls s.fp ∨
      calls = [] ∧ .fopenFails ∈ past ∧ s.fp.content = []
  | _ => s.fp = core.2 ∨
    (.alarm ∈ past ∨ .fopenFails ∈ past) ∧ s.fp.content <+: core.2.content

variable {core : Dumper a × FILE} {past : List ChildEvent} {s t : ChildState a} {e : ChildEvent}

theorem OnTheWay.part (h : OnTheWay view plan core past s) (hfp : s.fp.Appending) :
    s.fp.content <+: core.2.content := by
  have hempty (hnil : s.fp.content = []) : s.fp.content <+: core.2.content :=
    hnil ▸ List.nil_prefix
  have hdone (hend : s.fp = core.2 ∨
      (.alarm ∈ past ∨ .fopenFails ∈ past) ∧ s.fp.content <+: core.2.content) :
      s.fp.content <+: core.2.content := by
    rcases hend with heq | ⟨-, hpart⟩
    · exact heq ▸ List.prefix_refl _
    · exact hpart
  unfold OnTheWay at h
  cases hstage : s.stage with
  | doCoredump calls =>
    rw [hstage] at h
    rcases h with ⟨hperform, hnot | ⟨hnil, -⟩⟩ | ⟨-, -, hnil⟩
    · exact performCalls_part hfp hnot hperform
    · exact hempty hnil
    · exact hempty hnil
  | finish calls =>
    rw [hstage] at h
    exact hdone h
  | exited =>
    rw [hstage] at h
    exact hdone h

theorem OnTheWay.head (h : OnTheWay view plan core past s) {call : DumpCall}
    {rest : List DumpCall} (hs : s.stage = .doCoredump (call :: rest)) :
    performCalls view plan (call :: rest) (s.d, s.fp) = some core ∧
      Opened (call :: rest) s.fp := by
  unfold OnTheWay at h
  rw [hs] at h
  exact h.resolve_right fun hnil => List.cons_ne_nil _ _ hnil.1

/-- A call that is not one of the first two, and leaves the file as it is. -/
theorem OnTheWay.call (h : OnTheWay view plan core past s) {call : DumpCall}
    {rest rest' : List DumpCall} (hs : s.stage = .doCoredump (call :: rest))
    (ht : t.stage = .doCoredump rest') (hfirst : call ≠ .member .Prepare)
    (hfopen : call ≠ .fopen) (hrest : .fopen ∉ rest → .fopen ∉ rest')
    (hperform : performCalls view plan rest' (t.d, t.fp) =
      performCalls view plan (call :: rest) (s.d, s.fp)) :
    OnTheWay view plan core (past ++ [e]) t := by
  obtain ⟨hcore, hopened⟩ := h.head hs
  unfold OnTheWay
  rw [ht]
  exact Or.inl ⟨hperform.trans hcore, Or.inl (hrest (hopened.rest hfirst hfopen))⟩

theorem OnTheWay.finish (h : OnTheWay view plan core past s)
    (hs : ∀ calls, s.stage ≠ .doCoredump calls) (ht : ∀ calls, t.stage ≠ .doCoredump calls)
    (hfp : t.fp = s.fp) : OnTheWay view plan core (past ++ [e]) t := by
  have hend : s.fp = core.2 ∨
      (.alarm ∈ past ∨ .fopenFails ∈ past) ∧ s.fp.content <+: core.2.content := by
    unfold OnTheWay at h
    cases hstage : s.stage with
    | doCoredump calls => exact absurd hstage (hs calls)
    | finish calls => rwa [hstage] at h
    | exited => rwa [hstage] at h
  have hmore : t.fp = core.2 ∨ (.alarm ∈ past ++ [e] ∨ .fopenFails ∈ past ++ [e]) ∧
      t.fp.content <+: core.2.content := by
    rw [hfp]
    refine hend.imp_right fun hpart => ⟨?_, hpart.2⟩
    exact hpart.1.imp (List.mem_append_left _) (List.mem_append_left _)
  unfold OnTheWay
  cases hstage : t.stage with
  | doCoredump calls => exact absurd hstage (ht calls)
  | finish calls => exact hmore
  | exited => exact hmore

theorem onTheWay_member (h : OnTheWay view plan core past s) {call : MemberCall}
    {rest : List DumpCall} {d : Dumper a} {fp : FILE}
    (hs : s.stage = .doCoredump (.member call :: rest))
    (hperform : call.perform view s.d s.fp = some (d, fp)) :
    OnTheWay view plan core (past ++ [e])
      { s with d := d, fp := fp, stage := .doCoredump rest } := by
  obtain ⟨hcore, hopened⟩ := h.head hs
  have hcall : (DumpCall.member call).perform view plan (s.d, s.fp) = some (d, fp) := hperform
  rw [performCalls_cons hcall] at hcore
  refine Or.inl ⟨hcore, ?_⟩
  rcases hopened with hnot | ⟨hnil, hcalls | hcalls⟩
  · exact Or.inl fun hmem => hnot (List.mem_cons_of_mem _ hmem)
  · -- `Prepare`, in front of `fopen`
    obtain ⟨hfirst, rfl⟩ := List.cons.inj hcalls
    obtain rfl := DumpCall.member.inj hfirst
    obtain ⟨-, rfl⟩ := Prod.mk.inj (Option.some.inj hperform)
    exact Or.inr ⟨hnil, Or.inr rfl⟩
  · cases (List.cons.inj hcalls).1

theorem onTheWay_fopen (h : OnTheWay view plan core past s) {rest : List DumpCall}
    (hs : s.stage = .doCoredump (.fopen :: rest)) :
    OnTheWay view plan core (past ++ [e])
      { s with fp := FILE.create plan, stage := .doCoredump rest } := by
  obtain ⟨hcore, hopened⟩ := h.head hs
  have hrest : performCalls view plan rest (s.d, FILE.create plan) = some core := hcore
  refine Or.inl ⟨hrest, Or.inl ?_⟩
  rcases hopened with hnot | ⟨-, hcalls | hcalls⟩
  · exact absurd List.mem_cons_self hnot
  · cases (List.cons.inj hcalls).1
  · obtain ⟨-, rfl⟩ := List.cons.inj hcalls
    simp

theorem onTheWay_step (hok : ∀ n, plan n = .ok) (h : OnTheWay view plan core past s)
    (hfp : s.fp.Appending) (he : e ≠ .opendirFails) (hstep : ChildStep view plan s e t) :
    OnTheWay view plan core (past ++ [e]) t ∧ t.fp.Appending := by
  cases hstep with
  | member hs hperform =>
    obtain ⟨b, rfl⟩ := MemberCall.perform_append hfp hperform
    exact ⟨onTheWay_member h hs hperform, hfp.append b⟩
  | fopen hs => exact ⟨onTheWay_fopen h hs, FILE.appending_create hok⟩
  | fopenFails hs =>
    refine ⟨Or.inr ⟨rfl, by simp, ?_⟩, hfp⟩
    obtain ⟨-, hnot | ⟨hnil, -⟩⟩ := h.head hs
    · exact absurd List.mem_cons_self hnot
    · exact hnil
  | opendir hs => exact ⟨h.call hs rfl (by simp) (by simp) (by simp) rfl, hfp⟩
  | opendirFails hs => exact absurd rfl he
  | readdir hs => exact ⟨h.call hs rfl (by simp) (by simp) (by simp) rfl, hfp⟩
  | readdirEnds hs => exact ⟨h.call hs rfl (by simp) (by simp) id rfl, hfp⟩
  | @attach tid rest hs hattach =>
    refine ⟨h.call hs rfl (by simp) (by simp) (by simp) ?_, hfp⟩
    rw [performCalls_attach, stopTheThread, hattach]
    rfl
  | @attachFails tid rest hs hattach =>
    refine ⟨h.call hs rfl (by simp) (by simp) (by simp) ?_, hfp⟩
    rw [performCalls_attach, stopTheThread, hattach]
    rfl
  | push_back hs => exact ⟨h.call hs rfl (by simp) (by simp) id rfl, hfp⟩
  | waitpid hs => exact ⟨h.call hs rfl (by simp) (by simp) id rfl, hfp⟩
  | closedir hs => exact ⟨h.call hs rfl (by simp) (by simp) id rfl, hfp⟩
  | fflush hs => exact ⟨h.call hs rfl (by simp) (by simp) id rfl, hfp⟩
  | fsync hs => exact ⟨h.call hs rfl (by simp) (by simp) id rfl, hfp⟩
  | fclose hs => exact ⟨h.call hs rfl (by simp) (by simp) id rfl, hfp⟩
  | returned hs =>
    refine ⟨?_, hfp⟩
    unfold OnTheWay at h
    rw [hs] at h
    rcases h with ⟨hcore, -⟩ | ⟨-, hfails, hnil⟩
    · exact Or.inl (congrArg Prod.snd (Option.some.inj hcore))
    · exact Or.inr ⟨Or.inr (List.mem_append_left _ hfails), hnil ▸ List.nil_prefix⟩
  | reset hs => exact ⟨h.finish (by simp [hs]) (by simp) rfl, hfp⟩
  | detach hs _ => exact ⟨h.finish (by simp [hs]) (by simp) rfl, hfp⟩
  | detachEnds hs _ => exact ⟨h.finish (by simp [hs]) (by simp) rfl, hfp⟩
  | clearThreads hs => exact ⟨h.finish (by simp [hs]) (by simp) rfl, hfp⟩
  | exit hs => exact ⟨h.finish (by simp [hs]) (by simp) rfl, hfp⟩
  | alarm _ _ => exact ⟨Or.inr ⟨Or.inl (by simp), h.part hfp⟩, hfp⟩

theorem onTheWay_run (hok : ∀ n, plan n = .ok) {d : Dumper a}
    (hdump : doCoredump d view plan = some core) {events : List ChildEvent}
    (hrun : Run (ChildStep view plan) (ChildState.initial d plan) events s)
    (hopen : .opendirFails ∉ events) : OnTheWay view plan core events s ∧ s.fp.Appending := by
  have hinitial : OnTheWay view plan core [] (ChildState.initial d plan) :=
    Or.inl ⟨(performCalls_dumpCalls d).trans hdump, Or.inr ⟨rfl, Or.inl rfl⟩⟩
  have hstart : ChildEvent.opendirFails ∉ [] →
      OnTheWay view plan core [] (ChildState.initial d plan) ∧
        (ChildState.initial d plan).fp.Appending :=
    fun _ => ⟨hinitial, FILE.appending_create hok⟩
  refine hrun.history
    (I := fun past s => .opendirFails ∉ past → OnTheWay view plan core past s ∧ s.fp.Appending)
    ?_ hstart hopen
  · intro past s e t h hstep hpast
    rw [List.mem_append, not_or, List.mem_singleton] at hpast
    obtain ⟨hway, hfp⟩ := h hpast.1
    exact onTheWay_step hok hway hfp (Ne.symm hpast.2) hstep

/-- Whenever the alarm rings, the file has the beginning of the core, and a child that exits
without the alarm, and could open the file, has written all of it. -/
theorem timeout_part (hok : ∀ n, plan n = .ok) {d : Dumper a}
    (hdump : doCoredump d view plan = some core) {events : List ChildEvent}
    (hrun : Run (ChildStep view plan) (ChildState.initial d plan) events s)
    (hopen : .opendirFails ∉ events) :
    s.fp.content <+: core.2.content ∧
      (s.stage = .exited → .alarm ∉ events → .fopenFails ∉ events → s.fp = core.2) := by
  obtain ⟨hway, hfp⟩ := onTheWay_run hok hdump hrun hopen
  refine ⟨hway.part hfp, fun hexit halarm hfopen => ?_⟩
  unfold OnTheWay at hway
  rw [hexit] at hway
  exact hway.resolve_right fun hcut => hcut.1.elim halarm hfopen

def writtenEvents (calls : ℕ) : List ChildEvent :=
  [.member, .fopen, .opendir, .readdirEnds, .closedir] ++ List.replicate calls .member

/-- The alarm rings behind the headers. -/
theorem timeout_part_headers : ∃ s core,
    doCoredump (Dumper.new .arm64 4096) (onePageProcess .arm64 []) (fun _ => .ok) = some core ∧
    Run (ChildStep (onePageProcess .arm64 []) fun _ => .ok)
      (ChildState.initial (Dumper.new .arm64 4096) fun _ => .ok)
      (writtenEvents 9 ++ timeoutEvents []) s ∧ s.stage = .exited ∧
    s.fp.content.length = 176 ∧ s.fp.content <+: core.2.content := by
  obtain ⟨d1, -, -, -, -, -, hdump⟩ := doCoredump_unfiltered (fresh_new .arm64 4096) rfl
    (onePageProcess .arm64 []) (by decide) (fun _ => .ok)
  obtain ⟨s, hrun, hexit, hlen⟩ : ∃ s, Run (ChildStep (onePageProcess .arm64 []) fun _ => .ok)
      (ChildState.initial (Dumper.new .arm64 4096) fun _ => .ok)
      (writtenEvents 9 ++ timeoutEvents []) s ∧ s.stage = .exited ∧
      s.fp.content.length = 176 := by
    refine ⟨_, .cons (.member rfl rfl) (.cons (.fopen rfl) (.cons (.opendir rfl)
      (.cons (.readdirEnds rfl) (.cons (.closedir rfl) (.cons (.member rfl rfl)
      (.cons (.member rfl rfl) (.cons (.member rfl rfl) (.cons (.member rfl rfl)
      (.cons (.member rfl rfl) (.cons (.member rfl rfl) (.cons (.member rfl rfl)
      (.cons (.member rfl rfl) (.cons (.member rfl rfl)
      (.cons (.alarm nofun rfl) (.cons (.reset rfl) (.cons (.reset rfl) (.cons (.reset rfl)
      (.cons (.reset rfl) (.cons (.reset rfl) (.cons (.detachEnds rfl rfl)
      (.cons (.clearThreads rfl) (.cons (.reset rfl) (.cons (.reset rfl) (.cons (.reset rfl)
      (.cons (.exit rfl) (.nil _)))))))))))))))))))))))))), rfl, ?_⟩
    decide +kernel
  have hopen : .opendirFails ∉ writtenEvents 9 ++ timeoutEvents [] := by
    simp [writtenEvents, timeoutEvents]
  exact ⟨s, _, hdump, hrun, hexit, hlen, (timeout_part (fun _ => rfl) hdump hrun hopen).1⟩

end Interrupted

end Opencore
