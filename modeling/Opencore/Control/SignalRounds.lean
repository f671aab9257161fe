import Opencore.Control.SignalHandling

/-! What becomes of each signal that `HandleSignal` gets, and in what order the dumps are. -/
namespace Opencore
open Machine

variable {H T : Type*} [DecidableEq T]

section Log

/-- What has become of the signal that the handler has at this point. -/
def HandlerPc.marks : HandlerPc → List CrashMark
  | lockHandle | lockSwitch | disable | dump => [.entered]
  | dumping => [.entered, .started]
  | raise => [.entered, .started, .finished]
  | unlockHandle | sigreturn => [.entered, .started, .finished, .raised]

def HandlerThread.marks (th : HandlerThread) : List (SignalIndex × CrashMark) :=
  match th.frame with
  | none => []
  | some (i, pc) => pc.marks.map (i, ·)

def fullRound (i : SignalIndex) : List (SignalIndex × CrashMark) :=
  [(i, .entered), (i, .started), (i, .finished), (i, .raised)]

/-- Every thread has dumped and raised its signals one after the other. -/
def Rounds (s : SignalState H T) : Prop :=
  ∀ t, ∃ rounds : List SignalIndex,
    s.logOf t = rounds.flatMap fullRound ++ (s.thread t).marks

variable {original : OriginalActions H} {s s' : SignalState H T} {t : T} {th : HandlerThread}
  {i : SignalIndex}

theorem HandlerThread.marks_of_frame {pc : HandlerPc} (h : th.frame = some (i, pc)) :
    th.marks = pc.marks.map (i, ·) := by
  rw [HandlerThread.marks, h]

theorem HandlerThread.marks_of_none (h : th.frame = none) : th.marks = [] := by
  rw [HandlerThread.marks, h]

theorem rounds_keep (h : Rounds s) (hlog : s'.log = s.log)
    (hthread : s'.thread = Function.update s.thread t th) (hmarks : th.marks = (s.thread t).marks) :
    Rounds s' := by
  intro u
  obtain ⟨rounds, hrounds⟩ := h u
  refine ⟨rounds, ?_⟩
  rw [SignalState.logOf, hlog, hthread]
  by_cases hu : u = t
  · subst hu
    rw [Function.update_self, hmarks]
    exact hrounds
  · rw [Function.update_of_ne hu]
    exact hrounds

theorem rounds_mark {m : CrashMark} (h : Rounds s) (hlog : s'.log = s.log ++ [(t, i, m)])
    (hthread : s'.thread = Function.update s.thread t th)
    (hmarks : th.marks = (s.thread t).marks ++ [(i, m)]) : Rounds s' := by
  intro u
  obtain ⟨rounds, hrounds⟩ := h u
  refine ⟨rounds, ?_⟩
  rw [SignalState.logOf, hlog, hthread, List.filter_append, List.map_append]
  by_cases hu : u = t
  · subst hu
    rw [Function.update_self, hmarks, ← List.append_assoc, ← hrounds]
    simp [SignalState.logOf]
  · have hother : [(t, i, m)].filter (fun m => decide (m.1 = u)) = [] := by
      simp [Ne.symm hu]
    rw [Function.update_of_ne hu, hother, List.map_nil, List.append_nil]
    exact hrounds

theorem rounds_close (h : Rounds s) (hlog : s'.log = s.log)
    (hthread : s'.thread = Function.update s.thread t th)
    (hfull : (s.thread t).marks = fullRound i) (hmarks : th.marks = []) : Rounds s' := by
  intro u
  obtain ⟨rounds, hrounds⟩ := h u
  rw [SignalState.logOf, hlog, hthread]
  by_cases hu : u = t
  · subst hu
    refine ⟨rounds ++ [i], ?_⟩
    rw [Function.update_self, hmarks, List.append_nil, List.flatMap_append,
      List.flatMap_singleton, ← hfull]
    exact hrounds
  · refine ⟨rounds, ?_⟩
    rw [Function.update_of_ne hu]
    exact hrounds

theorem rounds_handle (h : Rounds s) (hstep : HandleStep s t s') : Rounds s' := by
  cases hstep with
  | lockHandle hframe _ =>
    exact rounds_keep h rfl rfl (HandlerThread.marks_of_frame hframe).symm
  | lockSwitch hframe _ =>
    exact rounds_keep h rfl rfl (HandlerThread.marks_of_frame hframe).symm
  | disable hframe => exact rounds_keep h rfl rfl (HandlerThread.marks_of_frame hframe).symm
  | dump hframe =>
    exact rounds_mark h rfl rfl (by rw [HandlerThread.marks_of_frame hframe]; rfl)
  | dumping hframe =>
    exact rounds_mark h rfl rfl (by rw [HandlerThread.marks_of_frame hframe]; rfl)
  | raise hframe =>
    exact rounds_mark h rfl rfl (by rw [HandlerThread.marks_of_frame hframe]; rfl)
  | unlockHandle hframe => exact rounds_keep h rfl rfl (HandlerThread.marks_of_frame hframe).symm
  | sigreturn hframe =>
    exact rounds_close h rfl rfl (HandlerThread.marks_of_frame hframe) rfl

theorem rounds_move {e : SignalEvent T} (h : Rounds s) (hstep : SignalMove s e s') :
    Rounds s' := by
  cases hstep with
  | caught hruns _ =>
    exact rounds_mark h rfl rfl (by rw [HandlerThread.marks_of_none hruns.1]; rfl)
  | passed _ _ => exact h
  | blocked _ => exact rounds_keep h rfl rfl rfl
  | caughtAgain hframe _ _ =>
    exact rounds_mark h rfl rfl (by rw [HandlerThread.marks_of_none hframe]; rfl)
  | handedOver _ _ _ => exact rounds_keep h rfl rfl rfl
  | handle hhandle => exact rounds_handle h hhandle
  | call _ _ => exact rounds_keep h rfl rfl rfl
  | enter _ _ _ => exact rounds_keep h rfl rfl rfl
  | leave _ _ => exact rounds_keep h rfl rfl rfl

def SignalState.dumpLog (s : SignalState H T) : List (T × SignalIndex × CrashMark) :=
  s.log.filter fun m => m.2.2 = .started ∨ m.2.2 = .finished

def HandlerThread.Dumping (th : HandlerThread) (i : SignalIndex) : Prop :=
  th.frame = some (i, .dumping)

inductive CurrentDump (s : SignalState H T) : List (T × SignalIndex × CrashMark) → Prop
  | none : (∀ u j, ¬ (s.thread u).Dumping j) → CurrentDump s []
  | one {u j} : (s.thread u).Dumping j → CurrentDump s [(u, j, .started)]

def dumpPair (d : T × SignalIndex) : List (T × SignalIndex × CrashMark) :=
  [(d.1, d.2, .started), (d.1, d.2, .finished)]

/-- Every dump ends before the next one starts. -/
def DumpsApart (s : SignalState H T) : Prop :=
  ∃ (done : List (T × SignalIndex)) (current : List (T × SignalIndex × CrashMark)),
    s.dumpLog = done.flatMap dumpPair ++ current ∧ CurrentDump s current

theorem dumpsApart_keep (h : DumpsApart s) (hlog : s'.dumpLog = s.dumpLog)
    (hthread : s'.thread = Function.update s.thread t th)
    (hdumping : ∀ i, th.Dumping i ↔ (s.thread t).Dumping i) : DumpsApart s' := by
  obtain ⟨done, current, hdone, hcurrent⟩ := h
  have hsame : ∀ u i, (s'.thread u).Dumping i ↔ (s.thread u).Dumping i := by
    intro u i
    rw [hthread]
    by_cases hu : u = t
    · subst hu
      rw [Function.update_self]
      exact hdumping i
    · rw [Function.update_of_ne hu]
  refine ⟨done, current, hlog.trans hdone, ?_⟩
  cases hcurrent with
  | none hnone => exact .none fun u i => (hsame u i).not.mpr (hnone u i)
  | one hone => exact .one ((hsame _ _).mpr hone)

omit [DecidableEq T] in
/-- The handler mutex lets one thread dump at a time. -/
theorem dumping_unique (h : SignalInv original s) {u : T} {j : SignalIndex}
    (hu : (s.thread u).Dumping j) {pc : HandlerPc} (ht : (s.thread t).frame = some (i, pc))
    (hpc : pc.holdsHandle = true) : u = t :=
  h.handle.exclusive (HandlerThread.holds_frame hu).1
    ((HandlerThread.holds_frame ht).1.trans hpc)

theorem dumping_goTo {pc pc' : HandlerPc} (hframe : th.frame = some (i, pc)) (h : pc ≠ .dumping)
    (h' : pc' ≠ .dumping) (j : SignalIndex) : (th.goTo i pc').Dumping j ↔ th.Dumping j := by
  refine iff_of_false (fun hj => ?_) fun hj => ?_
  · exact h' (Prod.mk.inj (Option.some.inj hj)).2
  · exact h (Prod.mk.inj (Option.some.inj (hframe.symm.trans hj))).2

omit [DecidableEq T] in
theorem dumpLog_append (log : List (T × SignalIndex × CrashMark)) (m : T × SignalIndex × CrashMark)
    (hlog : s'.log = log ++ [m]) : s'.dumpLog =
      log.filter (fun m => m.2.2 = .started ∨ m.2.2 = .finished) ++
        if m.2.2 = .started ∨ m.2.2 = .finished then [m] else [] := by
  rw [SignalState.dumpLog, hlog, List.filter_append]
  congr 1
  split_ifs with hm
  · exact List.filter_eq_self.mpr fun x hx => by
      rw [List.mem_singleton.mp hx]
      exact decide_eq_true hm
  · exact List.filter_eq_nil_iff.mpr fun x hx => by
      rw [List.mem_singleton.mp hx]
      exact fun htrue => hm (of_decide_eq_true htrue)

theorem dumpsApart_handle (hinv : SignalInv original s) (h : DumpsApart s)
    (hstep : HandleStep s t s') : DumpsApart s' := by
  cases hstep with
  | lockHandle hframe _ =>
    exact dumpsApart_keep h rfl rfl (dumping_goTo hframe (by decide) (by decide))
  | lockSwitch hframe _ =>
    exact dumpsApart_keep h rfl rfl (dumping_goTo hframe (by decide) (by decide))
  | disable hframe =>
    exact dumpsApart_keep h rfl rfl (dumping_goTo hframe (by decide) (by decide))
  | @dump i hframe =>
    obtain ⟨done, current, hdone, hcurrent⟩ := h
    cases hcurrent with
    | none hnone =>
      refine ⟨done, [(t, i, .started)], ?_, .one ?_⟩
      · rw [dumpLog_append s.log (t, i, .started) rfl, if_pos (Or.inl rfl)]
        rw [List.append_nil] at hdone
        exact congrArg (· ++ _) hdone
      · exact congrArg HandlerThread.frame (Function.update_self t _ s.thread)
    | one hone =>
      obtain rfl := dumping_unique hinv hone hframe rfl
      exact absurd (Prod.mk.inj (Option.some.inj (hframe.symm.trans hone))).2 (by decide)
  | @dumping i hframe =>
    obtain ⟨done, current, hdone, hcurrent⟩ := h
    cases hcurrent with
    | none hnone => exact absurd hframe (hnone t i)
    | @one u j hone =>
      obtain rfl := dumping_unique hinv hone hframe rfl
      obtain ⟨rfl, -⟩ := Prod.mk.inj (Option.some.inj (hframe.symm.trans hone))
      refine ⟨done ++ [(u, i)], [], ?_, .none fun v j hv => ?_⟩
      · rw [dumpLog_append s.log (u, i, .finished) rfl, if_pos (Or.inr rfl), List.flatMap_append,
          List.append_nil]
        exact (congrArg (· ++ _) hdone).trans (List.append_assoc _ _ _)
      · change (Function.update s.thread u ((s.thread u).goTo i .raise) v).Dumping j at hv
        by_cases hvu : v = u
        · rw [hvu, Function.update_self] at hv
          exact absurd (Prod.mk.inj (Option.some.inj hv)).2 (by decide)
        · rw [Function.update_of_ne hvu] at hv
          exact hvu (dumping_unique hinv hv hframe rfl)
  | raise hframe =>
    refine dumpsApart_keep h ?_ rfl (dumping_goTo hframe (by decide) (by decide))
    exact (dumpLog_append s.log _ rfl).trans (List.append_nil _)
  | unlockHandle hframe =>
    exact dumpsApart_keep h rfl rfl (dumping_goTo hframe (by decide) (by decide))
  | sigreturn hframe =>
    refine dumpsApart_keep h rfl rfl fun j => iff_of_false nofun fun hj => ?_
    exact absurd (Prod.mk.inj (Option.some.inj (hframe.symm.trans hj))).2 (by decide)

theorem dumpsApart_move {e : SignalEvent T} (hinv : SignalInv original s) (h : DumpsApart s)
    (hstep : SignalMove s e s') : DumpsApart s' := by
  have hnone {t : T} (hframe : (s.thread t).frame = none) (j : SignalIndex) :
      ¬ (s.thread t).Dumping j := fun hj => nomatch hframe.symm.trans hj
  have hentered {i : SignalIndex} (th : HandlerThread) (j : SignalIndex) :
      ¬ (th.goTo i .lockHandle).Dumping j := fun hj =>
    absurd (Prod.mk.inj (Option.some.inj hj)).2 (by decide)
  cases hstep with
  | @caught t i hruns _ =>
    refine dumpsApart_keep h ?_ rfl fun j => iff_of_false (hentered _ j) (hnone hruns.1 j)
    exact (dumpLog_append s.log _ rfl).trans (List.append_nil _)
  | @passed t i _ _ =>
    exact dumpsApart_keep h rfl (Function.update_eq_self t s.thread).symm fun _ => Iff.rfl
  | blocked _ => exact dumpsApart_keep h rfl rfl fun _ => Iff.rfl
  | @caughtAgain t i hframe _ _ =>
    refine dumpsApart_keep h ?_ rfl fun j => iff_of_false (hentered _ j) (hnone hframe j)
    exact (dumpLog_append s.log _ rfl).trans (List.append_nil _)
  | handedOver _ _ _ => exact dumpsApart_keep h rfl rfl fun _ => Iff.rfl
  | handle hhandle => exact dumpsApart_handle hinv h hhandle
  | call _ _ => exact dumpsApart_keep h rfl rfl fun _ => Iff.rfl
  | enter _ _ _ => exact dumpsApart_keep h rfl rfl fun _ => Iff.rfl
  | leave _ _ => exact dumpsApart_keep h rfl rfl fun _ => Iff.rfl

end Log

/-- In every run, each thread dumps every signal that the handler gets and raises it again, once
and in this order, and no dump starts before the one of another thread has ended. -/
theorem signal_dumps {original : OriginalActions H} {es : List (SignalEvent T)}
    {s : SignalState H T} (hrun : Run SignalStep (SignalState.initial T original) es s) :
    Rounds s ∧ DumpsApart s := by
  have hinv : SignalInv original s ∧ Rounds s ∧ DumpsApart s := by
    refine Run.invariant (I := fun s => SignalInv original s ∧ Rounds s ∧ DumpsApart s) ?_ hrun ?_
    · rintro s e s' ⟨hinv, hrounds, hdumps⟩ hstep
      exact ⟨signalInv_step hinv hstep, rounds_move hrounds hstep.2,
        dumpsApart_move hinv hdumps hstep.2⟩
    · exact ⟨signalInv_initial original, fun t => ⟨[], rfl⟩, [], [], rfl, .none nofun⟩
  exact hinv.2

def crashEvents : List (SignalEvent Unit) :=
  [.call () (.Enable fun _ => true), .enter (), .leave (), .signal () 0, .handle (), .handle (),
    .handle (), .handle (), .handle (), .handle (), .handle (), .handle (), .deliver () 0]

theorem signal_dumps_crash : ∃ s, Run SignalStep (SignalState.initial Unit defaultActions)
    crashEvents s ∧ s.killed = true ∧ Rounds s ∧ DumpsApart s := by
  obtain ⟨s, hrun, hkilled⟩ : ∃ s, Run SignalStep (SignalState.initial Unit defaultActions)
      crashEvents s ∧ s.killed = true := by
    refine ⟨_, .cons ⟨rfl, .call ⟨rfl, fun _ => rfl⟩ rfl⟩ <|
      .cons ⟨rfl, .enter ⟨rfl, fun _ => rfl⟩ rfl rfl⟩ <|
      .cons ⟨rfl, .leave ⟨rfl, fun _ => rfl⟩ rfl⟩ <|
      .cons ⟨rfl, .caught ⟨rfl, fun _ => rfl⟩ rfl⟩ <|
      .cons ⟨rfl, .handle (.lockHandle rfl rfl)⟩ <|
      .cons ⟨rfl, .handle (.lockSwitch rfl rfl)⟩ <|
      .cons ⟨rfl, .handle (.disable rfl)⟩ <|
      .cons ⟨rfl, .handle (.dump rfl)⟩ <|
      .cons ⟨rfl, .handle (.dumping rfl)⟩ <|
      .cons ⟨rfl, .handle (.raise rfl)⟩ <|
      .cons ⟨rfl, .handle (.unlockHandle rfl)⟩ <|
      .cons ⟨rfl, .handle (.sigreturn rfl)⟩ <|
      .cons ⟨rfl, .handedOver rfl rfl ?_⟩ (.nil _), rfl⟩
    change SignalHandler.SIG_DFL ≠ SignalHandler.HandleSignal
    intro h
    cases h
  exact ⟨s, hrun, hkilled, signal_dumps hrun⟩

end Opencore
