import Opencore.Machine.Transition

/-! `Opencore::Enable`, `Disable` and `IsEnabled`: the switch of the native crash handler. -/
namespace Opencore

variable {H : Type*}

/-- What `sa_handler` and `sa_sigaction` hold; `H` are the handlers of the application. -/
inductive SignalHandler (H : Type*)
  | SIG_DFL
  | SIG_IGN
  | HandleSignal
  | foreign (h : H)

structure Sigaction (H : Type*) where
  handler : SignalHandler H := .SIG_DFL
  sa_mask : List ℕ := []
  sa_flags : ℕ := 0

def SIGILL : ℕ := 4

def SIGTRAP : ℕ := 5

def SIGABRT : ℕ := 6

def SIGBUS : ℕ := 7

def SIGFPE : ℕ := 8

def SIGSEGV : ℕ := 11

abbrev kNumHandledSignals : ℕ := 6

def kExceptionSignals : Fin kNumHandledSignals → ℕ
  | 0 => SIGSEGV
  | 1 => SIGABRT
  | 2 => SIGFPE
  | 3 => SIGILL
  | 4 => SIGBUS
  | 5 => SIGTRAP

def SA_SIGINFO : ℕ := 0x4

def SA_ONSTACK : ℕ := 0x8000000

def SA_RESTART : ℕ := 0x10000000

/-- The action that `Enable` installs. -/
def stact (H : Type*) : Sigaction H where
  handler := .HandleSignal
  sa_mask := (List.finRange kNumHandledSignals).map kExceptionSignals
  sa_flags := SA_RESTART ||| SA_SIGINFO ||| SA_ONSTACK

/-- The two variables under `g_switch_lock`, and the actions that the kernel holds. -/
structure HandlerSwitch (H : Type*) where
  handlers_installed : Bool := false
  g_restore_action : Fin kNumHandledSignals → Sigaction H := fun _ => {}
  disposition : ℕ → Sigaction H

/-- The loop of queries. It stops at the first signal whose `sigaction` fails. -/
def storeActions (query : Fin kNumHandledSignals → Bool) (disposition : ℕ → Sigaction H) :
    List (Fin kNumHandledSignals) → (Fin kNumHandledSignals → Sigaction H) →
      Bool × (Fin kNumHandledSignals → Sigaction H)
  | [], table => (true, table)
  | i :: is, table =>
    if query i then
      storeActions query disposition is
        (Function.update table i (disposition (kExceptionSignals i)))
    else (false, table)

def setActions (action : Fin kNumHandledSignals → Sigaction H)
    (is : List (Fin kNumHandledSignals)) (disposition : ℕ → Sigaction H) : ℕ → Sigaction H :=
  is.foldl (fun disposition i => Function.update disposition (kExceptionSignals i) (action i))
    disposition

namespace HandlerSwitch

/-- `query` tells which of the queries succeed. -/
def Enable (query : Fin kNumHandledSignals → Bool) (s : HandlerSwitch H) :
    HandlerSwitch H × Bool :=
  if s.handlers_installed then (s, false)
  else
    match storeActions query s.disposition (List.finRange _) s.g_restore_action with
    | (false, table) => ({ s with g_restore_action := table }, false)
    | (true, table) =>
      ({ handlers_installed := true
         g_restore_action := table
         disposition := setActions (fun _ => stact H) (List.finRange _) s.disposition }, true)

def Disable (s : HandlerSwitch H) : HandlerSwitch H × Bool :=
  if s.handlers_installed then
    ({ handlers_installed := false
       g_restore_action := fun _ => {}
       disposition := setActions s.g_restore_action (List.finRange _) s.disposition }, true)
  else (s, false)

def IsEnabled (s : HandlerSwitch H) : Bool := s.handlers_installed

end HandlerSwitch

/-- A critical section of `g_switch_lock`. -/
inductive SwitchCall
  | Enable (query : Fin kNumHandledSignals → Bool)
  | Disable
  | IsEnabled
  /-- The `Disable` at the start of `HandleSignal`. -/
  | HandleSignal

def SwitchCall.run (s : HandlerSwitch H) : SwitchCall → HandlerSwitch H
  | Enable query => (s.Enable query).1
  | Disable => s.Disable.1
  | IsEnabled => s
  | HandleSignal => s.Disable.1

def runSwitch (s : HandlerSwitch H) (calls : List SwitchCall) : HandlerSwitch H :=
  calls.foldl SwitchCall.run s

/-- The actions before the first call. No one but `Enable` can name `HandleSignal`. -/
structure OriginalActions (H : Type*) where
  action : ℕ → Sigaction H
  foreign : ∀ sig, (action sig).handler ≠ .HandleSignal

def OriginalActions.switch (original : OriginalActions H) : HandlerSwitch H :=
  { disposition := original.action }

theorem kExceptionSignals_injective : Function.Injective kExceptionSignals := by
  unfold Function.Injective
  decide

theorem storeActions_fst (query : Fin kNumHandledSignals → Bool) (disposition : ℕ → Sigaction H)
    (is : List (Fin kNumHandledSignals)) (table : Fin kNumHandledSignals → Sigaction H) :
    (storeActions query disposition is table).1 = is.all query := by
  induction is generalizing table with
  | nil => rfl
  | cons i is ih =>
    unfold storeActions
    rw [List.all_cons]
    cases hq : query i with
    | false => rfl
    | true =>
      rw [if_pos rfl, ih]
      rfl

theorem storeActions_snd {query : Fin kNumHandledSignals → Bool} (disposition : ℕ → Sigaction H)
    {is : List (Fin kNumHandledSignals)} (table : Fin kNumHandledSignals → Sigaction H)
    (hall : is.all query = true) {i : Fin kNumHandledSignals}
    (hi : i ∈ is ∨ table i = disposition (kExceptionSignals i)) :
    (storeActions query disposition is table).2 i = disposition (kExceptionSignals i) := by
  induction is generalizing table with
  | nil =>
    rcases hi with hi | hi
    · exact absurd hi List.not_mem_nil
    · exact hi
  | cons j is ih =>
    rw [List.all_cons, Bool.and_eq_true] at hall
    unfold storeActions
    rw [if_pos hall.1]
    apply ih _ hall.2
    by_cases hij : i = j
    · right
      rw [hij, Function.update_self]
    · rw [Function.update_of_ne hij]
      rcases hi with hi | hi
      · exact Or.inl ((List.mem_cons.mp hi).resolve_left hij)
      · exact Or.inr hi

theorem setActions_other (action : Fin kNumHandledSignals → Sigaction H)
    {is : List (Fin kNumHandledSignals)} (disposition : ℕ → Sigaction H) {sig : ℕ}
    (hsig : ∀ i ∈ is, sig ≠ kExceptionSignals i) :
    setActions action is disposition sig = disposition sig := by
  induction is generalizing disposition with
  | nil => rfl
  | cons i is ih =>
    have hne := hsig i List.mem_cons_self
    have hrest := ih (Function.update disposition (kExceptionSignals i) (action i))
      (fun j hj => hsig j (List.mem_cons_of_mem i hj))
    rw [Function.update_of_ne hne] at hrest
    exact hrest

theorem setActions_apply (action : Fin kNumHandledSignals → Sigaction H)
    {is : List (Fin kNumHandledSignals)} (hnd : is.Nodup) {i : Fin kNumHandledSignals}
    (hi : i ∈ is) (disposition : ℕ → Sigaction H) :
    setActions action is disposition (kExceptionSignals i) = action i := by
  induction is generalizing disposition with
  | nil => exact absurd hi List.not_mem_nil
  | cons j is ih =>
    obtain ⟨hj, hnd⟩ := List.nodup_cons.mp hnd
    rcases List.mem_cons.mp hi with rfl | hi
    · have hrest : ∀ k ∈ is, kExceptionSignals i ≠ kExceptionSignals k := by
        intro k hk heq
        rw [kExceptionSignals_injective heq] at hj
        exact hj hk
      have hother := setActions_other action
        (Function.update disposition (kExceptionSignals i) (action i)) hrest
      rw [Function.update_self] at hother
      exact hother
    · exact ih hnd hi _

/-- The switch is off with the original actions, or on with all of them saved. -/
structure SwitchInv (original : OriginalActions H) (s : HandlerSwitch H) : Prop where
  off : s.handlers_installed = false → s.disposition = original.action
  dispatched : s.handlers_installed = true →
    ∀ i, s.disposition (kExceptionSignals i) = stact H
  saved : s.handlers_installed = true →
    ∀ i, s.g_restore_action i = original.action (kExceptionSignals i)
  others : ∀ sig, (∀ i, sig ≠ kExceptionSignals i) → s.disposition sig = original.action sig

theorem switchInv_initial (original : OriginalActions H) : SwitchInv original original.switch where
  off _ := rfl
  dispatched h := absurd h Bool.false_ne_true
  saved h := absurd h Bool.false_ne_true
  others _ _ := rfl

namespace HandlerSwitch

/-- What `Enable` does: nothing when the switch is on, and only to the table when a query
fails. -/
theorem Enable_cases (query : Fin kNumHandledSignals → Bool) (s : HandlerSwitch H) :
    (s.handlers_installed = true ∧ s.Enable query = (s, false)) ∨
    (s.handlers_installed = false ∧ (∃ i, query i = false) ∧
      ∃ table, s.Enable query = ({ s with g_restore_action := table }, false)) ∨
    (s.handlers_installed = false ∧ (∀ i, query i = true) ∧
      ∃ table, (∀ i, table i = s.disposition (kExceptionSignals i)) ∧
        s.Enable query = (⟨true, table,
          setActions (fun _ => stact H) (List.finRange _) s.disposition⟩, true)) := by
  unfold Enable
  cases hinst : s.handlers_installed with
  | true => exact Or.inl ⟨rfl, rfl⟩
  | false =>
    right
    rw [if_neg Bool.false_ne_true]
    have hfst := storeActions_fst query s.disposition (List.finRange _) s.g_restore_action
    rcases hstore : storeActions query s.disposition (List.finRange _) s.g_restore_action with
      ⟨stored, table⟩
    rw [hstore] at hfst
    cases stored with
    | false =>
      left
      obtain ⟨i, -, hi⟩ := List.all_eq_false.mp hfst.symm
      exact ⟨rfl, ⟨i, Bool.eq_false_of_not_eq_true hi⟩, table, rfl⟩
    | true =>
      right
      have hall : ∀ i, query i = true := fun i =>
        List.all_eq_true.mp hfst.symm i (List.mem_finRange i)
      refine ⟨rfl, hall, table, fun i => ?_, rfl⟩
      have hsnd := storeActions_snd s.disposition s.g_restore_action hfst.symm
        (Or.inl (List.mem_finRange i))
      rw [hstore] at hsnd
      exact hsnd

theorem switchInv_Enable {original : OriginalActions H} {s : HandlerSwitch H}
    (h : SwitchInv original s) (query : Fin kNumHandledSignals → Bool) :
    SwitchInv original (s.Enable query).1 := by
  rcases Enable_cases query s with ⟨-, heq⟩ | ⟨hoff, -, table, heq⟩ | ⟨hoff, -, table, htable, heq⟩
  · rw [heq]
    exact h
  · rw [heq]
    constructor
    · intro _
      exact h.off hoff
    · intro hon
      exact absurd (hoff.symm.trans hon) Bool.false_ne_true
    · intro hon
      exact absurd (hoff.symm.trans hon) Bool.false_ne_true
    · exact h.others
  · rw [heq]
    constructor
    · intro hoff'
      exact absurd hoff'.symm Bool.false_ne_true
    · intro _ i
      exact setActions_apply (fun _ => stact H) (List.nodup_finRange _) (List.mem_finRange i) _
    · intro _ i
      show table i = _
      rw [htable i, h.off hoff]
    · intro sig hsig
      exact (setActions_other _ _ fun i _ => hsig i).trans (h.others sig hsig)

theorem switchInv_Disable {original : OriginalActions H} {s : HandlerSwitch H}
    (h : SwitchInv original s) : SwitchInv original s.Disable.1 := by
  unfold Disable
  split_ifs with hon
  · constructor
    · intro _
      funext sig
      show setActions s.g_restore_action (List.finRange _) s.disposition sig = _
      by_cases hsig : ∃ i, sig = kExceptionSignals i
      · obtain ⟨i, rfl⟩ := hsig
        rw [setActions_apply _ (List.nodup_finRange _) (List.mem_finRange i), h.saved hon]
      · have hne : ∀ i, sig ≠ kExceptionSignals i := not_exists.mp hsig
        rw [setActions_other _ _ fun i _ => hne i, h.others sig hne]
    · intro hon'
      exact absurd hon' Bool.false_ne_true
    · intro hon'
      exact absurd hon' Bool.false_ne_true
    · intro sig hsig
      exact (setActions_other _ _ fun i _ => hsig i).trans (h.others sig hsig)
  · exact h

end HandlerSwitch

theorem switchInv_call {original : OriginalActions H} {s : HandlerSwitch H}
    (h : SwitchInv original s) (call : SwitchCall) : SwitchInv original (call.run s) := by
  cases call with
  | Enable query => exact HandlerSwitch.switchInv_Enable h query
  | Disable => exact HandlerSwitch.switchInv_Disable h
  | IsEnabled => exact h
  | HandleSignal => exact HandlerSwitch.switchInv_Disable h

theorem switchInv_run {original : OriginalActions H} {s : HandlerSwitch H}
    (h : SwitchInv original s) (calls : List SwitchCall) :
    SwitchInv original (runSwitch s calls) := by
  induction calls generalizing s with
  | nil => exact h
  | cons call calls ih => exact ih (switchInv_call h call)

/-- After any calls the flag tells whether `HandleSignal` gets the six signals. Without it
they have their original actions, and with it those are the ones that `Disable` puts back. An
`Enable` whose query fails changes neither. -/
theorem switch_correct (original : OriginalActions H) (calls : List SwitchCall) :
    let s := runSwitch original.switch calls
    (s.IsEnabled = true ↔
      ∀ i, (s.disposition (kExceptionSignals i)).handler = .HandleSignal) ∧
    (s.handlers_installed = false →
      ∀ i, s.disposition (kExceptionSignals i) = original.action (kExceptionSignals i)) ∧
    (s.handlers_installed = true →
      ∀ i, s.g_restore_action i = original.action (kExceptionSignals i) ∧
        (s.g_restore_action i).handler ≠ .HandleSignal) ∧
    ∀ query, s.handlers_installed = false → (∃ i, query i = false) →
      (s.Enable query).2 = false ∧ (s.Enable query).1.disposition = s.disposition ∧
        (s.Enable query).1.handlers_installed = false := by
  intro s
  have h : SwitchInv original s := switchInv_run (switchInv_initial original) calls
  refine ⟨⟨fun hon i => ?_, fun hall => ?_⟩, fun hoff i => ?_, fun hon i => ?_, ?_⟩
  · rw [h.dispatched hon i]
    rfl
  · by_contra hoff
    have hfirst := hall 0
    rw [h.off (Bool.eq_false_of_not_eq_true hoff)] at hfirst
    exact original.foreign _ hfirst
  · rw [h.off hoff]
  · rw [h.saved hon i]
    exact ⟨rfl, original.foreign _⟩
  · rintro query hoff ⟨i, hi⟩
    rcases s.Enable_cases query with ⟨hon, -⟩ | ⟨-, -, table, heq⟩ | ⟨-, hall, -⟩
    · exact absurd (hoff.symm.trans hon) Bool.false_ne_true
    · rw [heq]
      exact ⟨rfl, rfl, hoff⟩
    · exact absurd (hi.symm.trans (hall i)) Bool.false_ne_true

/-- Whatever was called before, the switch is on after an `Enable` whose queries succeed. -/
theorem installed_after_Enable (s : HandlerSwitch H) (calls : List SwitchCall) :
    (runSwitch s (calls ++ [.Enable fun _ => true])).handlers_installed = true := by
  unfold runSwitch
  rw [List.foldl_append]
  generalize calls.foldl SwitchCall.run s = s'
  show (s'.Enable fun _ => true).1.handlers_installed = true
  rcases s'.Enable_cases fun _ => true with ⟨hon, heq⟩ | ⟨-, ⟨i, hi⟩, -⟩ | ⟨-, -, table, -, heq⟩
  · rw [heq]
    exact hon
  · exact absurd hi.symm Bool.false_ne_true
  · rw [heq]

def foreignActions : OriginalActions ℕ := ⟨fun sig => { handler := .foreign sig }, fun _ => nofun⟩

/-- Enabled, given back by the handler, and not enabled for a query that fails. -/
def givenBackCalls : List SwitchCall :=
  [.Enable fun _ => true, .HandleSignal, .Enable fun i => kExceptionSignals i != SIGFPE]

theorem switch_correct_enabled :
    let s := runSwitch foreignActions.switch (givenBackCalls ++ [.Enable fun _ => true])
    s.handlers_installed = true ∧ (s.disposition SIGSEGV).handler = .HandleSignal ∧
      (s.g_restore_action 0).handler = .foreign SIGSEGV := by
  intro s
  have hon : s.handlers_installed = true := installed_after_Enable _ _
  obtain ⟨henabled, -, hsaved, -⟩ :=
    switch_correct foreignActions (givenBackCalls ++ [.Enable fun _ => true])
  refine ⟨hon, henabled.mp hon 0, ?_⟩
  rw [(hsaved hon 0).1]
  rfl

end Opencore
