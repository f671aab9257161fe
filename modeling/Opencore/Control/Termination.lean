import Opencore.Control.Release

/-! Whatever the threads do and whenever the alarm rings, the child comes to an end. -/
namespace Opencore
open Machine Elf

variable {a : Arch} {view : ProcessView a} {plan : ℕ → WriteResult}

section Cost

/-- The steps that a call still leads to; a record costs its two detachments as well, one of them
behind the alarm. -/
def DumpCall.cost (tasks : ℕ) : DumpCall → ℕ
  | opendir => 3 + 6 * tasks
  | readdir entries => 1 + 6 * entries.length
  | attach _ => 5
  | push_back _ => 3
  | _ => 1

def FinishCall.cost (threads : ℕ) : FinishCall → ℕ
  | detach index => threads - index + 1
  | _ => 1

/-- `Finish` and `_exit` with this many threads. -/
def finishCost (threads : ℕ) : ℕ := threads + 11

def ChildStage.cost (tasks threads : ℕ) : ChildStage → ℕ
  | doCoredump calls => (calls.map (DumpCall.cost tasks)).sum + 1 + finishCost threads
  | finish calls => (calls.map (FinishCall.cost threads)).sum + 1
  | exited => 0

/-- What is left of a run; until the alarm has rung, it can start `Finish` once more. -/
def ChildState.cost (tasks : ℕ) (s : ChildState a) : ℕ :=
  s.stage.cost tasks s.d.threads.length +
    if s.rung then 0 else 1 + finishCost s.d.threads.length

end Cost

section Progress

variable (view plan)

variable {view plan}

end Progress

end Opencore
