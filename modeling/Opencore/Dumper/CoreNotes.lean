import Opencore.Dumper.Agreement
import Opencore.Dumper.MapsText

/-! What a debugger finds in the notes of a core: the threads with their registers, and the
mappings of the process. -/
namespace Opencore
open Machine Elf

variable {a : Arch}

section Notes

variable {view : ProcessView a} {d d' : Dumper a} {fp : FILE} {plan : ℕ → WriteResult}

end Notes

section Threads

variable {view : ProcessView a} {d d' : Dumper a} {fp : FILE} {plan : ℕ → WriteResult}

end Threads

section Files

variable {view : ProcessView a} {d d' : Dumper a} {fp : FILE} {plan : ℕ → WriteResult}

end Files

end Opencore
