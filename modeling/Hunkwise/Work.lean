import Hunkwise.Buffer.Basic
import Hunkwise.Notice
import Hunkwise.Process.Basic

/-! The state of a formatting request: the buffer it works on, the commands it ran and the notices
it gave. All of it outlives an error. -/

namespace Hunkwise

structure Work where
  buffer : Buffer
  log : List Invocation := []
  notices : List Notice := []

abbrev Working (ε α : Type) := ExceptT ε (StateM Work) α

namespace Working

variable {ε α : Type}

def commands (act : Commands ε α) : Working ε α := fun w =>
  let (r, log) := act w.log
  (r, { w with log })

def give (n : Notice) : Working ε Unit := fun w => (.ok (), { w with notices := w.notices ++ [n] })

end Working

end Hunkwise
