import Libhelp.Lib.ByteMemory
import Libhelp.Lib.Word

/-!
# The title of the process

The model of `proc_init` and `proc_set_title`.  A vector of strings is the list of its
pointers, without the `NULL` that ends it.  The vectors lie elsewhere than the strings.
-/

namespace Libhelp

open CString

/-- The static variables of `proc.c`, with `environ` and the memory of the strings. -/
structure Proc where
  memory : ByteMemory
  environ : List ℕ
  procArgv : List ℕ
  procLast : ℕ

/-- `strlen(p) + 1` -/
def stringSize (memory : ByteMemory) (p : ℕ) : ℕ :=
  strlen (memory.bufferAt p) + 1

/-- The size `proc_init` passes to `malloc`. -/
def environSize (memory : ByteMemory) (environ : List ℕ) : ℕ :=
  environ.foldl (fun size p => add64 size (stringSize memory p)) 0

/-- The loop of `proc_init` over `argv`. -/
def argvLast (memory : ByteMemory) (argv : List ℕ) (procLast : ℕ) : ℕ :=
  argv.foldl (fun last p => if last = p then p + stringSize memory p else last) procLast

/-- The loop of `proc_init` over `environ`, with the entries it has passed. -/
structure EnvironLoop where
  memory : ByteMemory
  passed : List ℕ
  procLast : ℕ
  p : ℕ

def environStep (loop : EnvironLoop) (entry : ℕ) : EnvironLoop :=
  if loop.procLast = entry then
    let size := stringSize loop.memory entry
    { memory := loop.memory.memcpy loop.p (loop.memory.bufferAt entry) size
      passed := loop.passed ++ [loop.p]
      procLast := entry + size
      p := loop.p + size }
  else
    { loop with passed := loop.passed ++ [entry] }

/-- `proc_init`.  It returns whether it returns `OK`. -/
def procInit (proc : Proc) (argv : List ℕ) (malloc : ℕ → Option ℕ) : Bool × Proc :=
  let proc := { proc with procArgv := argv }
  match malloc (environSize proc.memory proc.environ) with
  | none => (false, proc)
  | some p =>
      let last := argvLast proc.memory argv (argv.headD 0)
      let loop := proc.environ.foldl environStep ⟨proc.memory, [], last, p⟩
      (true, { proc with
        memory := loop.memory
        environ := loop.passed
        procLast := sub64 loop.procLast 1 })

/-- `proc_set_title` -/
def procSetTitle (proc : Proc) (title : Bytes) : Proc :=
  let argv := proc.procArgv.take 1
  let base := argv.headD 0
  let size := strlen title
  let size := if size > sub64 proc.procLast base then sub64 (sub64 proc.procLast base) 1 else size
  let memory := proc.memory.memcpy base title size
  let memory := memory.memset (base + size) 0 (sub64 (sub64 proc.procLast base) size)
  { proc with memory := memory, procArgv := argv }

end Libhelp
