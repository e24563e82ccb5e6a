import Libhelp.Lib.Transition
import Libhelp.Proc.Proc

/-!
# The title of the process, in the logger

The model of `setproctitle_init` and `setproctitle`.  The loops of the first do what those
of `proc_init` do.  But its parameter has the name of the static variable `argv`: the
assignment is of the parameter to itself, and the static variable is `NULL` as before,
which `setproctitle` reads.
-/

namespace Libhelp

open CString Transition

/-- The static variables of `logger.c`, with `environ` and the memory of the strings.  The variable
`argv` may be `NULL`. -/
structure ProcTitle where
  memory : ByteMemory
  environ : List ℕ
  argv : Option (List ℕ)
  argvLast : ℕ

namespace ProcTitle

/-- The loop of `setproctitle_init` that adds up the sizes of `environ`. -/
def environSize (memory : ByteMemory) (size : ℕ) : List ℕ → ℕ
  | [] => size
  | entry :: environ =>
      environSize memory (add64 size (strlen (memory.bufferAt entry) + 1)) environ

/-- The loop over `argv`. -/
def argvEnd (memory : ByteMemory) (argvLast : ℕ) : List ℕ → ℕ
  | [] => argvLast
  | arg :: argv =>
      if argvLast = arg then
        argvEnd memory (arg + (strlen (memory.bufferAt arg) + 1)) argv
      else
        argvEnd memory argvLast argv

/-- The loop over `environ`, which leaves memory, `environ` and `argv_last`. -/
def relocate (memory : ByteMemory) (argvLast p : ℕ) : List ℕ → ByteMemory × List ℕ × ℕ
  | [] => (memory, [], argvLast)
  | entry :: environ =>
      if argvLast = entry then
        let size := strlen (memory.bufferAt entry) + 1
        match relocate (memory.memcpy p (memory.bufferAt entry) size) (entry + size) (p + size)
            environ with
        | (memory, environ, argvLast) => (memory, p :: environ, argvLast)
      else
        match relocate memory argvLast p environ with
        | (memory, environ, argvLast) => (memory, entry :: environ, argvLast)

/-- `setproctitle_init`.  It returns whether it returns `OK`. -/
def setproctitleInit (s : ProcTitle) (argv : List ℕ) (malloc : ℕ → Option ℕ) :
    Bool × ProcTitle :=
  -- `argv = argv`, of the parameter
  match malloc (environSize s.memory 0 s.environ) with
  | none => (false, s)
  | some p =>
      let argvLast := argvEnd s.memory (argv.headD 0) argv
      match relocate s.memory argvLast p s.environ with
      | (memory, environ, argvLast) =>
          (true, { s with memory := memory, environ := environ, argvLast := sub64 argvLast 1 })

/-- `strncpy` to an address. -/
def strncpyTo (memory : ByteMemory) (dst : ℕ) (src : Bytes) (size : ℕ) : ByteMemory :=
  memory.memcpy dst (cstr src) size

/-- `setproctitle`, `none` when it reads through `NULL`.  It returns whether it returns `OK`. -/
def setproctitle (s : ProcTitle) (title programName : Bytes) : Option (Bool × ProcTitle) :=
  match s.argv with
  | none => none
  | some argv =>
      let argv := argv.take 1
      let p := argv.headD 0
      let memory := strncpyTo s.memory p programName (sub64 s.argvLast p)
      let p := sub64 (add64 p (strlen programName)) 1
      if p > s.argvLast then
        some (false, { s with memory := memory, argv := some argv })
      else
        let memory := strncpyTo memory p title (sub64 s.argvLast p)
        let p := add64 p (strlen title)
        let memory :=
          if p < s.argvLast then memory.memset p 0 (sub64 s.argvLast p) else memory
        some (true, { s with memory := memory, argv := some argv })

/-- `setproctitle_init` and `proc_init` return the same and, when they succeed, record the same,
with which `setproctitle` writes at `argv[0]`. -/
structure Agrees (s : ProcTitle) (proc : Proc) (argv : List ℕ) (malloc : ℕ → Option ℕ) :
    Prop where
  code : (s.setproctitleInit argv malloc).1 = (procInit proc argv malloc).1
  vector : (procInit proc argv malloc).1 = true →
    (s.setproctitleInit argv malloc).2.argv = some (procInit proc argv malloc).2.procArgv
  last : (procInit proc argv malloc).1 = true →
    (s.setproctitleInit argv malloc).2.argvLast = (procInit proc argv malloc).2.procLast
  environ : (procInit proc argv malloc).1 = true →
    (s.setproctitleInit argv malloc).2.environ = (procInit proc argv malloc).2.environ
  memory : (procInit proc argv malloc).1 = true →
    (s.setproctitleInit argv malloc).2.memory = (procInit proc argv malloc).2.memory
  writes : (procInit proc argv malloc).1 = true → ∀ title programName, ∃ code after size,
    (s.setproctitleInit argv malloc).2.setproctitle title programName = some (code, after) ∧
      ⟨argv.headD 0, size⟩ ∈ after.memory.writes

/-- What changes the static variables, and what does not. -/
inductive Call where
  | init (argv : List ℕ) (malloc : ℕ → Option ℕ)
  | title (title programName : Bytes)
  | other (memory : ByteMemory) (environ : List ℕ)

/-- The runs of a program, which starts with static variables that are `NULL`. -/
def system : System ProcTitle Call where
  init s := s.argv = none ∧ s.argvLast = 0
  step s call after :=
    match call with
    | .init argv malloc => after = (s.setproctitleInit argv malloc).2
    | .title title programName => ∃ code, s.setproctitle title programName = some (code, after)
    | .other memory environ => after = { s with memory := memory, environ := environ }

section Loops

theorem environSize_eq (memory : ByteMemory) (environ : List ℕ) :
    environSize memory 0 environ = Libhelp.environSize memory environ := by
  have from_size : ∀ size, environSize memory size environ =
      environ.foldl (fun size p => add64 size (stringSize memory p)) size := by
    induction environ with
    | nil => exact fun size => rfl
    | cons entry environ ih => exact fun size => ih (add64 size (stringSize memory entry))
  exact from_size 0

theorem argvEnd_eq (memory : ByteMemory) (last : ℕ) (argv : List ℕ) :
    argvEnd memory last argv = Libhelp.argvLast memory argv last := by
  induction argv generalizing last with
  | nil => rfl
  | cons arg argv ih =>
      rw [argvEnd, Libhelp.argvLast, List.foldl_cons, ← Libhelp.argvLast]
      split
      · exact ih _
      · exact ih _

/-- The loop of `proc_init` over `environ` comes to the same memory, entries and end. -/
theorem relocate_eq (memory : ByteMemory) (passed : List ℕ) (last p : ℕ) (environ : List ℕ) :
    let loop := environ.foldl environStep ⟨memory, passed, last, p⟩
    loop.memory = (relocate memory last p environ).1 ∧
      loop.passed = passed ++ (relocate memory last p environ).2.1 ∧
        loop.procLast = (relocate memory last p environ).2.2 := by
  induction environ generalizing memory passed last p with
  | nil => exact ⟨rfl, (List.append_nil _).symm, rfl⟩
  | cons entry environ ih =>
      dsimp only
      rw [List.foldl_cons, relocate]
      by_cases here : last = entry
      · rw [environStep, if_pos here, if_pos here]
        dsimp only
        rcases ih (memory.memcpy p (memory.bufferAt entry) (stringSize memory entry))
          (passed ++ [p]) (entry + stringSize memory entry) (p + stringSize memory entry) with
          ⟨sameMemory, samePassed, sameLast⟩
        refine ⟨sameMemory, ?_, sameLast⟩
        rw [samePassed, List.append_assoc]
        rfl
      · rw [environStep, if_neg here, if_neg here]
        dsimp only
        rcases ih memory (passed ++ [entry]) last p with ⟨sameMemory, samePassed, sameLast⟩
        refine ⟨sameMemory, ?_, sameLast⟩
        rw [samePassed, List.append_assoc]
        rfl

end Loops

section Init

variable {s : ProcTitle} {proc : Proc} {argv : List ℕ} {malloc : ℕ → Option ℕ}

theorem setproctitleInit_argv (s : ProcTitle) (argv : List ℕ) (malloc : ℕ → Option ℕ) :
    (s.setproctitleInit argv malloc).2.argv = s.argv := by
  unfold setproctitleInit
  split <;> rfl

/-- No call makes `argv` anything but `NULL`. -/
theorem argv_null (reachable : system.Reachable s) : s.argv = none := by
  apply reachable.invariant
  · intro s starts
    exact starts.1
  · intro s call after null stepped
    cases call with
    | init argv malloc =>
        have same : after = (s.setproctitleInit argv malloc).2 := stepped
        rw [same, setproctitleInit_argv]
        exact null
    | title title programName =>
        rcases stepped with ⟨code, writes⟩
        rw [setproctitle, null] at writes
        cases writes
    | other memory environ =>
        have same : after = { s with memory := memory, environ := environ } := stepped
        rw [same]
        exact null

/-- But for the vector the two functions do the same. -/
theorem setproctitleInit_eq (sameMemory : s.memory = proc.memory)
    (sameEnviron : s.environ = proc.environ) : s.setproctitleInit argv malloc =
      match malloc (Libhelp.environSize proc.memory proc.environ) with
      | none => (false, s)
      | some _ => (true, {
          memory := (procInit proc argv malloc).2.memory
          environ := (procInit proc argv malloc).2.environ
          argv := s.argv
          argvLast := (procInit proc argv malloc).2.procLast }) := by
  unfold setproctitleInit procInit
  rw [sameMemory, sameEnviron, environSize_eq]
  dsimp only
  cases malloc (Libhelp.environSize proc.memory proc.environ) with
  | none => rfl
  | some p =>
      dsimp only
      rcases relocate_eq proc.memory [] (argvEnd proc.memory (argv.headD 0) argv) p
        proc.environ with ⟨memory, passed, last⟩
      rw [← argvEnd_eq, memory, passed, last, List.nil_append]

theorem procInit_fst : (procInit proc argv malloc).1 =
    (malloc (Libhelp.environSize proc.memory proc.environ)).isSome := by
  unfold procInit
  dsimp only
  cases malloc (Libhelp.environSize proc.memory proc.environ) <;> rfl

theorem procInit_procArgv : (procInit proc argv malloc).2.procArgv = argv := by
  unfold procInit
  dsimp only
  cases malloc (Libhelp.environSize proc.memory proc.environ) <;> rfl

theorem setproctitle_writes (isVector : s.argv = some argv) (title programName : Bytes) :
    ∃ code after size, s.setproctitle title programName = some (code, after) ∧
      ⟨argv.headD 0, size⟩ ∈ after.memory.writes := by
  have head : (argv.take 1).headD 0 = argv.headD 0 := by
    cases argv with
    | nil => rfl
    | cons arg argv => rfl
  unfold setproctitle
  rw [isVector]
  dsimp only
  rw [head]
  split
  · exact ⟨_, _, _, rfl, List.mem_cons_self⟩
  · refine ⟨_, _, sub64 s.argvLast (argv.headD 0), rfl, ?_⟩
    dsimp only
    split
    · exact List.mem_cons_of_mem _ (List.mem_cons_of_mem _ List.mem_cons_self)
    · exact List.mem_cons_of_mem _ List.mem_cons_self

/-- The two agree when and only when they fail, or the static variable is the vector already. -/
theorem agrees_iff (sameMemory : s.memory = proc.memory) (sameEnviron : s.environ = proc.environ) :
    Agrees s proc argv malloc ↔
      malloc (Libhelp.environSize proc.memory proc.environ) = none ∨ s.argv = some argv := by
  have init := @setproctitleInit_eq s proc argv malloc sameMemory sameEnviron
  have code := @procInit_fst proc argv malloc
  have vector := @procInit_procArgv proc argv malloc
  cases allocated : malloc (Libhelp.environSize proc.memory proc.environ) with
  | none =>
      rw [allocated] at init code
      have fails : (procInit proc argv malloc).1 ≠ true := by
        rw [code]
        decide
      apply iff_of_true _ (Or.inl rfl)
      refine ⟨?_, ?_, ?_, ?_, ?_, ?_⟩
      · rw [init, code]
        rfl
      all_goals exact fun succeeds => absurd succeeds fails
  | some p =>
      rw [allocated] at init code
      have succeeds : (procInit proc argv malloc).1 = true := code
      constructor
      · intro agrees
        have recorded := agrees.vector succeeds
        rw [setproctitleInit_argv, vector] at recorded
        exact Or.inr recorded
      · intro condition
        rcases condition with fails | isVector
        · cases fails
        · refine ⟨?_, ?_, ?_, ?_, ?_, ?_⟩
          · rw [init, succeeds]
          · intro _
            rw [setproctitleInit_argv, vector]
            exact isVector
          · intro _
            rw [init]
          · intro _
            rw [init]
          · intro _
            rw [init]
          · intro _
            apply setproctitle_writes
            rw [setproctitleInit_argv]
            exact isVector

/-- In no state of a program do the two record the same. -/
theorem agrees_iff_fails (reachable : system.Reachable s) (sameMemory : s.memory = proc.memory)
    (sameEnviron : s.environ = proc.environ) : Agrees s proc argv malloc ↔
      malloc (Libhelp.environSize proc.memory proc.environ) = none := by
  rw [agrees_iff sameMemory sameEnviron, argv_null reachable]
  simp

/-- Memory with a name and a string of `environ` behind it. -/
def nameMemory : ByteMemory :=
  ⟨[0, 97, 0, 98, 0, 0, 0], []⟩

theorem agrees_iff_fails_start : Agrees ⟨nameMemory, [3], none, 0⟩ ⟨nameMemory, [3], [], 0⟩ [1]
    (fun _ => some 5) ↔ (some 5 : Option ℕ) = none :=
  agrees_iff_fails (.init ⟨rfl, rfl⟩) rfl rfl

/-- The vector of `setproctitle_init` is not recorded. -/
theorem init_disagrees : ¬Agrees ⟨nameMemory, [3], none, 0⟩ ⟨nameMemory, [3], [], 0⟩ [1]
    (fun _ => some 5) := by
  intro agrees
  have recorded := agrees.vector rfl
  cases recorded

end Init

end ProcTitle

end Libhelp
