import Libhelp.Lib.Strtol

/-!
# The command line of `lockrun`

The model of the loop over the arguments, of `getarg` and of the checks behind the loop.
The command line is a list of options, each with a value in the same argument or in the
next one, then `--` and the command.

An option without a value may have one all the same: what follows its `=` is cut off and
not looked at.
-/

namespace Libhelp

open CString Strtol

namespace Lockrun

/-- The variables that the options set. -/
structure Settings where
  lockfile : Option Bytes
  waitForLock : Bool
  sleeptime : ℤ
  retries : ℤ
  verbose : ℕ
  maxtime : ℤ
  quiet : Bool
  deriving DecidableEq

def Settings.initial : Settings :=
  ⟨none, false, 10, 0, 0, 0, false⟩

/-- What `die` says about a command line. -/
inductive CmdlineError where
  /-- `is an invalid cmdline param` -/
  | invalidParam (arg : Bytes)
  /-- `option … requires a parameter` -/
  | requiresParameter (optname : Bytes)
  /-- `missing command to …` -/
  | missingCommand (argv0 : Bytes)
  /-- `missing --lockfile=F parameter` -/
  | missingLockfile
  deriving DecidableEq

/-- What the command line makes `lockrun` do. -/
inductive Cmdline where
  | version
  | help
  | die (error : CmdlineError)
  | command (settings : Settings) (argv : List Bytes)
  deriving DecidableEq

/-- The options without a value. -/
inductive Flag where
  | wait
  | verbose
  | quiet
  deriving DecidableEq

/-- The options with a value. -/
inductive Valued where
  | lockfile
  | sleep
  | retries
  | maxtime
  deriving DecidableEq

/-- The short and the long name of an option. -/
def Flag.name : Flag → Bool → Bytes
  | .wait, false => ascii "-W"
  | .wait, true => ascii "--wait"
  | .verbose, false => ascii "-V"
  | .verbose, true => ascii "--verbose"
  | .quiet, false => ascii "-q"
  | .quiet, true => ascii "--quiet"

def Valued.name : Valued → Bool → Bytes
  | .lockfile, false => ascii "-L"
  | .lockfile, true => ascii "--lockfile"
  | .sleep, false => ascii "-S"
  | .sleep, true => ascii "--sleep"
  | .retries, false => ascii "-R"
  | .retries, true => ascii "--retries"
  | .maxtime, false => ascii "-T"
  | .maxtime, true => ascii "--maxtime"

def Flag.all : List Flag :=
  [.wait, .verbose, .quiet]

def Valued.all : List Valued :=
  [.lockfile, .sleep, .retries, .maxtime]

/-- The option with a name. -/
def Flag.ofName (arg : Bytes) : Option Flag :=
  Flag.all.find? fun flag => arg = flag.name false ∨ arg = flag.name true

def Valued.ofName (arg : Bytes) : Option Valued :=
  Valued.all.find? fun option => arg = option.name false ∨ arg = option.name true

def Flag.set (settings : Settings) : Flag → Settings
  | .wait => { settings with waitForLock := true }
  | .verbose => { settings with verbose := settings.verbose + 1 }
  | .quiet => { settings with quiet := true }

def Valued.set (settings : Settings) (value : Bytes) : Valued → Settings
  | .lockfile => { settings with lockfile := some value }
  | .sleep => { settings with sleeptime := atoi value }
  | .retries => { settings with retries := atoi value }
  | .maxtime => { settings with maxtime := atoi value }

/-- `=` -/
def equals : UInt8 := 61

/-- Pick off the `=VALUE` part of an argument. -/
def pickOff (arg : Bytes) : Bytes × Option Bytes :=
  if equals ∈ arg then
    (arg.takeWhile (· ≠ equals), some ((arg.dropWhile (· ≠ equals)).drop 1))
  else
    (arg, none)

/-- `getarg`: the value of an option and the arguments behind it. -/
def getarg : Option Bytes → (rest : List Bytes) →
    Option (Bytes × { behind : List Bytes // behind.length ≤ rest.length })
  | some opt, rest => some (opt, ⟨rest, le_rfl⟩)
  | none, opt :: rest => some (opt, ⟨rest, Nat.le_succ _⟩)
  | none, [] => none

/-- The loop over the arguments. -/
def scanArgs (settings : Settings) : List Bytes → Cmdline
  | [] => .command settings []
  | arg :: rest =>
      if arg = ascii "--" then
        .command settings rest
      else
        let arg := pickOff arg
        if arg.1 = ascii "--version" then
          .version
        else if arg.1 = ascii "--help" then
          .help
        else
          match Valued.ofName arg.1 with
          | some option =>
              match getarg arg.2 rest with
              | some (value, behind) => scanArgs (option.set settings value) behind.1
              | none => .die (.requiresParameter arg.1)
          | none =>
              match Flag.ofName arg.1 with
              | some flag => scanArgs (flag.set settings) rest
              | none => .die (.invalidParam arg.1)
termination_by args => args.length
decreasing_by
  · exact Nat.lt_succ_of_le behind.2
  · exact Nat.lt_succ_self _

/-- The loop and the checks behind it. -/
def cmdline (argv0 : Bytes) (args : List Bytes) : Cmdline :=
  match scanArgs .initial args with
  | .command _ [] => .die (.missingCommand argv0)
  | .command settings (command :: args) =>
      match settings.lockfile with
      | none => .die .missingLockfile
      | some _ => .command settings (command :: args)
  | other => other

/-- An option as it is given: by its short or long name, and with what stands behind it. -/
inductive Given where
  | switch (flag : Flag) (long : Bool) (ignored : Option Bytes)
  | attached (option : Valued) (long : Bool) (value : Bytes)
  | separate (option : Valued) (long : Bool) (value : Bytes)

def Given.args : Given → List Bytes
  | .switch flag long none => [flag.name long]
  | .switch flag long (some ignored) => [flag.name long ++ equals :: ignored]
  | .attached option long value => [option.name long ++ equals :: value]
  | .separate option long value => [option.name long, value]

def Given.apply (settings : Settings) : Given → Settings
  | .switch flag _ _ => flag.set settings
  | .attached option _ value => option.set settings value
  | .separate option _ value => option.set settings value

variable {settings settings' : Settings} {arg name value : Bytes} {args argv rest : List Bytes}

section Names

theorem pickOff_attached (plain : equals ∉ name) (value : Bytes) :
    pickOff (name ++ equals :: value) = (name, some value) := by
  have passes : ∀ c ∈ name, decide (c ≠ equals) = true := by
    intro c isByte
    rw [decide_eq_true_iff]
    rintro rfl
    exact plain isByte
  rw [pickOff, if_pos (List.mem_append_right _ List.mem_cons_self),
    List.takeWhile_append_of_pos passes, List.dropWhile_append_of_pos passes]
  simp

theorem pickOff_plain (plain : equals ∉ arg) : pickOff arg = (arg, none) :=
  if_neg plain

/-- What has been picked off is behind the first `=`. -/
theorem pickOff_cases (arg : Bytes) :
    (equals ∉ arg ∧ pickOff arg = (arg, none)) ∨
      ∃ name value, equals ∉ name ∧ arg = name ++ equals :: value ∧
        pickOff arg = (name, some value) := by
  by_cases isByte : equals ∈ arg
  · right
    rcases List.eq_append_cons_of_mem isByte with ⟨name, value, rfl, plain⟩
    exact ⟨name, value, plain, rfl, pickOff_attached plain value⟩
  · exact .inl ⟨isByte, if_neg isByte⟩

theorem flag_name (flag : Flag) (long : Bool) : equals ∉ flag.name long ∧
    flag.name long ≠ ascii "--" ∧ flag.name long ≠ ascii "--version" ∧
      flag.name long ≠ ascii "--help" ∧ Valued.ofName (flag.name long) = none ∧
        Flag.ofName (flag.name long) = some flag := by
  cases flag <;> cases long <;> decide

theorem valued_name (option : Valued) (long : Bool) : equals ∉ option.name long ∧
    option.name long ≠ ascii "--" ∧ option.name long ≠ ascii "--version" ∧
      option.name long ≠ ascii "--help" ∧ Valued.ofName (option.name long) = some option := by
  cases option <;> cases long <;> decide

theorem flag_of_name {flag : Flag} (found : Flag.ofName name = some flag) :
    ∃ long, name = flag.name long := by
  have isName := List.find?_some found
  rcases of_decide_eq_true isName with short | long
  · exact ⟨false, short⟩
  · exact ⟨true, long⟩

theorem valued_of_name {option : Valued} (found : Valued.ofName name = some option) :
    ∃ long, name = option.name long := by
  have isName := List.find?_some found
  rcases of_decide_eq_true isName with short | long
  · exact ⟨false, short⟩
  · exact ⟨true, long⟩

end Names

section Accepted

/-- The arguments that options are given by. -/
def render (givens : List Given) : List Bytes :=
  givens.flatMap Given.args

def applyAll (settings : Settings) (givens : List Given) : Settings :=
  givens.foldl Given.apply settings

theorem attached_ne (plain : equals ∉ arg) : name ++ equals :: value ≠ arg := by
  rintro rfl
  exact plain (List.mem_append_right _ List.mem_cons_self)

/-- The arguments of an option are taken, and no more. -/
theorem scanArgs_given (settings : Settings) (given : Given) (rest : List Bytes) :
    scanArgs settings (given.args ++ rest) = scanArgs (given.apply settings) rest := by
  have noEquals : equals ∉ ascii "--" := by decide
  cases given with
  | switch flag long ignored =>
      rcases flag_name flag long with ⟨plain, notEnd, notVersion, notHelp, notValued, isFlag⟩
      cases ignored with
      | none =>
          simp only [Given.args, List.singleton_append, Given.apply]
          rw [scanArgs, if_neg notEnd]
          simp only [pickOff_plain plain, if_neg notVersion, if_neg notHelp, notValued, isFlag]
      | some ignored =>
          simp only [Given.args, List.singleton_append, Given.apply]
          rw [scanArgs, if_neg (attached_ne noEquals)]
          simp only [pickOff_attached plain, if_neg notVersion, if_neg notHelp, notValued, isFlag]
  | attached option long value =>
      rcases valued_name option long with ⟨plain, -, notVersion, notHelp, isValued⟩
      simp only [Given.args, List.singleton_append, Given.apply]
      rw [scanArgs, if_neg (attached_ne noEquals)]
      simp only [pickOff_attached plain, if_neg notVersion, if_neg notHelp, isValued]
      rfl
  | separate option long value =>
      rcases valued_name option long with ⟨plain, notEnd, notVersion, notHelp, isValued⟩
      simp only [Given.args, List.cons_append, List.nil_append, Given.apply]
      rw [scanArgs, if_neg notEnd]
      simp only [pickOff_plain plain, if_neg notVersion, if_neg notHelp, isValued]
      rfl

theorem scanArgs_render (settings : Settings) (givens : List Given) (rest : List Bytes) :
    scanArgs settings (render givens ++ rest) = scanArgs (applyAll settings givens) rest := by
  induction givens generalizing settings with
  | nil => rfl
  | cons given givens ih =>
      rw [render, List.flatMap_cons, List.append_assoc, scanArgs_given]
      exact ih (given.apply settings)

theorem getarg_some {opt : Option Bytes}
    {behind : { behind : List Bytes // behind.length ≤ rest.length }}
    (got : getarg opt rest = some (value, behind)) :
    opt = some value ∧ behind.1 = rest ∨ opt = none ∧ rest = value :: behind.1 := by
  cases opt with
  | some opt =>
      cases got
      exact .inl ⟨rfl, rfl⟩
  | none =>
      cases rest with
      | nil => cases got
      | cons opt rest =>
          cases got
          exact .inr ⟨rfl, rfl⟩

/-- An argument that is accepted is the end of the options, or begins one of them. -/
theorem scanArgs_cons (accepted : scanArgs settings (arg :: rest) = .command settings' argv) :
    arg = ascii "--" ∧ settings' = settings ∧ argv = rest ∨
      ∃ given behind, arg :: rest = Given.args given ++ behind ∧ behind.length ≤ rest.length ∧
        scanArgs (given.apply settings) behind = .command settings' argv := by
  rw [scanArgs] at accepted
  split at accepted
  case isTrue isEnd =>
    cases accepted
    exact .inl ⟨isEnd, rfl, rfl⟩
  case isFalse notEnd =>
    right
    simp only at accepted
    split at accepted
    · cases accepted
    · split at accepted
      · cases accepted
      · split at accepted
        case h_1 option isValued =>
          rcases valued_of_name isValued with ⟨long, isName⟩
          split at accepted
          case h_1 value behind got =>
            rcases pickOff_cases arg with ⟨plain, picked⟩ | ⟨name, value', plain, rfl, picked⟩
            · rw [picked] at got isName
              rcases getarg_some got with ⟨none, -⟩ | ⟨-, split⟩
              · cases none
              · have isArg : arg = option.name long := isName
                refine ⟨.separate option long value, behind.1, ?_, behind.2, accepted⟩
                exact congrArg₂ List.cons isArg split
            · rw [picked] at got isName
              rcases getarg_some got with ⟨same, isRest⟩ | ⟨none, -⟩
              · cases same
                have isArg : name = option.name long := isName
                refine ⟨.attached option long value, behind.1, ?_, behind.2, accepted⟩
                exact congrArg₂ (fun name rest => (name ++ equals :: value) :: rest) isArg
                  isRest.symm
              · cases none
          case h_2 => cases accepted
        case h_2 =>
          split at accepted
          case h_1 flag isFlag =>
            rcases flag_of_name isFlag with ⟨long, isName⟩
            rcases pickOff_cases arg with ⟨plain, picked⟩ | ⟨name, ignored, plain, rfl, picked⟩
            · rw [picked] at isName
              have isArg : arg = flag.name long := isName
              refine ⟨.switch flag long none, rest, ?_, le_rfl, accepted⟩
              rw [isArg]
              rfl
            · rw [picked] at isName
              have isArg : name = flag.name long := isName
              refine ⟨.switch flag long (some ignored), rest, ?_, le_rfl, accepted⟩
              rw [isArg]
              rfl
          case h_2 => cases accepted

/-- What is accepted has been rendered. -/
theorem scanArgs_command (accepted : scanArgs settings args = .command settings' argv) :
    ∃ givens, settings' = applyAll settings givens ∧
      (args = render givens ++ ascii "--" :: argv ∨ argv = [] ∧ args = render givens) := by
  induction bound : args.length using Nat.strongRecOn generalizing args settings with
  | ind size ih =>
      cases args with
      | nil =>
          rw [scanArgs] at accepted
          cases accepted
          exact ⟨[], rfl, .inr ⟨rfl, rfl⟩⟩
      | cons arg rest =>
          rcases scanArgs_cons accepted with ⟨isEnd, rfl, rfl⟩ | ⟨given, behind, split, less, later⟩
          · exact ⟨[], rfl, .inl (by rw [isEnd]; rfl)⟩
          · rw [List.length_cons] at bound
            rcases ih behind.length (by omega) later rfl with ⟨givens, applied, form⟩
            refine ⟨given :: givens, applied, ?_⟩
            rw [split, render, List.flatMap_cons]
            rcases form with form | ⟨none, form⟩
            · exact .inl (by rw [form, List.append_assoc]; rfl)
            · exact .inr ⟨none, by rw [form]; rfl⟩

theorem cmdline_render {argv0 lockfile : Bytes} (givens : List Given) (hasCommand : argv ≠ [])
    (isLockfile : (applyAll .initial givens).lockfile = some lockfile) :
    cmdline argv0 (render givens ++ ascii "--" :: argv) =
      .command (applyAll .initial givens) argv := by
  have scanned : scanArgs .initial (render givens ++ ascii "--" :: argv) =
      .command (applyAll .initial givens) argv := by
    rw [scanArgs_render, scanArgs, if_pos rfl]
  rcases List.exists_cons_of_ne_nil hasCommand with ⟨command, args, rfl⟩
  simp only [cmdline, scanned, isLockfile]

/-- `lockrun` goes on to the lock exactly when options, `--` and a command are given, a lock
file among the options; the options have been taken from left to right. -/
theorem cmdline_iff (argv0 : Bytes) : cmdline argv0 args = .command settings argv ↔
    argv ≠ [] ∧ settings.lockfile ≠ none ∧ ∃ givens, settings = applyAll .initial givens ∧
      args = render givens ++ ascii "--" :: argv := by
  constructor
  · intro accepted
    cases scanned : scanArgs .initial args with
    | command settings' argv' =>
        rw [cmdline, scanned] at accepted
        cases argv' with
        | nil => cases accepted
        | cons command args' =>
            simp only at accepted
            split at accepted
            case h_1 => cases accepted
            case h_2 given =>
              cases accepted
              rcases scanArgs_command scanned with ⟨givens, applied, form | ⟨none, -⟩⟩
              · exact ⟨List.cons_ne_nil _ _, by simp [given], givens, applied, form⟩
              · cases none
    | version => simp [cmdline, scanned] at accepted
    | help => simp [cmdline, scanned] at accepted
    | die error => simp [cmdline, scanned] at accepted
  · rintro ⟨hasCommand, hasLockfile, givens, rfl, rfl⟩
    rcases Option.ne_none_iff_exists'.mp hasLockfile with ⟨lockfile, isLockfile⟩
    exact cmdline_render givens hasCommand isLockfile

end Accepted

end Lockrun

end Libhelp
