import Libhelp.Lib.CString
import Libhelp.Lib.Transition
import Mathlib.Algebra.Group.Nat.Defs

/-!
# The logger

The model of `log_new`, `log_rotate`, `log_set_pid`, `log_set_str_level` and
`log_put`.  A stream is the name of the file it appends to.  A pointer to a name
that `malloc` has left in memory may point to any string, or to none.

`log_put` formats its line in `str` on the stack: an offset is `p - str`, and bytes
written behind `str` go to the stack behind it.
-/

namespace Libhelp

open Transition CString

/-- `enum log_level_e` -/
inductive LogLevel where
  | error
  | warn
  | notice
  | debug
  deriving DecidableEq

namespace LogLevel

/-- The value of the enumerator, an `unsigned int`. -/
def value : LogLevel → UInt32
  | error => 0
  | warn => 1
  | notice => 2
  | debug => 3

/-- `log_levels` -/
def name : LogLevel → Bytes
  | error => ascii "error  "
  | warn => ascii "warn   "
  | notice => ascii "notice "
  | debug => ascii "debug  "

end LogLevel

/-- `LOG_TIME_STR_SIZE` -/
def logTimeStrSize : ℕ := 23

/-- `LOG_PID_STR_SIZE` -/
def logPidStrSize : ℕ := 22

/-- `LOG_STR_SIZE` -/
def logStrSize : ℕ := 2048

/-- `log_t`, with the strings in `ts_str` and `pid_str`, the string `file` points to, and the
file the stream `fd` appends to. -/
structure Log where
  level : Int32
  ts : Int64
  tsStr : Bytes
  pidStr : Bytes
  file : Option Bytes
  fd : Option Bytes
  deriving DecidableEq

/-- `fopen(name, "a")` -/
def fopen (name : Option Bytes) (opens : Bool) : Option Bytes :=
  if opens then name else none

/-- What `snprintf` leaves in a buffer of a size. -/
def snprintf (size : ℕ) (text : Bytes) : Bytes :=
  text.take (size - 1)

/-- `"(%lu)"` of a `pid_t` -/
def pidStr (pid : Int32) : Bytes :=
  snprintf logPidStrSize
    (ascii "(" ++ ascii (toString pid.toInt64.toUInt64.toNat) ++ ascii ")")

/-- `log_new`.  The fields it does not set keep what is in the memory from `malloc`. -/
def logNew (malloc : Option Log) (opens : Bool) (pid : Int32) (file : Bytes) (level : Int32) :
    Option Log :=
  match malloc with
  | none => none
  | some log =>
      match fopen (some file) opens with
      | none => none
      | some fd => some { log with fd := some fd, ts := 0, level := level, pidStr := pidStr pid }

/-- `log_rotate` -/
def logRotate (log : Log) (opens : Bool) : Log :=
  { log with fd := fopen log.file opens }

def logSetPid (log : Log) (pid : Int32) : Log :=
  { log with pidStr := pidStr pid }

def logSetStrLevel (log : Log) (level : Bytes) : Log :=
  if level = ascii "debug" then
    { log with level := LogLevel.debug.value.toInt32 }
  else if level = ascii "notice" then
    { log with level := LogLevel.notice.value.toInt32 }
  else if level = ascii "warn" then
    { log with level := LogLevel.warn.value.toInt32 }
  else
    { log with level := LogLevel.error.value.toInt32 }

/-- `struct tm` -/
structure Tm where
  year : Int32
  mon : Int32
  mday : Int32
  hour : Int32
  min : Int32
  sec : Int32
  deriving DecidableEq

/-- `"%0<width>d"` -/
def zeroPadded (width : ℕ) (n : Int) : Bytes :=
  let sign := if n < 0 then ascii "-" else []
  let digits := ascii (toString n.natAbs)
  sign ++ List.replicate (width - (sign ++ digits).length) 48 ++ digits

/-- `"[%04d.%02d.%02d %02d:%02d:%02d] "` -/
def tsStr (tm : Tm) : Bytes :=
  snprintf logTimeStrSize
    (ascii "[" ++ zeroPadded 4 (tm.year + 1900).toInt ++ ascii "." ++
      zeroPadded 2 (tm.mon + 1).toInt ++ ascii "." ++ zeroPadded 2 tm.mday.toInt ++ ascii " " ++
      zeroPadded 2 tm.hour.toInt ++ ascii ":" ++ zeroPadded 2 tm.min.toInt ++ ascii ":" ++
      zeroPadded 2 tm.sec.toInt ++ ascii "] ")

/-- The part of a line that comes before the message. -/
def logHeader (log : Log) (level : LogLevel) (file func : Option Bytes) (line : Int32) : Bytes :=
  match file, func with
  | some file, some func =>
      log.tsStr ++ level.name ++ log.pidStr ++ ascii " in " ++ file ++ ascii ":" ++ func ++
        ascii ":" ++ ascii (toString line.toInt) ++ ascii " "
  | _, _ => log.tsStr ++ level.name ++ log.pidStr ++ ascii " "

/-- The bytes of `str` and of the stack behind it. -/
abbrev Stack := ℕ → UInt8

namespace Stack

def store (stack : Stack) (offset : ℕ) (bytes : Bytes) : Stack :=
  fun address =>
    if offset ≤ address ∧ address < offset + bytes.length then
      bytes.getD (address - offset) 0
    else
      stack address

/-- `snprintf` to an offset of the stack.  With the size 0 it writes nothing. -/
def snprintf (stack : Stack) (offset size : ℕ) (text : Bytes) : Stack :=
  if size = 0 then stack else stack.store offset (Libhelp.snprintf size text ++ [nul])

end Stack

/-- The size `end - p` that `log_put` passes to `vsnprintf`, as a `size_t`. -/
def logRoom (offset : ℕ) : ℕ :=
  (logStrSize + (2 ^ 64 - offset % 2 ^ 64)) % 2 ^ 64

/-- The bytes `log_put` writes to the file, `p - str` of them. -/
def logText (stack : Stack) (header message : Bytes) : Bytes :=
  let stack := stack.snprintf 0 logStrSize header
  let p := header.length
  let stack := stack.snprintf p (logRoom p) message
  let p := p + message.length
  let stack := stack.store p (ascii "\n")
  let p := p + 1
  (List.range p).map stack

/-- A call of `log_put`: its arguments, the time and what is on the stack.  The message is what
`vsnprintf` makes of the format, `none` when it fails. -/
structure LogPut where
  level : LogLevel
  file : Option Bytes
  func : Option Bytes
  line : Int32
  message : Option Bytes
  time : Int64
  tm : Tm
  stack : Stack

/-- What an operation does with files. -/
inductive LogEffect where
  | nothing
  /-- `fopen` of the name `file` points to. -/
  | opens (name : Option Bytes)
  /-- `fwrite` to a stream that may be `NULL`. -/
  | writes (fd : Option Bytes) (text : Bytes)

/-- `log->level < level`, an `int` compared with an `unsigned int`. -/
def Log.Filters (log : Log) (level : LogLevel) : Prop :=
  log.level.toUInt32 < level.value

instance (log : Log) (level : LogLevel) : Decidable (log.Filters level) :=
  inferInstanceAs (Decidable (_ < _))

/-- `log_put` makes the time when it is needed. -/
def logTime (log : Log) (time : Int64) (tm : Tm) : Log :=
  if time = log.ts then log else { log with ts := time, tsStr := tsStr tm }

def logPut (log : Log) (put : LogPut) : Log × LogEffect :=
  if log.Filters put.level then
    (log, .nothing)
  else
    let log := logTime log put.time put.tm
    match put.message with
    | none => (log, .nothing)
    | some message =>
        let header := logHeader log put.level put.file put.func put.line
        (log, .writes log.fd (logText put.stack header message))

end Libhelp
