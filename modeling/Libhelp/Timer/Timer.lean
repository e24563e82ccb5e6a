import Mathlib.Data.Finset.Basic
import Mathlib.Logic.Relation

/-!
# Timers

The model of `timer_start`, `timer_stop`, `_get_timer_from_fd` and one pass of
`_timer_thread`.  The list at `g_head` is a list of nodes, and the id of a timer is the
address of its node.  A node is in the list as long as its memory is allocated.

A timer has expired when its descriptor has an expiration that has not been read.  Timers
expire at any time.  A descriptor that has been closed may be given out again, for a timer
or for anything else.
-/

namespace Libhelp

open Relation

/-- `MAX_TIMER_COUNT` -/
def maxTimerCount : ℕ := 1000

/-- `t_timer` -/
inductive TimerType where
  | singleShot
  | periodic
  deriving DecidableEq

/-- `struct timer_node`, with its address and the number of the call that has made it.  The
number tells timers apart that have the same address and descriptor one after the other. -/
structure TimerNode where
  addr : ℕ
  fd : ℕ
  callback : Option ℕ
  userData : ℕ
  interval : UInt32
  type : TimerType
  serial : ℕ
  deriving DecidableEq

/-- The list at `g_head`, the open descriptors, those of expired timers, and the number of
timers made so far. -/
structure Timers where
  nodes : List TimerNode
  opened : Finset ℕ
  expired : Finset ℕ
  made : ℕ

/-- `timer_start`.  `malloc` and `timerfd_create` may fail. -/
def timerStart (t : Timers) (malloc timerfd : Option ℕ) (interval : UInt32)
    (handler : Option ℕ) (type : TimerType) (userData : ℕ) : ℕ × Timers :=
  match malloc with
  | none => (0, t)
  | some addr =>
      match timerfd with
      | none => (0, t)
      | some fd =>
          (addr, {
            nodes := {
              addr := addr
              fd := fd
              callback := handler
              userData := userData
              interval := interval
              type := type
              serial := t.made } :: t.nodes
            opened := insert fd t.opened
            expired := t.expired.erase fd
            made := t.made + 1 })

/-- `timer_stop`, for `NULL` or the id of a timer in the list. -/
def timerStop (t : Timers) (id : ℕ) : Timers :=
  if id = 0 then
    t
  else
    match t.nodes.find? fun node => node.addr = id with
    | none => t
    | some node =>
        { t with
          nodes := t.nodes.eraseP fun node => node.addr = id
          opened := t.opened.erase node.fd
          expired := t.expired.erase node.fd }

/-- `_get_timer_from_fd` -/
def getTimerFromFd (t : Timers) (fd : ℕ) : Option TimerNode :=
  t.nodes.find? fun node => node.fd = fd

/-- What `_timer_thread` does at a slot of `ufds`, where `read` returns `s`: the timer whose
callback it calls, and the timers after the read. -/
def timerSlot (t : Timers) (fd : ℕ) (revents : Bool) (s : Int32) : Option TimerNode × Timers :=
  if revents then
    let t := { t with expired := t.expired.erase fd }
    if s ≠ 8 then
      (none, t)
    else
      match getTimerFromFd t fd with
      | none => (none, t)
      | some node => (if node.callback = none then none else some node, t)
  else
    (none, t)

namespace Timers

/-- What happens that is not done with timers. -/
inductive Outside (t : Timers) : Timers → Prop where
  | expires (node : TimerNode) (isNode : node ∈ t.nodes) :
      Outside t { t with expired := insert node.fd t.expired }
  | opens (fd : ℕ) (isNew : fd ∉ t.opened) : Outside t { t with opened := insert fd t.opened }
  | closes (fd : ℕ) (isOther : ∀ node ∈ t.nodes, node.fd ≠ fd) :
      Outside t { t with opened := t.opened.erase fd, expired := t.expired.erase fd }

/-- A step of a callback, or what happens meanwhile. -/
inductive Callback (t : Timers) : Timers → Prop where
  | start (malloc timerfd : Option ℕ) (interval : UInt32) (handler : Option ℕ)
      (type : TimerType) (userData : ℕ)
      (fresh : ∀ addr, malloc = some addr → addr ≠ 0 ∧ ∀ node ∈ t.nodes, node.addr ≠ addr)
      (isNew : ∀ fd, timerfd = some fd → fd ∉ t.opened) :
      Callback t (timerStart t malloc timerfd interval handler type userData).2
  | stop (id : ℕ) (isLive : id = 0 ∨ ∃ node ∈ t.nodes, node.addr = id) :
      Callback t (timerStop t id)
  | outside (after : Timers) (outside : t.Outside after) : Callback t after

/-- A slot of `ufds`.  A `read` on a timer that has expired returns 8 bytes; the callback, if
there is one to call, starts and stops timers as it likes. -/
inductive Slot (t : Timers) (fd : ℕ) (revents : Bool) : Option TimerNode → Timers → Prop where
  | passes (s : Int32) (reads : fd ∈ t.expired → s = 8)
      (nobody : (timerSlot t fd revents s).1 = none) :
      Slot t fd revents none (timerSlot t fd revents s).2
  | calls (s : Int32) (node : TimerNode) (after : Timers) (reads : fd ∈ t.expired → s = 8)
      (found : (timerSlot t fd revents s).1 = some node)
      (runs : ReflTransGen Callback (timerSlot t fd revents s).2 after) :
      Slot t fd revents (some node) after

/-- A slot that the thread has come to: the timer it was filled for, the timers when it was
reached, and the timer whose callback was called. -/
structure Visit where
  timer : TimerNode
  reached : Timers
  called : Option TimerNode

/-- The loop of `_timer_thread` over the slots filled for some timers. -/
inductive Slots (ready : TimerNode → Bool) :
    Timers → List TimerNode → List Visit → Timers → Prop where
  | done (t : Timers) : Slots ready t [] [] t
  | next {t reached middle after : Timers} {timer : TimerNode} {called : Option TimerNode}
      {timers : List TimerNode} {visits : List Visit}
      (elapses : ReflTransGen Outside t reached)
      (slot : reached.Slot timer.fd (ready timer) called middle)
      (rest : Slots ready middle timers visits after) :
      Slots ready t (timer :: timers) (⟨timer, reached, called⟩ :: visits) after

/-- A pass of `_timer_thread` in which `poll` reports timers that have expired. -/
inductive Pass (t : Timers) (ready : TimerNode → Bool) (visits : List Visit)
    (after : Timers) : Prop where
  | mk (polled : Timers) (fits : t.nodes.length ≤ maxTimerCount)
      (elapses : ReflTransGen Outside t polled)
      (reported : ∀ node ∈ t.nodes, ready node = true → node.fd ∈ polled.expired)
      (slots : Slots ready polled t.nodes visits after) : Pass t ready visits after

end Timers

end Libhelp
