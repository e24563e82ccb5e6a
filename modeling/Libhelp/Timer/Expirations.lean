import Libhelp.Timer.Pass
import Mathlib.Logic.Function.Basic

/-!
# Callbacks and expirations

The timer thread over whole runs.  It fills the slots of a pass, polls, reads the slots one
by one, looks the timers up and calls them, and at any time meanwhile timers are started,
stopped and expire.

A `read` on a timer returns only when the timer has expired since it was read last, so a
callback is not called more often than its timer expires, and that of a single-shot timer
once at most.  It makes no difference that a descriptor may have been given out again since
the slots were filled.  But a descriptor that has been read must not be given out to a timer
before the lookup, and a timer that has been found must not be stopped before the call:
callbacks cannot do either, another thread can.  `timer_start`, `timer_stop`, the lookup,
and the test and the call of a callback are one step each.
-/

namespace Libhelp

open Transition

/-- `struct timespec` -/
structure Timespec where
  tvSec : ℕ
  tvNsec : ℕ
  deriving DecidableEq

namespace Timespec

def zero : Timespec := ⟨0, 0⟩

def nanoseconds (time : Timespec) : ℕ := time.tvSec * 1000000000 + time.tvNsec

/-- The seconds and nanoseconds that `timer_start` makes of an interval in milliseconds. -/
def ofInterval (interval : UInt32) : Timespec where
  tvSec := (interval / 1000).toNat
  tvNsec := ((interval % 1000) * 1000000).toNat

/-- The product does not wrap. -/
theorem ofInterval_tvNsec (interval : UInt32) :
    (ofInterval interval).tvNsec = interval.toNat % 1000 * 1000000 := by
  have small : interval.toNat % 1000 * 1000000 < 2 ^ 32 := by omega
  unfold ofInterval
  rw [UInt32.toNat_mul, UInt32.toNat_mod]
  exact Nat.mod_eq_of_lt small

theorem nanoseconds_ofInterval (interval : UInt32) :
    (ofInterval interval).nanoseconds = interval.toNat * 1000000 := by
  have seconds : (ofInterval interval).tvSec = interval.toNat / 1000 := UInt32.toNat_div _ _
  unfold nanoseconds
  rw [seconds, ofInterval_tvNsec]
  omega

theorem ofInterval_eq_zero_iff (interval : UInt32) :
    ofInterval interval = zero ↔ interval = 0 := by
  constructor
  · intro same
    have nothing : interval.toNat * 1000000 = 0 := by
      rw [← nanoseconds_ofInterval, same]
      rfl
    apply UInt32.toNat_inj.mp
    exact (Nat.mul_eq_zero.mp nothing).resolve_right (by decide)
  · rintro rfl
    rfl

end Timespec

/-- `struct itimerspec` -/
structure Itimerspec where
  itValue : Timespec
  itInterval : Timespec

/-- The `new_value` of `timer_start`. -/
def newValue (interval : UInt32) (type : TimerType) : Itimerspec where
  itValue := .ofInterval interval
  itInterval := if type = .periodic then .ofInterval interval else .zero

/-- A timer is armed by any interval but 0. -/
theorem newValue_armed_iff (interval : UInt32) (type : TimerType) :
    (newValue interval type).itValue ≠ .zero ↔ interval ≠ 0 :=
  not_congr (Timespec.ofInterval_eq_zero_iff interval)

/-- A timer expires again when it is periodic. -/
theorem newValue_again_iff {interval : UInt32} (armed : interval ≠ 0) (type : TimerType) :
    (newValue interval type).itInterval = .zero ↔ type = .singleShot := by
  cases type with
  | singleShot => exact iff_of_true rfl rfl
  | periodic =>
      apply iff_of_false
      · exact (newValue_armed_iff interval .periodic).mpr armed
      · intro same
        cases same

/-- The `read` of a slot: the descriptor whose timer is looked up then, and the timers. -/
def readSlot (t : Timers) (fd : ℕ) (revents : Bool) (s : Int32) : Option ℕ × Timers :=
  if revents then
    (if s ≠ 8 then none else some fd, { t with expired := t.expired.erase fd })
  else
    (none, t)

/-- A slot is read, its timer is looked up, and called when it has a callback. -/
theorem timerSlot_eq_readSlot (t : Timers) (fd : ℕ) (revents : Bool) (s : Int32) :
    timerSlot t fd revents s =
      ((readSlot t fd revents s).1.bind fun read =>
        (getTimerFromFd (readSlot t fd revents s).2 read).filter fun node => node.callback ≠ none,
        (readSlot t fd revents s).2) := by
  cases revents with
  | false => rfl
  | true =>
      rw [readSlot, timerSlot, if_pos rfl, if_pos rfl]
      dsimp only
      by_cases differs : s ≠ 8
      · rw [if_pos differs, if_pos differs]
        rfl
      · rw [if_neg differs, if_neg differs, Option.bind_some]
        cases getTimerFromFd { t with expired := t.expired.erase fd } fd with
        | none => rfl
        | some node => by_cases callback : node.callback = none <;> simp [callback, Option.filter]

/-- How far the thread has come. -/
inductive TimerPlace where
  /-- before the next slot, or before the slots are filled again -/
  | between
  /-- in `poll` -/
  | polling
  /-- before `_get_timer_from_fd` -/
  | read (fd : ℕ)
  /-- before `tmp->callback` -/
  | found (tmp : ℕ)
  deriving DecidableEq

/-- The timers, the slots that the thread has not come to, how far it has come, and how often
each timer has expired and has been called. -/
structure TimerRun where
  timers : Timers
  slots : List (ℕ × Bool)
  place : TimerPlace
  expirations : TimerNode → ℕ
  calls : TimerNode → ℕ

/-- What happens in a run. -/
inductive TimerRunEvent where
  | starts (malloc timerfd : Option ℕ) (interval : UInt32) (handler : Option ℕ)
      (type : TimerType) (userData : ℕ)
  | stops (id : ℕ)
  | expires (node : TimerNode)
  | opens (fd : ℕ)
  | closes (fd : ℕ)
  | fills
  | polls (revents : ℕ → Bool)
  | reads (s : Int32)
  | finds
  | calls

namespace TimerRun

def oneMore (count : TimerNode → ℕ) (node : TimerNode) : TimerNode → ℕ :=
  Function.update count node (count node + 1)

theorem oneMore_self (count : TimerNode → ℕ) (node : TimerNode) :
    oneMore count node node = count node + 1 := Function.update_self _ _ _

theorem oneMore_of_ne (count : TimerNode → ℕ) {node other : TimerNode} (differs : other ≠ node) :
    oneMore count node other = count other := Function.update_of_ne differs _ _

/-- The steps of the timer thread and of what is around it. -/
inductive Step (r : TimerRun) : TimerRunEvent → TimerRun → Prop where
  | starts (malloc timerfd : Option ℕ) (interval : UInt32) (handler : Option ℕ)
      (type : TimerType) (userData : ℕ)
      (fresh : ∀ addr, malloc = some addr → addr ≠ 0 ∧ ∀ node ∈ r.timers.nodes, node.addr ≠ addr)
      (isNew : ∀ fd, timerfd = some fd → fd ∉ r.timers.opened) :
      Step r (.starts malloc timerfd interval handler type userData)
        { r with timers := (timerStart r.timers malloc timerfd interval handler type userData).2 }
  | stops (id : ℕ) (isLive : id = 0 ∨ ∃ node ∈ r.timers.nodes, node.addr = id) :
      Step r (.stops id) { r with timers := timerStop r.timers id }
  /-- A timer with no `it_value` is not armed, and one with no `it_interval` expires once. -/
  | expires (node : TimerNode) (isNode : node ∈ r.timers.nodes)
      (armed : (newValue node.interval node.type).itValue ≠ .zero)
      (again : (newValue node.interval node.type).itInterval = .zero → r.expirations node = 0) :
      Step r (.expires node) { r with
        timers := { r.timers with expired := insert node.fd r.timers.expired }
        expirations := oneMore r.expirations node }
  | opens (fd : ℕ) (isNew : fd ∉ r.timers.opened) :
      Step r (.opens fd)
        { r with timers := { r.timers with opened := insert fd r.timers.opened } }
  | closes (fd : ℕ) (isOther : ∀ node ∈ r.timers.nodes, node.fd ≠ fd) :
      Step r (.closes fd) { r with timers := { r.timers with
        opened := r.timers.opened.erase fd
        expired := r.timers.expired.erase fd } }
  | fills (place : r.place = .between) (ended : r.slots = [])
      (fits : r.timers.nodes.length ≤ maxTimerCount) :
      Step r .fills { r with
        slots := r.timers.nodes.map fun node => (node.fd, false)
        place := .polling }
  /-- Whatever `poll` reports: timers may have been stopped and descriptors given out meanwhile. -/
  | polls (revents : ℕ → Bool) (place : r.place = .polling) :
      Step r (.polls revents) { r with
        slots := r.slots.map fun slot => (slot.1, revents slot.1)
        place := .between }
  /-- A `read` on a timer returns 8 bytes if the timer has expired, and blocks until then. -/
  | reads (fd : ℕ) (revents : Bool) (rest : List (ℕ × Bool)) (s : Int32)
      (place : r.place = .between) (slots : r.slots = (fd, revents) :: rest)
      (reads : fd ∈ r.timers.expired → s = 8)
      (blocks : s = 8 → ∀ node ∈ r.timers.nodes, node.fd = fd → fd ∈ r.timers.expired) :
      Step r (.reads s) { r with
        timers := (readSlot r.timers fd revents s).2
        slots := rest
        place := ((readSlot r.timers fd revents s).1.map .read).getD .between }
  | finds (fd : ℕ) (place : r.place = .read fd) :
      Step r .finds { r with
        place := ((getTimerFromFd r.timers fd).map fun node => .found node.addr).getD .between }
  /-- A timer that is no longer in the list has been freed, and nothing is said of its call. -/
  | calls (node : TimerNode) (isNode : node ∈ r.timers.nodes) (place : r.place = .found node.addr) :
      Step r .calls { r with
        place := .between
        calls := if node.callback = none then r.calls else oneMore r.calls node }

/-- A program that starts with no timers. -/
def system : System TimerRun TimerRunEvent where
  init r := r = ⟨⟨[], ∅, ∅, 0⟩, [], .between, fun _ => 0, fun _ => 0⟩
  step := Step

/-- No timer is started with the descriptor that has been read, before the lookup. -/
def LookedUpFirst (r : TimerRun) : TimerRunEvent → Prop
  | .starts _ timerfd _ _ _ _ => ∀ fd, timerfd = some fd → r.place ≠ .read fd
  | _ => True

/-- The timer that has been found is not stopped, before the call. -/
def CalledFirst (r : TimerRun) : TimerRunEvent → Prop
  | .stops id => r.place ≠ .found id
  | _ => True

def Undisturbed (r : TimerRun) (event : TimerRunEvent) : Prop :=
  r.LookedUpFirst event ∧ r.CalledFirst event

/-- A timer for which the thread has read an expiration and that it has not called. -/
def AwaitedAt (node : TimerNode) : TimerPlace → Prop
  | .read fd => node.fd = fd
  | .found tmp => node.addr = tmp
  | _ => False

instance (node : TimerNode) : DecidablePred (AwaitedAt node)
  | .between => inferInstanceAs (Decidable False)
  | .polling => inferInstanceAs (Decidable False)
  | .read fd => inferInstanceAs (Decidable (node.fd = fd))
  | .found tmp => inferInstanceAs (Decidable (node.addr = tmp))

/-- The calls of a timer that are due: for an expiration to be read, and for one that has been
read. -/
def due (expired : Finset ℕ) (place : TimerPlace) (node : TimerNode) : ℕ :=
  (if node.fd ∈ expired then 1 else 0) + if AwaitedAt node place then 1 else 0

section Due

variable {expired expired' : Finset ℕ} {place place' : TimerPlace} {node : TimerNode}

theorem due_mono (isExpired : node.fd ∈ expired → node.fd ∈ expired')
    (isAwaited : AwaitedAt node place → AwaitedAt node place') :
    due expired place node ≤ due expired' place' node := by
  apply Nat.add_le_add
  · split
    case isTrue still => rw [if_pos (isExpired still)]
    case isFalse => exact Nat.zero_le _
  · split
    case isTrue still => rw [if_pos (isAwaited still)]
    case isFalse => exact Nat.zero_le _

theorem due_eq_zero (notExpired : node.fd ∉ expired) (notAwaited : ¬AwaitedAt node place) :
    due expired place node = 0 := by
  rw [due, if_neg notExpired, if_neg notAwaited]

theorem due_insert : due (insert node.fd expired) place node ≤ due expired place node + 1 := by
  rw [due, due, if_pos (Finset.mem_insert_self _ _)]
  omega

/-- An expiration is read. -/
theorem due_erase (isExpired : node.fd ∈ expired) :
    due (expired.erase node.fd) place node ≤ due expired .between node := by
  rw [due, due, if_neg (Finset.notMem_erase _ _), if_pos isExpired, Nat.zero_add]
  split
  · exact Nat.le_add_right _ _
  · exact Nat.zero_le _

/-- The expiration that has been read is followed by a call. -/
theorem due_found : due expired (.found node.addr) node = due expired .between node + 1 := by
  have awaited : AwaitedAt node (.found node.addr) := rfl
  rw [due, due, if_pos awaited, if_neg (fun absurd : AwaitedAt node .between => absurd)]

end Due

/-- Each call of a timer, made or due, is for an expiration of its own, and the timer that has
been found is still there. -/
structure Counted (r : TimerRun) : Prop where
  valid : r.timers.Valid
  bounded : ∀ node, r.calls node ≤ r.expirations node
  paid : ∀ node ∈ r.timers.nodes,
    r.calls node + due r.timers.expired r.place node ≤ r.expirations node
  single : ∀ node : TimerNode, node.type = .singleShot → r.expirations node ≤ 1
  disarmed : ∀ node : TimerNode, node.interval = 0 → r.expirations node = 0
  held : ∀ tmp, r.place = .found tmp → ∃ node ∈ r.timers.nodes, node.addr = tmp

variable {r after : TimerRun} {node : TimerNode} {fd : ℕ} {revents : Bool} {s : Int32}

section Steps

/-- Timers change, and no more calls are due. -/
theorem Counted.timers {timers : Timers} (counted : r.Counted) (valid : timers.Valid)
    (kept : ∀ node ∈ timers.nodes,
      (node ∈ r.timers.nodes ∧ (node.fd ∈ timers.expired → node.fd ∈ r.timers.expired)) ∨
        (node.fd ∉ timers.expired ∧ ¬AwaitedAt node r.place))
    (held : ∀ node ∈ r.timers.nodes, r.place = .found node.addr → node ∈ timers.nodes) :
    Counted { r with timers := timers } := by
  refine ⟨valid, counted.bounded, ?_, counted.single, counted.disarmed, ?_⟩
  · intro node isNode
    rcases kept node isNode with ⟨isOld, expired⟩ | ⟨notExpired, notAwaited⟩
    · have fewer : due timers.expired r.place node ≤ due r.timers.expired r.place node :=
        due_mono expired id
      exact (Nat.add_le_add_left fewer _).trans (counted.paid node isOld)
    · have nothing : due timers.expired r.place node = 0 := due_eq_zero notExpired notAwaited
      show r.calls node + due timers.expired r.place node ≤ r.expirations node
      rw [nothing]
      exact counted.bounded node
  · intro tmp isFound
    rcases counted.held tmp isFound with ⟨node, isNode, rfl⟩
    exact ⟨node, held node isNode isFound, rfl⟩

theorem Counted.stops {id : ℕ} (counted : r.Counted) (undisturbed : r.place ≠ .found id) :
    Counted { r with timers := timerStop r.timers id } := by
  have stopped := Timers.timerStop_stopped r.timers id
  apply counted.timers (stopped.valid counted.valid)
  · intro node isNode
    generalize timerStop r.timers id = timers at stopped isNode
    cases stopped with
    | nothing => exact .inl ⟨isNode, fun isExpired => isExpired⟩
    | stopped before behind old split =>
        exact .inl ⟨(Timers.sublist_of_split split).subset isNode, Finset.mem_of_mem_erase⟩
  · intro node isNode isFound
    have other : node.addr ≠ id := by
      rintro rfl
      exact undisturbed isFound
    unfold timerStop
    split
    · exact isNode
    · split
      · exact isNode
      · exact (List.mem_eraseP_of_neg (by simpa using other)).mpr isNode

/-- A timer that is started has not expired, and neither its descriptor has been read nor itself
been found. -/
theorem Counted.starts {malloc timerfd : Option ℕ} (counted : r.Counted)
    (fresh : ∀ addr, malloc = some addr → addr ≠ 0 ∧ ∀ node ∈ r.timers.nodes, node.addr ≠ addr)
    (isNew : ∀ fd, timerfd = some fd → fd ∉ r.timers.opened)
    (undisturbed : ∀ fd, timerfd = some fd → r.place ≠ .read fd) (interval : UInt32)
    (handler : Option ℕ) (type : TimerType) (userData : ℕ) :
    Counted { r with
      timers := (timerStart r.timers malloc timerfd interval handler type userData).2 } := by
  have started := Timers.timerStart_started fresh isNew interval handler type userData
  cases malloc with
  | none => exact counted
  | some addr =>
      cases timerfd with
      | none => exact counted
      | some fd =>
          apply counted.timers (started.valid counted.valid)
          · intro node isNode
            rcases List.mem_cons.mp isNode with rfl | isOld
            · refine .inr ⟨Finset.notMem_erase _ _, ?_⟩
              cases place : r.place with
              | between => exact id
              | polling => exact id
              | read other =>
                  rintro rfl
                  exact undisturbed _ rfl place
              | found tmp =>
                  rintro rfl
                  rcases counted.held _ place with ⟨node, isNode, same⟩
                  exact (fresh addr rfl).2 node isNode same
            · exact .inl ⟨isOld, Finset.mem_of_mem_erase⟩
          · intro node isNode _
            exact List.mem_cons_of_mem _ isNode

theorem Counted.expires (counted : r.Counted) (isNode : node ∈ r.timers.nodes)
    (armed : (newValue node.interval node.type).itValue ≠ .zero)
    (again : (newValue node.interval node.type).itInterval = .zero → r.expirations node = 0) :
    Counted { r with
      timers := { r.timers with expired := insert node.fd r.timers.expired }
      expirations := oneMore r.expirations node } := by
  rcases counted with ⟨valid, bounded, paid, single, disarmed, held⟩
  rw [newValue_armed_iff] at armed
  have self := oneMore_self r.expirations node
  refine ⟨⟨valid.addrs, valid.fds, valid.opened, valid.made⟩, ?_, ?_, ?_, ?_, held⟩
  · intro other
    by_cases same : other = node
    · subst same
      exact (bounded other).trans ((Nat.le_succ _).trans_eq self.symm)
    · exact (bounded other).trans_eq (oneMore_of_ne _ same).symm
  · intro other isOther
    have isPaid := paid other isOther
    by_cases same : other = node
    · subst same
      have more := @due_insert r.timers.expired r.place other
      show r.calls other + due (insert other.fd r.timers.expired) r.place other ≤
        oneMore r.expirations other other
      rw [self]
      omega
    · have fds : other.fd ≠ node.fd :=
        fun sameFd => same (List.inj_on_of_nodup_map valid.fds isOther isNode sameFd)
      have fewer : due (insert node.fd r.timers.expired) r.place other ≤
          due r.timers.expired r.place other :=
        due_mono (fun isExpired => Finset.mem_of_mem_insert_of_ne isExpired fds) id
      exact (Nat.add_le_add_left fewer _).trans (isPaid.trans_eq (oneMore_of_ne _ same).symm)
  · intro other isSingle
    by_cases same : other = node
    · subst same
      have once := (newValue_again_iff armed other.type).mpr isSingle
      exact self.trans_le (Nat.succ_le_succ (again once).le)
    · exact (oneMore_of_ne _ same).trans_le (single other isSingle)
  · intro other isZero
    by_cases same : other = node
    · subst same
      exact absurd isZero armed
    · exact (oneMore_of_ne _ same).trans (disarmed other isZero)

/-- The thread goes on, and no more calls are due. -/
theorem Counted.moves {place : TimerPlace} {slots : List (ℕ × Bool)} (counted : r.Counted)
    (fewer : ∀ node ∈ r.timers.nodes, AwaitedAt node place → AwaitedAt node r.place)
    (held : ∀ tmp, place = .found tmp → ∃ node ∈ r.timers.nodes, node.addr = tmp) :
    Counted { r with slots := slots, place := place } := by
  refine ⟨counted.valid, counted.bounded, ?_, counted.single, counted.disarmed, held⟩
  intro node isNode
  have fewer : due r.timers.expired place node ≤ due r.timers.expired r.place node :=
    due_mono id (fewer node isNode)
  exact (Nat.add_le_add_left fewer _).trans (counted.paid node isNode)

/-- What has been read had expired. -/
theorem Counted.reads {rest : List (ℕ × Bool)} (counted : r.Counted)
    (place : r.place = .between) (revents : Bool)
    (blocks : s = 8 → ∀ node ∈ r.timers.nodes, node.fd = fd → fd ∈ r.timers.expired) :
    Counted { r with
      timers := (readSlot r.timers fd revents s).2
      slots := rest
      place := ((readSlot r.timers fd revents s).1.map .read).getD .between } := by
  rcases counted with ⟨valid, bounded, paid, single, disarmed, -⟩
  rw [place] at paid
  cases revents with
  | false => exact ⟨valid, bounded, paid, single, disarmed, nofun⟩
  | true =>
      have readValid : Timers.Valid { r.timers with expired := r.timers.expired.erase fd } :=
        ⟨valid.addrs, valid.fds, valid.opened, valid.made⟩
      refine ⟨readValid, bounded, ?_, single, disarmed, ?_⟩
      · intro node isNode
        have fewer : due (r.timers.expired.erase fd)
            (((if s ≠ 8 then none else some fd).map .read).getD .between) node ≤
              due r.timers.expired .between node := by
          by_cases read : s = 8 ∧ node.fd = fd
          · rcases read with ⟨read, rfl⟩
            exact due_erase (blocks read node isNode rfl)
          · apply due_mono Finset.mem_of_mem_erase
            intro isAwaited
            split at isAwaited
            case isTrue => exact isAwaited
            case isFalse isEight => exact absurd ⟨not_not.mp isEight, isAwaited⟩ read
        exact (Nat.add_le_add_left fewer _).trans (paid node isNode)
      · intro tmp isFound
        have never : ((if s ≠ 8 then none else some fd).map TimerPlace.read).getD .between ≠
            .found tmp := by
          split <;> exact nofun
        exact absurd isFound never

/-- The timer with the descriptor that has been read is found, and no other one. -/
theorem Counted.finds (counted : r.Counted) (place : r.place = .read fd) :
    Counted { r with
      place := ((getTimerFromFd r.timers fd).map fun node => .found node.addr).getD .between } := by
  cases isFound : getTimerFromFd r.timers fd with
  | none => exact counted.moves (fun _ _ isAwaited => isAwaited.elim) nofun
  | some node =>
      have isNode : node ∈ r.timers.nodes := List.mem_of_find?_eq_some isFound
      have descriptor := List.find?_some isFound
      apply counted.moves
      · intro other isOther isAwaited
        have sameAddr : other.addr = node.addr := isAwaited
        rw [List.inj_on_of_nodup_map counted.valid.addrs isOther isNode sameAddr, place]
        exact of_decide_eq_true descriptor
      · intro tmp isTmp
        cases isTmp
        exact ⟨node, isNode, rfl⟩

/-- A timer is called for the expiration that has been read. -/
theorem Counted.calls (counted : r.Counted) (isNode : node ∈ r.timers.nodes)
    (place : r.place = .found node.addr) :
    Counted { r with
      place := .between
      calls := if node.callback = none then r.calls else oneMore r.calls node } := by
  have moved : Counted { r with place := .between } :=
    counted.moves (fun _ _ isAwaited => isAwaited.elim) nofun
  split
  case isTrue => exact moved
  case isFalse =>
    have self := oneMore_self r.calls node
    have isPaid := counted.paid node isNode
    rw [place, due_found] at isPaid
    refine ⟨moved.valid, ?_, ?_, moved.single, moved.disarmed, moved.held⟩
    · intro other
      by_cases same : other = node
      · subst same
        have called : r.calls other + 1 ≤ r.expirations other := by omega
        exact self.trans_le called
      · exact (oneMore_of_ne _ same).trans_le (counted.bounded other)
    · intro other isOther
      by_cases same : other = node
      · subst same
        show oneMore r.calls other other + due r.timers.expired .between other ≤
          r.expirations other
        rw [self]
        omega
      · show oneMore r.calls node other + due r.timers.expired .between other ≤
          r.expirations other
        rw [oneMore_of_ne _ same]
        exact moved.paid other isOther

theorem Counted.step {event : TimerRunEvent} (counted : r.Counted)
    (undisturbed : r.Undisturbed event) (stepped : r.Step event after) : after.Counted := by
  have valid := counted.valid
  cases stepped with
  | starts malloc timerfd interval handler type userData fresh isNew =>
      exact counted.starts fresh isNew undisturbed.1 interval handler type userData
  | stops id isLive => exact counted.stops undisturbed.2
  | expires node isNode armed again => exact counted.expires isNode armed again
  | opens fd isNew =>
      exact counted.timers ((Timers.Outside.opens fd isNew).valid valid)
        (fun node isNode => .inl ⟨isNode, id⟩) (fun node isNode _ => isNode)
  | closes fd isOther =>
      exact counted.timers ((Timers.Outside.closes fd isOther).valid valid)
        (fun node isNode => .inl ⟨isNode, Finset.mem_of_mem_erase⟩) (fun node isNode _ => isNode)
  | fills place ended fits => exact counted.moves (fun _ _ isAwaited => isAwaited.elim) nofun
  | polls revents place => exact counted.moves (fun _ _ isAwaited => isAwaited.elim) nofun
  | reads fd revents rest s place slots reads blocks => exact counted.reads place revents blocks
  | finds fd place => exact counted.finds place
  | calls node isNode place => exact counted.calls isNode place

end Steps

/-- The first timer that a program starts, single-shot. -/
def firstTimer : TimerNode :=
  ⟨100, 3, some 1, 0, 10, .singleShot, 0⟩

/-- It has expired once, and the thread is somewhere. -/
def firstExpired (expired : Finset ℕ) (slots : List (ℕ × Bool)) (place : TimerPlace) :
    TimerRun where
  timers := ⟨[firstTimer], {3}, expired, 1⟩
  slots := slots
  place := place
  expirations := oneMore (fun _ => 0) firstTimer
  calls _ := 0

theorem reachable_firstRead :
    (system.restrict Undisturbed).Reachable (firstExpired ∅ [] (.read 3)) := by
  have isStarted : (system.restrict Undisturbed).Reachable
      ⟨⟨[firstTimer], {3}, ∅, 1⟩, [], .between, fun _ => 0, fun _ => 0⟩ := by
    refine .step (.starts (some 100) (some 3) 10 (some 1) .singleShot 0) (.init rfl)
      ⟨⟨?_, trivial⟩, .starts _ _ _ _ _ _ ?_ ?_⟩
    · intro fd isFd isRead
      cases isRead
    · intro addr isAddr
      cases isAddr
      exact ⟨by decide, nofun⟩
    · intro fd isFd isOpen
      cases isOpen
  have isExpired : (system.restrict Undisturbed).Reachable (firstExpired {3} [] .between) :=
    .step (.expires firstTimer) isStarted
      ⟨⟨trivial, trivial⟩, .expires firstTimer (by decide) (by decide) fun _ => rfl⟩
  have isFilled : (system.restrict Undisturbed).Reachable
      (firstExpired {3} [(3, false)] .polling) :=
    .step .fills isExpired ⟨⟨trivial, trivial⟩, .fills rfl rfl (by decide)⟩
  have isPolled : (system.restrict Undisturbed).Reachable
      (firstExpired {3} [(3, true)] .between) :=
    .step (.polls fun _ => true) isFilled ⟨⟨trivial, trivial⟩, .polls _ rfl⟩
  exact .step (.reads 8) isPolled
    ⟨⟨trivial, trivial⟩, .reads 3 true [] 8 rfl rfl (fun _ => rfl) (fun _ _ _ _ => by decide)⟩

theorem reachable_firstFound :
    (system.restrict Undisturbed).Reachable (firstExpired ∅ [] (.found 100)) :=
  .step .finds reachable_firstRead ⟨⟨trivial, trivial⟩, .finds 3 rfl⟩

/-- Another timer, in the memory of the first one. -/
def secondTimer (fd : ℕ) : TimerNode :=
  ⟨100, fd, some 2, 0, 10, .singleShot, 1⟩

def secondStarted (fd : ℕ) (place : TimerPlace) : TimerRun :=
  { firstExpired ∅ [] place with timers := ⟨[secondTimer fd], {fd}, ∅, 2⟩ }

/-- Another thread stops the first timer and starts the second one. -/
theorem reachable_second {allowed : TimerRun → TimerRunEvent → Prop} {place : TimerPlace} {fd : ℕ}
    (reachable : (system.restrict allowed).Reachable (firstExpired ∅ [] place))
    (mayStop : allowed (firstExpired ∅ [] place) (.stops 100))
    (mayStart : ∀ r : TimerRun, r.place = place →
      allowed r (.starts (some 100) (some fd) 10 (some 2) .singleShot 0)) :
    (system.restrict allowed).Reachable (secondStarted fd place) := by
  have isStopped : (system.restrict allowed).Reachable
      { firstExpired ∅ [] place with timers := ⟨[], ∅, ∅, 1⟩ } :=
    .step (.stops 100) reachable
      ⟨mayStop, .stops 100 (.inr ⟨firstTimer, List.mem_cons_self, rfl⟩)⟩
  refine .step (.starts (some 100) (some fd) 10 (some 2) .singleShot 0) isStopped
    ⟨mayStart _ rfl, .starts _ _ _ _ _ _ ?_ ?_⟩
  · intro addr isAddr
    cases isAddr
    exact ⟨by decide, nofun⟩
  · intro fd isFd
    exact Finset.notMem_empty fd

/-- It is called, and has not expired. -/
theorem second_called {allowed : TimerRun → TimerRunEvent → Prop} {fd : ℕ}
    (reachable : (system.restrict allowed).Reachable (secondStarted fd (.found 100)))
    (mayCall : allowed (secondStarted fd (.found 100)) .calls) : ∃ r : TimerRun, ∃ node,
      (system.restrict allowed).Reachable r ∧ r.calls node = 1 ∧ r.expirations node = 0 := by
  have called : (system.restrict allowed).Reachable
      { secondStarted fd .between with calls := oneMore (fun _ => 0) (secondTimer fd) } :=
    .step .calls reachable ⟨mayCall, .calls (secondTimer fd) List.mem_cons_self rfl⟩
  have differs : secondTimer fd ≠ firstTimer := by
    intro same
    cases congrArg TimerNode.serial same
  have calls : oneMore (fun _ => 0) (secondTimer fd) (secondTimer fd) = 1 := oneMore_self _ _
  have expirations : oneMore (fun _ => 0) firstTimer (secondTimer fd) = 0 :=
    oneMore_of_ne _ differs
  exact ⟨_, secondTimer fd, called, calls, expirations⟩

/-- A timer that is given the descriptor before the lookup is called although it has not
expired. -/
theorem calls_before_lookup : ∃ r : TimerRun, ∃ node : TimerNode,
    (system.restrict CalledFirst).Reachable r ∧ r.calls node = 1 ∧ r.expirations node = 0 := by
  have read := reachable_firstRead.mono fun _ _ undisturbed => undisturbed.2
  have second := @reachable_second _ _ 3 read nofun fun _ _ => trivial
  have found : (system.restrict CalledFirst).Reachable (secondStarted 3 (.found 100)) :=
    .step .finds second ⟨trivial, .finds 3 rfl⟩
  exact second_called found trivial

/-- A timer that is given the memory before the call is called although it has not expired. -/
theorem calls_before_call : ∃ r : TimerRun, ∃ node : TimerNode,
    (system.restrict LookedUpFirst).Reachable r ∧ r.calls node = 1 ∧ r.expirations node = 0 := by
  have found := reachable_firstFound.mono fun _ _ undisturbed => undisturbed.1
  have second := @reachable_second _ _ 5 found trivial ?_
  · exact second_called second trivial
  · intro r isFound fd _ isRead
    cases isFound.symm.trans isRead

end TimerRun

end Libhelp
