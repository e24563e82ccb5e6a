import Libhelp.Timer.Heap
import Libhelp.Timer.Ufds

/-!
# The live timers

A timer is live from the call of `timer_start` that has returned its id until a call of
`timer_stop` with that id.  In a program that stops live timers only, the nodes in memory
represent the list of the live timers at any time, the newest one first.
-/

namespace Libhelp

open Transition LinkedList

/-- What a call has done: `timer_start` has returned the id of a timer or 0, or `timer_stop` has
returned. -/
inductive TimerReturn where
  | started (node : TimerNode)
  | failed
  | stopped (id : ℕ)

/-- A timer that has been started and not been stopped since.  The last call comes first in a
history. -/
def Live (history : List TimerReturn) (node : TimerNode) : Prop :=
  ∃ later earlier, history = later ++ .started node :: earlier ∧ .stopped node.addr ∉ later

/-- The timers that have not been stopped, the newest one first. -/
def liveTimers : List TimerReturn → List TimerNode
  | [] => []
  | .started node :: earlier => node :: liveTimers earlier
  | .failed :: earlier => liveTimers earlier
  | .stopped id :: earlier => (liveTimers earlier).filter fun node => node.addr ≠ id

/-- All timers that have been started, the newest one first. -/
def startedTimers (history : List TimerReturn) : List TimerNode :=
  history.filterMap fun
    | .started node => some node
    | _ => none

def timersMade : List TimerReturn → ℕ
  | [] => 0
  | .started _ :: earlier => timersMade earlier + 1
  | .failed :: earlier => timersMade earlier
  | .stopped _ :: earlier => timersMade earlier

section History

variable {history : List TimerReturn} {event : TimerReturn} {node : TimerNode}

theorem live_cons : Live (event :: history) node ↔
    event = .started node ∨ event ≠ .stopped node.addr ∧ Live history node := by
  constructor
  · intro live
    rcases live with ⟨later, earlier, split, unstopped⟩
    cases later with
    | nil => exact Or.inl (List.cons.inj split).1
    | cons first later =>
        rcases List.cons.inj split with ⟨rfl, rest⟩
        rcases not_or.mp (List.mem_cons.not.mp unstopped) with ⟨differs, unstopped⟩
        exact Or.inr ⟨Ne.symm differs, later, earlier, rest, unstopped⟩
  · intro condition
    rcases condition with rfl | ⟨differs, later, earlier, rfl, unstopped⟩
    · exact ⟨[], history, rfl, List.not_mem_nil⟩
    · refine ⟨event :: later, earlier, rfl, ?_⟩
      exact List.mem_cons.not.mpr (not_or.mpr ⟨differs.symm, unstopped⟩)

theorem mem_liveTimers : node ∈ liveTimers history ↔ Live history node := by
  induction history with
  | nil =>
      apply iff_of_false List.not_mem_nil
      intro live
      rcases live with ⟨later, earlier, split, -⟩
      simp at split
  | cons event earlier ih =>
      rw [live_cons, ← ih]
      cases event with
      | started other =>
          have same : TimerReturn.started other = .started node ↔ node = other := by
            rw [TimerReturn.started.injEq, eq_comm]
          rw [liveTimers, List.mem_cons, same]
          simp
      | failed =>
          rw [liveTimers]
          simp
      | stopped id =>
          have differs : TimerReturn.stopped id ≠ .stopped node.addr ↔ node.addr ≠ id := by
            rw [ne_eq, TimerReturn.stopped.injEq, eq_comm]
          rw [liveTimers, List.mem_filter, decide_eq_true_iff, differs]
          simp [and_comm]

theorem liveTimers_sublist (history : List TimerReturn) :
    List.Sublist (liveTimers history) (startedTimers history) := by
  induction history with
  | nil => exact List.Sublist.refl _
  | cons event earlier ih =>
      cases event with
      | started node => exact ih.cons_cons node
      | failed => exact ih
      | stopped id => exact List.filter_sublist.trans ih

end History

namespace Timers

variable {t after : Timers}

theorem system_of_callSystem (reachable : callSystem.Reachable t) : system.Reachable t := by
  induction reachable with
  | init starts => exact .init starts
  | step call _ stepped ih =>
      apply System.Reachable.step .call ih
      cases call with
      | start malloc timerfd interval handler type userData =>
          rcases stepped with ⟨fresh, isNew, rfl⟩
          exact .start malloc timerfd interval handler type userData fresh isNew
      | stop id =>
          rcases stepped with ⟨isLive, rfl⟩
          exact .stop id isLive
      | outside => exact .outside _ stepped

def NewestFirst (nodes : List TimerNode) : Prop :=
  nodes.Pairwise fun newer older => older.serial < newer.serial

theorem Started.newestFirst (started : t.Started after) (valid : t.Valid)
    (sorted : NewestFirst t.nodes) : NewestFirst after.nodes := by
  cases started with
  | nothing => exact sorted
  | started node isFresh isNew serial =>
      apply List.Pairwise.cons _ sorted
      intro older isOlder
      rw [serial]
      exact valid.made older isOlder

theorem newestFirst (reachable : callSystem.Reachable t) : NewestFirst t.nodes := by
  induction reachable with
  | init starts =>
      rename_i t
      have empty : t = ⟨[], ∅, ∅, 0⟩ := starts
      rw [empty]
      exact List.Pairwise.nil
  | step call before stepped ih =>
      rename_i t after
      cases call with
      | start malloc timerfd interval handler type userData =>
          rcases stepped with ⟨fresh, isNew, same⟩
          have valid := reachable_valid (system_of_callSystem before)
          rw [same]
          exact (timerStart_started fresh isNew interval handler type userData).newestFirst
            valid ih
      | stop id =>
          rw [stepped.2]
          exact ih.sublist (timerStop_stopped t id).nodes_sublist
      | outside =>
          have same : after.nodes = t.nodes := Outside.nodes stepped
          rw [same]
          exact ih

end Timers

namespace TimerHeap

/-- What happens that is not done with timers. -/
inductive Outside (h : TimerHeap) : TimerHeap → Prop where
  | expires (addr : ℕ) (node : TimerCell) (stored : h.mem addr = some node) :
      Outside h { h with expired := insert node.fd h.expired }
  | opens (fd : ℕ) (isNew : fd ∉ h.opened) : Outside h { h with opened := insert fd h.opened }
  | closes (fd : ℕ) (isOther : ∀ addr node, h.mem addr = some node → node.fd ≠ fd) :
      Outside h { h with opened := h.opened.erase fd, expired := h.expired.erase fd }

/-- The calls of `timer_start` and `timer_stop`.  What `malloc` returns is not allocated, and what
`timerfd_create` returns is not open. -/
def system : System TimerHeap TimerCall where
  init h := h = ⟨fun _ => none, 0, ∅, ∅, []⟩
  step h call after :=
    match call with
    | .start malloc timerfd interval handler type userData =>
        (∀ addr, malloc = some addr → addr ≠ 0 ∧ h.mem addr = none) ∧
          (∀ fd, timerfd = some fd → fd ∉ h.opened) ∧
            after = (h.timerStart malloc timerfd interval handler type userData).2
    | .stop id => ∃ fuel, h.timerStop fuel id = some after
    | .outside => h.Outside after

/-- What a call adds to the history. -/
def remember (h : TimerHeap) (call : TimerCall) (history : List TimerReturn) :
    List TimerReturn :=
  match call with
  | .start malloc timerfd interval handler type userData =>
      let id := (h.timerStart malloc timerfd interval handler type userData).1
      if id = 0 then
        .failed :: history
      else
        .started ⟨id, timerfd.getD 0, handler, userData, interval, type, timersMade history⟩ ::
          history
  | .stop id => .stopped id :: history
  | .outside => history

/-- `timer_stop` is called with `NULL` or the id of a live timer. -/
def StopsLive (s : TimerHeap × List TimerReturn) : TimerCall → Prop
  | .stop id => id = 0 ∨ ∃ node, Live s.2 node ∧ node.addr = id
  | _ => True

/-- A program that stops live timers only, with the history of its calls. -/
def program : System (TimerHeap × List TimerReturn) TimerCall :=
  (system.recording [] remember).restrict StopsLive

/-- The list of timers that the nodes represent. -/
def timers (s : TimerHeap × List TimerReturn) : Timers :=
  ⟨liveTimers s.2, s.1.opened, s.1.expired, timersMade s.2⟩

/-- The list at `g_head` is that of the live timers, each once and the newest one first, with open
descriptors of their own; and the functions find them, stop them and finalize them. -/
structure HoldsLive (h : TimerHeap) (history : List TimerReturn) (nodes : List TimerNode) :
    Prop where
  gHead : h.gHead = timerLayout.first 0 nodes
  linked : timerLayout.Linked h.mem 0 nodes
  allocated : ∀ addr, h.mem addr ≠ none ↔ ∃ node ∈ nodes, node.addr = addr
  live : ∀ node, node ∈ nodes ↔ Live history node
  started : List.Sublist nodes (startedTimers history)
  newestFirst : Timers.NewestFirst nodes
  once : (nodes.map TimerNode.addr).Nodup
  distinct : (nodes.map TimerNode.fd).Nodup
  opened : ∀ node ∈ nodes, node.fd ∈ h.opened
  owner : ∀ fuel, nodes.length < fuel → ∀ node ∈ nodes,
    h.getTimerFromFd fuel node.fd = some node.addr
  noOwner : ∀ fuel, nodes.length < fuel → ∀ fd, (∀ node ∈ nodes, node.fd ≠ fd) →
    h.getTimerFromFd fuel fd = some 0
  stops : ∀ fuel, nodes.length < fuel → ∀ node ∈ nodes, ∃ after,
    h.timerStop fuel node.addr = some after ∧
      after.released = h.released ++ [.close node.fd, .free node.addr]
  finalizes : ∀ fuel, nodes.length < fuel → ∃ after,
    h.timerFinalize fuel = some after ∧ h.Finalized nodes after

variable {h after : TimerHeap} {history : List TimerReturn} {call : TimerCall}
  {malloc timerfd : Option ℕ} {interval : UInt32} {handler : Option ℕ} {type : TimerType}
  {userData id : ℕ}

section Steps

theorem timers_start (fresh : ∀ addr, malloc = some addr → addr ≠ 0 ∧ h.mem addr = none) :
    timers ((h.timerStart malloc timerfd interval handler type userData).2,
        h.remember (.start malloc timerfd interval handler type userData) history) =
      (Libhelp.timerStart (timers (h, history)) malloc timerfd interval handler type
        userData).2 := by
  cases malloc with
  | none => rfl
  | some addr =>
      cases timerfd with
      | none => rfl
      | some fd =>
          have nonnull : addr ≠ 0 := (fresh addr rfl).1
          have started : h.remember (.start (some addr) (some fd) interval handler type userData)
              history = .started ⟨addr, fd, handler, userData, interval, type,
                timersMade history⟩ :: history := if_neg nonnull
          rw [started]
          rfl

theorem timers_stop {fuel : ℕ} (represents : h.Represents (timers (h, history)))
    (valid : (timers (h, history)).Valid)
    (isLive : id = 0 ∨ ∃ node, Live history node ∧ node.addr = id)
    (stops : h.timerStop fuel id = some after) :
    timers (after, .stopped id :: history) = Libhelp.timerStop (timers (h, history)) id ∧
      after.Represents (Libhelp.timerStop (timers (h, history)) id) := by
  rcases isLive with rfl | ⟨node, live, rfl⟩
  · cases stops
    have all : (liveTimers history).filter (fun node => node.addr ≠ 0) = liveTimers history := by
      apply List.filter_eq_self.mpr
      intro node isNode
      exact decide_eq_true (represents.linked.stored isNode).1
    refine ⟨?_, represents⟩
    rw [timers, liveTimers, all]
    rfl
  · have isNode : node ∈ liveTimers history := mem_liveTimers.mpr live
    have nonnull : node.addr ≠ 0 := (represents.linked.stored isNode).1
    rcases List.append_of_mem isNode with ⟨before, behind, split⟩
    have enough : (liveTimers history).length < fuel + ((liveTimers history).length + 1) := by
      omega
    rcases represents.timerStop valid isNode enough with ⟨other, stopsToo, stillRepresents, -⟩
    rw [timerStop_add stops] at stopsToo
    cases stopsToo
    refine ⟨?_, stillRepresents⟩
    have opened := stillRepresents.opened
    have expired := stillRepresents.expired
    rw [timerStop_of_split valid nonnull split] at opened expired ⊢
    have remaining : (liveTimers history).filter (fun other => other.addr ≠ node.addr) =
        before ++ behind := by
      rw [split]
      exact Search.filter_ne (split ▸ valid.addrs)
    rw [timers, liveTimers, remaining]
    dsimp only
    rw [opened, expired]
    rfl

theorem timers_outside (represents : h.Represents (timers (h, history)))
    (outside : h.Outside after) :
    (timers (h, history)).Outside (timers (after, history)) ∧
      after.Represents (timers (after, history)) := by
  cases outside with
  | expires addr node stored =>
      rcases represents.allocated addr (stored ▸ Option.some_ne_none node) with
        ⟨timer, isTimer, rfl⟩
      have same := represents.fd_eq isTimer stored
      rw [same]
      exact ⟨.expires timer isTimer, represents.gHead, represents.linked, represents.allocated,
        rfl, rfl⟩
  | opens fd isNew =>
      exact ⟨.opens fd isNew, represents.gHead, represents.linked, represents.allocated, rfl, rfl⟩
  | closes fd isOther =>
      refine ⟨.closes fd ?_, represents.gHead, represents.linked, represents.allocated, rfl, rfl⟩
      intro timer isTimer
      rcases represents.linked.stored isTimer with ⟨-, next, stored, -⟩
      exact isOther timer.addr _ stored

end Steps

/-- The nodes in memory represent the live timers, and change as the list of them does. -/
theorem program_refines {s : TimerHeap × List TimerReturn} (reachable : program.Reachable s) :
    Timers.callSystem.Reachable (timers s) ∧ s.1.Represents (timers s) := by
  apply reachable.invariant
  · intro s starts
    rcases s with ⟨h, history⟩
    rcases starts with ⟨rfl, rfl⟩
    refine ⟨.init rfl, rfl, trivial, ?_, rfl, rfl⟩
    intro addr isAllocated
    exact absurd rfl isAllocated
  · intro s call after holds stepped
    rcases s with ⟨h, history⟩
    rcases after with ⟨after, later⟩
    rcases holds with ⟨reachable, represents⟩
    have valid := Timers.reachable_valid (Timers.system_of_callSystem reachable)
    rcases stepped with ⟨allowed, stepped, remembered⟩
    have same : later = h.remember call history := remembered
    subst same
    cases call with
    | start malloc timerfd interval handler type userData =>
        rcases stepped with ⟨fresh, isNew, same⟩
        have isAfter :
            after = (h.timerStart malloc timerfd interval handler type userData).2 := same
        subst isAfter
        have started := @timers_start h history malloc timerfd interval handler type userData fresh
        rw [started]
        refine ⟨.step (.start malloc timerfd interval handler type userData) reachable
          ⟨?_, isNew, rfl⟩, (represents.timerStart fresh interval handler type userData).2⟩
        intro addr isAddr
        refine ⟨(fresh addr isAddr).1, ?_⟩
        intro node isNode
        exact represents.addr_ne isNode (fresh addr isAddr).2
    | stop id =>
        rcases stepped with ⟨fuel, stops⟩
        rcases timers_stop represents valid allowed stops with ⟨same, stillRepresents⟩
        have isStopped : timers (after, h.remember (.stop id) history) =
          Libhelp.timerStop (timers (h, history)) id := same
        rw [isStopped]
        refine ⟨.step (.stop id) reachable ⟨?_, rfl⟩, stillRepresents⟩
        exact allowed.imp_right fun live => live.imp fun node isLive =>
          ⟨mem_liveTimers.mpr isLive.1, isLive.2⟩
    | outside =>
        rcases timers_outside represents stepped with ⟨outside, stillRepresents⟩
        exact ⟨.step .outside reachable outside, stillRepresents⟩

/-- In any program that stops live timers only, the list at `g_head` is that of the live timers. -/
theorem program_holdsLive (reachable : program.Reachable (h, history)) :
    ∃ nodes, h.HoldsLive history nodes := by
  rcases program_refines reachable with ⟨lists, represents⟩
  have valid := Timers.reachable_valid (Timers.system_of_callSystem lists)
  refine ⟨liveTimers history, ?_⟩
  constructor
  · exact represents.gHead
  · exact represents.linked
  · intro addr
    constructor
    · exact represents.allocated addr
    · intro isAddr
      rcases isAddr with ⟨node, isNode, rfl⟩
      rcases represents.linked.stored isNode with ⟨-, next, stored, -⟩
      exact fun missing => Option.some_ne_none _ (stored.symm.trans missing)
  · exact fun node => mem_liveTimers
  · exact liveTimers_sublist history
  · exact Timers.newestFirst lists
  · exact valid.addrs
  · exact valid.fds
  · exact valid.opened
  · intro fuel enough node isNode
    have found : Libhelp.getTimerFromFd (timers (h, history)) node.fd = some node :=
      Search.find?_eq_some_of_nodup valid.fds isNode
    rw [represents.getTimerFromFd enough, found]
    rfl
  · intro fuel enough fd others
    have missing : Libhelp.getTimerFromFd (timers (h, history)) fd = none := by
      apply List.find?_eq_none.mpr
      intro node isNode isOwner
      exact others node isNode (of_decide_eq_true isOwner)
    rw [represents.getTimerFromFd enough, missing]
    rfl
  · intro fuel enough node isNode
    rcases represents.timerStop valid isNode enough with ⟨after, stops, -, released⟩
    exact ⟨after, stops, released⟩
  · intro fuel enough
    exact represents.timerFinalize valid enough

/-- With a free address and a new descriptor a timer may be started. -/
theorem reachable_start (reachable : program.Reachable (h, history)) {addr fd : ℕ}
    (nonnull : addr ≠ 0) (isFree : h.mem addr = none) (isNew : fd ∉ h.opened) :
    program.Reachable ((h.timerStart (some addr) (some fd) interval handler type userData).2,
      .started ⟨addr, fd, handler, userData, interval, type, timersMade history⟩ ::
        history) := by
  apply System.Reachable.step (.start (some addr) (some fd) interval handler type userData)
    reachable
  refine ⟨trivial, ⟨?_, ?_, rfl⟩, (if_neg nonnull).symm⟩
  · intro other isAddr
    cases isAddr
    exact ⟨nonnull, isFree⟩
  · intro other isFd
    cases isFd
    exact isNew

theorem reachable_stop {fuel : ℕ} (reachable : program.Reachable (h, history))
    {node : TimerNode} (live : Live history node)
    (stops : h.timerStop fuel node.addr = some after) :
    program.Reachable (after, .stopped node.addr :: history) :=
  .step (.stop node.addr) reachable ⟨Or.inr ⟨node, live, rfl⟩, ⟨fuel, stops⟩, rfl⟩

/-- The timer in the middle of three is stopped. -/
theorem program_holdsLive_stopped : ∃ h history, (liveTimers history).map TimerNode.addr =
    [300, 100] ∧ ∃ nodes, HoldsLive h history nodes := by
  have start : program.Reachable (⟨fun _ => none, 0, ∅, ∅, []⟩, []) := .init ⟨rfl, rfl⟩
  have one := @reachable_start _ _ 10 none .periodic 0 start 100 3 (by decide) rfl (by decide)
  have two := @reachable_start _ _ 10 none .singleShot 0 one 200 4 (by decide) rfl (by decide)
  have three := @reachable_start _ _ 10 none .periodic 0 two 300 5 (by decide) rfl (by decide)
  let first : TimerNode := ⟨100, 3, none, 0, 10, .periodic, 0⟩
  let second : TimerNode := ⟨200, 4, none, 0, 10, .singleShot, 1⟩
  let third : TimerNode := ⟨300, 5, none, 0, 10, .periodic, 2⟩
  have live : Live [.started third, .started second, .started first] second :=
    ⟨[.started third], [.started first], rfl, by simp⟩
  have stopped := @reachable_stop _ _ _ 4 three second live rfl
  exact ⟨_, _, rfl, program_holdsLive stopped⟩

end TimerHeap

end Libhelp
