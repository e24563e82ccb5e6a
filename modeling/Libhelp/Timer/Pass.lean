import Libhelp.Lib.Search
import Libhelp.Lib.Transition
import Libhelp.Timer.Timer

/-!
# A pass of the timer thread

The slots of a pass have been filled for the timers that were in the list.  While a
callback stops timers and starts others, a timer of the list keeps its descriptor, and
the slots of other timers have other descriptors.  So a timer that has expired and is
still in the list when its slot is reached has an expiration to be read there, and no
other slot finds it.
-/

namespace Libhelp

open Relation Transition

namespace Timers

/-- The nodes of the list have addresses of their own and descriptors of their own, which are
open. -/
structure Valid (t : Timers) : Prop where
  addrs : (t.nodes.map TimerNode.addr).Nodup
  fds : (t.nodes.map TimerNode.fd).Nodup
  opened : ∀ node ∈ t.nodes, node.fd ∈ t.opened
  made : ∀ node ∈ t.nodes, node.serial < t.made

/-- Timers that were in the list: those that were reported and are still there have an expiration
that has not been read. -/
def Pending (t : Timers) (ready : TimerNode → Bool) (timers : List TimerNode) : Prop :=
  ∀ timer ∈ timers, timer.serial < t.made ∧
    (ready timer = true → timer ∈ t.nodes → timer.fd ∈ t.expired)

variable {t after : Timers} {ready : TimerNode → Bool} {timers : List TimerNode}
  {node timer : TimerNode} {fd : ℕ} {revents : Bool} {s : Int32}

section Steps

theorem Outside.nodes (outside : t.Outside after) : after.nodes = t.nodes := by
  cases outside with
  | expires => rfl
  | opens => rfl
  | closes => rfl

theorem Outside.valid (outside : t.Outside after) (valid : t.Valid) : after.Valid := by
  rcases valid with ⟨addrs, fds, opened, made⟩
  cases outside with
  | expires node isNode => exact ⟨addrs, fds, opened, made⟩
  | opens fd isNew =>
      refine ⟨addrs, fds, ?_, made⟩
      intro node isNode
      exact Finset.mem_insert_of_mem (opened node isNode)
  | closes fd isOther =>
      refine ⟨addrs, fds, ?_, made⟩
      intro node isNode
      exact Finset.mem_erase_of_ne_of_mem (isOther node isNode) (opened node isNode)

theorem Outside.pending (outside : t.Outside after) (pending : t.Pending ready timers) :
    after.Pending ready timers := by
  intro timer isTimer
  rcases pending timer isTimer with ⟨made, expired⟩
  cases outside with
  | expires node isNode =>
      refine ⟨made, ?_⟩
      intro reported isLive
      exact Finset.mem_insert_of_mem (expired reported isLive)
  | opens fd isNew => exact ⟨made, expired⟩
  | closes fd isOther =>
      refine ⟨made, ?_⟩
      intro reported isLive
      exact Finset.mem_erase_of_ne_of_mem (isOther timer isLive) (expired reported isLive)

/-- `timer_stop` takes one node out of the list and closes its descriptor. -/
inductive Stopped (t : Timers) : Timers → Prop where
  | nothing : Stopped t t
  | stopped (before behind : List TimerNode) (node : TimerNode)
      (split : t.nodes = before ++ node :: behind) :
      Stopped t { t with
        nodes := before ++ behind
        opened := t.opened.erase node.fd
        expired := t.expired.erase node.fd }

theorem timerStop_stopped (t : Timers) (id : ℕ) : t.Stopped (timerStop t id) := by
  unfold timerStop
  split
  · exact .nothing
  · split
    · exact .nothing
    case h_2 node found =>
      rcases Search.exists_split_of_find? found with ⟨before, behind, split, -, erased⟩
      rw [erased]
      exact .stopped before behind node split

theorem sublist_of_split {before behind : List TimerNode}
    (split : t.nodes = before ++ node :: behind) : List.Sublist (before ++ behind) t.nodes := by
  rw [split]
  exact (List.sublist_cons_self node behind).append_left before

theorem Valid.fd_ne {before behind : List TimerNode} (valid : t.Valid)
    (split : t.nodes = before ++ node :: behind) (isOther : timer ∈ before ++ behind) :
    timer.fd ≠ node.fd := by
  intro same
  apply Search.map_notMem (split ▸ valid.fds)
  rw [← same]
  exact List.mem_map_of_mem isOther

theorem Stopped.valid (stopped : t.Stopped after) (valid : t.Valid) : after.Valid := by
  cases stopped with
  | nothing => exact valid
  | stopped before behind node split =>
      have fewer := sublist_of_split split
      refine ⟨?_, ?_, ?_, ?_⟩
      · exact valid.addrs.sublist (fewer.map _)
      · exact valid.fds.sublist (fewer.map _)
      · intro timer isOther
        exact Finset.mem_erase_of_ne_of_mem (valid.fd_ne split isOther)
          (valid.opened timer (fewer.subset isOther))
      · intro timer isOther
        exact valid.made timer (fewer.subset isOther)

theorem Stopped.pending (stopped : t.Stopped after) (valid : t.Valid)
    (pending : t.Pending ready timers) : after.Pending ready timers := by
  intro timer isTimer
  rcases pending timer isTimer with ⟨made, expired⟩
  cases stopped with
  | nothing => exact ⟨made, expired⟩
  | stopped before behind node split =>
      refine ⟨made, ?_⟩
      intro reported isOther
      have isLive : timer ∈ t.nodes := (sublist_of_split split).subset isOther
      exact Finset.mem_erase_of_ne_of_mem (valid.fd_ne split isOther) (expired reported isLive)

/-- `timer_start` puts a node with a new descriptor in front of the list. -/
inductive Started (t : Timers) : Timers → Prop where
  | nothing : Started t t
  | started (node : TimerNode) (isFresh : ∀ other ∈ t.nodes, other.addr ≠ node.addr)
      (isNew : node.fd ∉ t.opened) (serial : node.serial = t.made) :
      Started t {
        nodes := node :: t.nodes
        opened := insert node.fd t.opened
        expired := t.expired.erase node.fd
        made := t.made + 1 }

theorem timerStart_started {malloc timerfd : Option ℕ}
    (fresh : ∀ addr, malloc = some addr → addr ≠ 0 ∧ ∀ node ∈ t.nodes, node.addr ≠ addr)
    (isNew : ∀ fd, timerfd = some fd → fd ∉ t.opened) (interval : UInt32)
    (handler : Option ℕ) (type : TimerType) (userData : ℕ) :
    t.Started (timerStart t malloc timerfd interval handler type userData).2 := by
  unfold timerStart
  cases malloc with
  | none => exact .nothing
  | some addr =>
      cases timerfd with
      | none => exact .nothing
      | some fd =>
          exact .started ⟨addr, fd, handler, userData, interval, type, t.made⟩
            (fresh addr rfl).2 (isNew fd rfl) rfl

theorem Started.valid (started : t.Started after) (valid : t.Valid) : after.Valid := by
  cases started with
  | nothing => exact valid
  | started node isFresh isNew serial =>
      refine ⟨?_, ?_, ?_, ?_⟩
      · apply List.nodup_cons.mpr
        refine ⟨?_, valid.addrs⟩
        intro isUsed
        rcases List.mem_map.mp isUsed with ⟨other, isOther, same⟩
        exact isFresh other isOther same
      · apply List.nodup_cons.mpr
        refine ⟨?_, valid.fds⟩
        intro isUsed
        rcases List.mem_map.mp isUsed with ⟨other, isOther, same⟩
        exact isNew (same ▸ valid.opened other isOther)
      · intro other isOther
        rcases List.mem_cons.mp isOther with isNode | isOld
        · rw [isNode]
          exact Finset.mem_insert_self _ _
        · exact Finset.mem_insert_of_mem (valid.opened other isOld)
      · intro other isOther
        rcases List.mem_cons.mp isOther with isNode | isOld
        · rw [isNode]
          exact serial.trans_lt (Nat.lt_succ_self _)
        · exact (valid.made other isOld).trans (Nat.lt_succ_self _)

/-- A timer that is started is none of those that were in the list. -/
theorem Started.pending (started : t.Started after) (valid : t.Valid)
    (pending : t.Pending ready timers) : after.Pending ready timers := by
  intro timer isTimer
  rcases pending timer isTimer with ⟨made, expired⟩
  cases started with
  | nothing => exact ⟨made, expired⟩
  | started node isFresh isNew serial =>
      refine ⟨made.trans (Nat.lt_succ_self _), ?_⟩
      intro reported isLive
      rcases List.mem_cons.mp isLive with isNode | isOld
      · rw [isNode, serial] at made
        exact absurd made (Nat.lt_irrefl _)
      · apply Finset.mem_erase_of_ne_of_mem _ (expired reported isOld)
        intro same
        exact isNew (same ▸ valid.opened timer isOld)

theorem Callback.valid (step : t.Callback after) (valid : t.Valid) : after.Valid := by
  cases step with
  | start malloc timerfd interval handler type userData fresh isNew =>
      exact (timerStart_started fresh isNew interval handler type userData).valid valid
  | stop id isLive => exact (timerStop_stopped t id).valid valid
  | outside after outside => exact outside.valid valid

theorem Callback.pending (step : t.Callback after) (valid : t.Valid)
    (pending : t.Pending ready timers) : after.Pending ready timers := by
  cases step with
  | start malloc timerfd interval handler type userData fresh isNew =>
      exact (timerStart_started fresh isNew interval handler type userData).pending valid pending
  | stop id isLive => exact (timerStop_stopped t id).pending valid pending
  | outside after outside => exact outside.pending pending

end Steps

section Runs

theorem callbacks_keep (runs : ReflTransGen Callback t after) (valid : t.Valid)
    (pending : t.Pending ready timers) : after.Valid ∧ after.Pending ready timers := by
  induction runs with
  | refl => exact ⟨valid, pending⟩
  | tail _ step ih => exact ⟨step.valid ih.1, step.pending ih.1 ih.2⟩

theorem outside_keeps (elapses : ReflTransGen Outside t after) (valid : t.Valid)
    (pending : t.Pending ready timers) :
    after.Valid ∧ after.Pending ready timers ∧ after.nodes = t.nodes := by
  induction elapses with
  | refl => exact ⟨valid, pending, rfl⟩
  | tail _ outside ih =>
      rcases ih with ⟨valid, pending, nodes⟩
      exact ⟨outside.valid valid, outside.pending pending, outside.nodes.trans nodes⟩

end Runs

section Slot

theorem timerSlot_snd : (timerSlot t fd revents s).2 = t ∨
    (timerSlot t fd revents s).2 = { t with expired := t.expired.erase fd } := by
  unfold timerSlot
  split
  · apply Or.inr
    dsimp only
    split
    · rfl
    · split <;> rfl
  · exact Or.inl rfl

/-- The slots of other timers are still pending when a slot has been read. -/
theorem timerSlot_keeps (valid : t.Valid) (pending : t.Pending ready timers)
    (others : ∀ timer ∈ timers, timer.fd ≠ fd) :
    (timerSlot t fd revents s).2.Valid ∧ (timerSlot t fd revents s).2.Pending ready timers := by
  rcases @timerSlot_snd t fd revents s with same | read
  · rw [same]
    exact ⟨valid, pending⟩
  · rw [read]
    refine ⟨⟨valid.addrs, valid.fds, valid.opened, valid.made⟩, ?_⟩
    intro timer isTimer
    rcases pending timer isTimer with ⟨made, expired⟩
    refine ⟨made, ?_⟩
    intro reported isLive
    exact Finset.mem_erase_of_ne_of_mem (others timer isTimer) (expired reported isLive)

theorem timerSlot_some (found : (timerSlot t fd revents s).1 = some node) :
    node ∈ t.nodes ∧ node.fd = fd ∧ node.callback ≠ none := by
  unfold timerSlot at found
  split at found
  case isFalse => cases found
  case isTrue =>
    dsimp only at found
    split at found
    case isTrue => cases found
    case isFalse =>
      split at found
      case h_1 => cases found
      case h_2 other isFound =>
        split at found
        case isTrue => cases found
        case isFalse callback =>
          cases found
          have isNode := List.mem_of_find?_eq_some isFound
          have descriptor := List.find?_some isFound
          exact ⟨isNode, of_decide_eq_true descriptor, callback⟩

theorem timerSlot_eq (valid : t.Valid) (isLive : timer ∈ t.nodes)
    (callback : timer.callback ≠ none) : (timerSlot t timer.fd true 8).1 = some timer := by
  have found : getTimerFromFd { t with expired := t.expired.erase timer.fd } timer.fd =
      some timer := Search.find?_eq_some_of_nodup valid.fds isLive
  unfold timerSlot
  rw [if_pos rfl]
  dsimp only
  rw [if_neg (fun differs => differs rfl), found]
  exact if_neg callback

end Slot

/-- The callback of a slot is that of a timer in the list with the slot's descriptor, and the
timer the slot was filled for is called when it was reported and is still there. -/
structure Visit.Proper (ready : TimerNode → Bool) (visit : Visit) : Prop where
  called : ∀ node, visit.called = some node →
    node ∈ visit.reached.nodes ∧ node.fd = visit.timer.fd ∧ node.callback ≠ none
  calls : ready visit.timer = true → visit.timer ∈ visit.reached.nodes →
    visit.timer.callback ≠ none → visit.called = some visit.timer

theorem Slot.proper {called : Option TimerNode} (slot : t.Slot timer.fd (ready timer) called after)
    (valid : t.Valid) (pending : t.Pending ready (timer :: timers)) :
    Visit.Proper ready ⟨timer, t, called⟩ := by
  have expired := (pending timer List.mem_cons_self).2
  cases slot with
  | passes s reads nobody =>
      constructor
      · intro node found
        cases found
      · intro reported isLive callback
        have found := timerSlot_eq valid isLive callback
        dsimp only at reported
        rw [reported, reads (expired reported isLive), found] at nobody
        cases nobody
  | calls s node after reads found runs =>
      constructor
      · intro other isOther
        cases isOther
        exact timerSlot_some found
      · intro reported isLive callback
        have isFound := timerSlot_eq valid isLive callback
        dsimp only at reported
        rw [reported, reads (expired reported isLive), isFound] at found
        exact found.symm

theorem Slot.keeps {called : Option TimerNode} (slot : t.Slot fd revents called after)
    (valid : t.Valid) (pending : t.Pending ready timers)
    (others : ∀ timer ∈ timers, timer.fd ≠ fd) : after.Valid ∧ after.Pending ready timers := by
  cases slot with
  | passes s reads nobody => exact timerSlot_keeps valid pending others
  | calls s node after reads found runs =>
      rcases timerSlot_keeps valid pending others with ⟨read, stillPending⟩
      exact callbacks_keep runs read stillPending

theorem Slots.proper {visits : List Visit} (slots : Slots ready t timers visits after)
    (valid : t.Valid) (pending : t.Pending ready timers)
    (distinct : (timers.map TimerNode.fd).Nodup) :
    after.Valid ∧ visits.map Visit.timer = timers ∧
      ∀ visit ∈ visits, visit.Proper ready := by
  induction slots with
  | done t => exact ⟨valid, rfl, by simp⟩
  | next elapses slot rest ih =>
      rename_i timer called timers visits
      rcases List.nodup_cons.mp distinct with ⟨isNew, distinct⟩
      have others : ∀ other ∈ timers, other.fd ≠ timer.fd := by
        intro other isOther same
        exact isNew (same ▸ List.mem_map_of_mem isOther)
      rcases outside_keeps elapses valid pending with ⟨reached, pending, -⟩
      have later : Pending _ ready timers :=
        fun other isOther => pending other (List.mem_cons_of_mem _ isOther)
      rcases slot.keeps reached later others with ⟨middle, later⟩
      rcases ih middle later distinct with ⟨ends, order, proper⟩
      refine ⟨ends, congrArg _ order, ?_⟩
      intro visit isVisit
      rcases List.mem_cons.mp isVisit with isFirst | isLater
      · rw [isFirst]
        exact slot.proper reached pending
      · exact proper visit isLater

theorem Pass.proper {visits : List Visit} (pass : t.Pass ready visits after) (valid : t.Valid) :
    after.Valid ∧ visits.map Visit.timer = t.nodes ∧
      ∀ visit ∈ visits, visit.Proper ready := by
  rcases pass with ⟨polled, fits, elapses, reported, slots⟩
  have nothing : t.Pending ready [] := by
    intro timer isTimer
    cases isTimer
  rcases outside_keeps elapses valid nothing with ⟨polledValid, -, nodes⟩
  apply slots.proper polledValid _ valid.fds
  intro timer isTimer
  refine ⟨polledValid.made timer (nodes ▸ isTimer), ?_⟩
  intro isReported _
  exact reported timer isTimer isReported

/-- In a pass every callback is called on a timer that is in the list, and once on every timer
that was reported and is in the list when its slot is reached. -/
theorem pass_calls {visits : List Visit} (pass : t.Pass ready visits after) (valid : t.Valid) :
    visits.map Visit.timer = t.nodes ∧
      (∀ visit ∈ visits, ∀ node, visit.called = some node →
        node ∈ visit.reached.nodes ∧ node.callback ≠ none) ∧
      ∀ visit ∈ visits, ready visit.timer = true → visit.timer ∈ visit.reached.nodes →
        visit.timer.callback ≠ none →
          visits.countP (fun other => other.called = some visit.timer) = 1 := by
  rcases pass.proper valid with ⟨-, order, proper⟩
  refine ⟨order, ?_, ?_⟩
  · intro visit isVisit node isCalled
    rcases (proper visit isVisit).called node isCalled with ⟨isLive, -, callback⟩
    exact ⟨isLive, callback⟩
  · intro visit isVisit isReported isLive callback
    have distinct : (visits.map fun visit => visit.timer.fd).Nodup := by
      have slots := valid.fds
      rw [← order, List.map_map] at slots
      exact slots
    have isCalled := (proper visit isVisit).calls isReported isLive callback
    apply Search.countP_eq_one distinct isVisit (decide_eq_true isCalled)
    intro other isOther calledToo
    have called := (proper other isOther).called visit.timer (of_decide_eq_true calledToo)
    exact called.2.1.symm

section Thread

/-- A step of a program with timers: a call or a pass of the timer thread. -/
inductive TimerEvent where
  | call
  | pass (ready : TimerNode → Bool) (visits : List Visit)

/-- A program that starts with no timers. -/
def system : System Timers TimerEvent where
  init t := t = ⟨[], ∅, ∅, 0⟩
  step t event after :=
    match event with
    | .call => t.Callback after
    | .pass ready visits => t.Pass ready visits after

theorem reachable_valid (reachable : system.Reachable t) : t.Valid := by
  apply reachable.invariant
  · intro t starts
    have : t = ⟨[], ∅, ∅, 0⟩ := starts
    subst this
    constructor <;> simp
  · intro t event after valid stepped
    cases event with
    | call => exact Callback.valid stepped valid
    | pass ready visits => exact (Pass.proper stepped valid).1

end Thread

/-- The callback of the first timer stops the second one, which has expired too. -/
theorem pass_calls_stopped : ∃ t : Timers, ∃ visits : List Visit,
    visits.map Visit.called = [t.nodes.head?, none] ∧ visits.map Visit.timer = t.nodes ∧
      (∀ visit ∈ visits, ∀ node, visit.called = some node →
        node ∈ visit.reached.nodes ∧ node.callback ≠ none) ∧
      ∀ visit ∈ visits, true = true → visit.timer ∈ visit.reached.nodes →
        visit.timer.callback ≠ none →
          visits.countP (fun other => other.called = some visit.timer) = 1 := by
  let first : TimerNode := ⟨100, 3, some 1, 0, 10, .periodic, 1⟩
  let second : TimerNode := ⟨200, 4, some 2, 0, 10, .singleShot, 0⟩
  let t : Timers := ⟨[first, second], {3, 4}, {3, 4}, 2⟩
  let read : Timers := (timerSlot t 3 true 8).2
  let stopped : Timers := timerStop read 200
  have valid : t.Valid := by
    constructor <;> decide
  have stops : read.Callback stopped := .stop 200 (Or.inr ⟨second, by decide, rfl⟩)
  have slots : Slots (fun _ => true) t t.nodes
      [⟨first, t, some first⟩, ⟨second, stopped, none⟩] (timerSlot stopped 4 true (-1)).2 := by
    apply Slots.next ReflTransGen.refl
    · exact .calls 8 first stopped (fun _ => rfl) (by decide) (.single stops)
    · apply Slots.next ReflTransGen.refl
      · exact .passes (-1) (by decide) (by decide)
      · exact .done _
  have pass : t.Pass (fun _ => true) [⟨first, t, some first⟩, ⟨second, stopped, none⟩]
      (timerSlot stopped 4 true (-1)).2 :=
    ⟨t, by decide, .refl, by decide, slots⟩
  exact ⟨t, _, rfl, pass_calls pass valid⟩

end Timers

end Libhelp
