import Libhelp.Timer.Pass

/-!
# The reads of a pass

A slot is read by its number.  When a callback stops a timer whose slot is still to come
and a descriptor of the same number is given out again, the read is on that one, and
waits until it expires.  Nothing else goes wrong: as long as no number of a reported slot
is given out before the slot is read, every read is on the timer that was reported, or on
no open descriptor.
-/

namespace Libhelp

open Relation Transition

namespace Timers

/-- A `read` of a slot that is on an open descriptor is on the timer that was reported, and does
not block. -/
def Visit.ReadsReported (ready : TimerNode → Bool) (visit : Visit) : Prop :=
  ready visit.timer = true → visit.timer.fd ∈ visit.reached.opened →
    visit.timer ∈ visit.reached.nodes ∧ visit.timer.fd ∈ visit.reached.expired

/-- The descriptors of the slots that were reported. -/
def reportedFds (ready : TimerNode → Bool) (timers : List TimerNode) : List ℕ :=
  (timers.filter ready).map TimerNode.fd

/-- A step that gives out none of some descriptors. -/
structure Sparing (fds : List ℕ) (step : Timers → Timers → Prop) (t after : Timers) : Prop where
  step : step t after
  spares : ∀ fd ∈ fds, fd ∈ after.opened → fd ∈ t.opened

/-- A slot whose callback gives out none of some descriptors. -/
inductive SparingSlot (t : Timers) (fd : ℕ) (revents : Bool) (fds : List ℕ) :
    Option TimerNode → Timers → Prop where
  | passes (s : Int32) (reads : fd ∈ t.expired → s = 8)
      (nobody : (timerSlot t fd revents s).1 = none) :
      SparingSlot t fd revents fds none (timerSlot t fd revents s).2
  | calls (s : Int32) (node : TimerNode) (after : Timers) (reads : fd ∈ t.expired → s = 8)
      (found : (timerSlot t fd revents s).1 = some node)
      (runs : ReflTransGen (Sparing fds Callback) (timerSlot t fd revents s).2 after) :
      SparingSlot t fd revents fds (some node) after

/-- The loop over the slots, when no descriptor of a reported slot is given out before the slot
is read. -/
inductive SparingSlots (ready : TimerNode → Bool) :
    Timers → List TimerNode → List Visit → Timers → Prop where
  | done (t : Timers) : SparingSlots ready t [] [] t
  | next {t reached middle after : Timers} {timer : TimerNode} {called : Option TimerNode}
      {timers : List TimerNode} {visits : List Visit}
      (elapses : ReflTransGen (Sparing (reportedFds ready (timer :: timers)) Outside) t reached)
      (slot : reached.SparingSlot timer.fd (ready timer) (reportedFds ready timers) called middle)
      (rest : SparingSlots ready middle timers visits after) :
      SparingSlots ready t (timer :: timers) (⟨timer, reached, called⟩ :: visits) after

/-- A pass in which no descriptor of a reported slot is given out before the slot is read. -/
inductive SparingPass (t : Timers) (ready : TimerNode → Bool) (visits : List Visit)
    (after : Timers) : Prop where
  | mk (polled : Timers) (fits : t.nodes.length ≤ maxTimerCount)
      (elapses : ReflTransGen Outside t polled)
      (reported : ∀ node ∈ t.nodes, ready node = true → node.fd ∈ polled.expired)
      (slots : SparingSlots ready polled t.nodes visits after) : SparingPass t ready visits after

/-- The timers of reported slots are in the list as long as their descriptors are open. -/
def Tracked (t : Timers) (ready : TimerNode → Bool) (timers : List TimerNode) : Prop :=
  ∀ timer ∈ timers, ready timer = true → timer.fd ∈ t.opened → timer ∈ t.nodes

variable {t after : Timers} {ready : TimerNode → Bool} {timers : List TimerNode}
  {node timer : TimerNode} {fd : ℕ} {fds : List ℕ} {revents : Bool} {called : Option TimerNode}
  {visits : List Visit}

section Passes

theorem sparing_runs {step : Timers → Timers → Prop}
    (runs : ReflTransGen (Sparing fds step) t after) : ReflTransGen step t after :=
  ReflTransGen.mono (fun _ _ spared => spared.step) _ _ runs

theorem SparingSlot.slot (slot : t.SparingSlot fd revents fds called after) :
    t.Slot fd revents called after := by
  cases slot with
  | passes s reads nobody => exact .passes s reads nobody
  | calls s node after reads found runs => exact .calls s node after reads found (sparing_runs runs)

theorem SparingSlots.slots (slots : SparingSlots ready t timers visits after) :
    Slots ready t timers visits after := by
  induction slots with
  | done t => exact .done t
  | next elapses slot rest ih => exact .next (sparing_runs elapses) slot.slot ih

theorem SparingPass.pass (pass : t.SparingPass ready visits after) :
    t.Pass ready visits after := by
  rcases pass with ⟨polled, fits, elapses, reported, slots⟩
  exact ⟨polled, fits, elapses, reported, slots.slots⟩

end Passes

section Steps

theorem mem_reportedFds (isTimer : timer ∈ timers) (reported : ready timer = true) :
    timer.fd ∈ reportedFds ready timers :=
  List.mem_map_of_mem (List.mem_filter.mpr ⟨isTimer, reported⟩)

/-- A step that keeps the list and gives out none of the descriptors. -/
theorem Tracked.of_nodes (tracked : t.Tracked ready timers)
    (spares : ∀ fd ∈ reportedFds ready timers, fd ∈ after.opened → fd ∈ t.opened)
    (kept : ∀ node ∈ t.nodes, node ∈ after.nodes) : after.Tracked ready timers := by
  intro timer isTimer reported isOpen
  have wasOpen := spares timer.fd (mem_reportedFds isTimer reported) isOpen
  exact kept timer (tracked timer isTimer reported wasOpen)

theorem Sparing.outside_tracked (spared : Sparing (reportedFds ready timers) Outside t after)
    (tracked : t.Tracked ready timers) : after.Tracked ready timers := by
  apply tracked.of_nodes spared.spares
  rw [spared.step.nodes]
  exact fun _ isNode => isNode

/-- With a timer that is stopped its descriptor is closed. -/
theorem Stopped.tracked (stopped : t.Stopped after) (tracked : t.Tracked ready timers) :
    after.Tracked ready timers := by
  cases stopped with
  | nothing => exact tracked
  | stopped before behind node split =>
      intro timer isTimer reported isOpen
      rcases Finset.mem_erase.mp isOpen with ⟨other, wasOpen⟩
      have isLive := tracked timer isTimer reported wasOpen
      rw [split] at isLive
      rcases List.mem_append.mp isLive with isBefore | isRest
      · exact List.mem_append_left _ isBefore
      · rcases List.mem_cons.mp isRest with same | isBehind
        · exact absurd (congrArg TimerNode.fd same) other
        · exact List.mem_append_right _ isBehind

theorem Started.nodes_subset (started : t.Started after) (isNode : node ∈ t.nodes) :
    node ∈ after.nodes := by
  cases started with
  | nothing => exact isNode
  | started => exact List.mem_cons_of_mem _ isNode

theorem Sparing.callback_tracked (spared : Sparing (reportedFds ready timers) Callback t after)
    (tracked : t.Tracked ready timers) : after.Tracked ready timers := by
  rcases spared with ⟨step, spares⟩
  cases step with
  | start malloc timerfd interval handler type userData fresh isNew =>
      have started := timerStart_started fresh isNew interval handler type userData
      exact tracked.of_nodes spares fun _ isNode => started.nodes_subset isNode
  | stop id isLive => exact (timerStop_stopped t id).tracked tracked
  | outside after outside => exact Sparing.outside_tracked ⟨outside, spares⟩ tracked

end Steps

section Runs

theorem outside_tracked
    (elapses : ReflTransGen (Sparing (reportedFds ready timers) Outside) t after)
    (tracked : t.Tracked ready timers) : after.Tracked ready timers := by
  induction elapses with
  | refl => exact tracked
  | tail _ spared ih => exact spared.outside_tracked ih

theorem callbacks_tracked
    (runs : ReflTransGen (Sparing (reportedFds ready timers) Callback) t after)
    (tracked : t.Tracked ready timers) : after.Tracked ready timers := by
  induction runs with
  | refl => exact tracked
  | tail _ spared ih => exact spared.callback_tracked ih

theorem timerSlot_tracked {s : Int32} (tracked : t.Tracked ready timers) :
    (timerSlot t fd revents s).2.Tracked ready timers := by
  rcases @timerSlot_snd t fd revents s with same | read
  · rw [same]
    exact tracked
  · rw [read]
    exact tracked

theorem SparingSlot.tracked
    (slot : t.SparingSlot fd revents (reportedFds ready timers) called after)
    (tracked : t.Tracked ready timers) : after.Tracked ready timers := by
  cases slot with
  | passes s reads nobody => exact timerSlot_tracked tracked
  | calls s node after reads found runs =>
      exact callbacks_tracked runs (timerSlot_tracked tracked)

/-- Every slot of the loop is read on the timer that was reported. -/
theorem SparingSlots.reads (slots : SparingSlots ready t timers visits after) (valid : t.Valid)
    (pending : t.Pending ready timers) (tracked : t.Tracked ready timers)
    (distinct : (timers.map TimerNode.fd).Nodup) :
    ∀ visit ∈ visits, visit.ReadsReported ready := by
  induction slots with
  | done t => simp
  | next elapses slot rest ih =>
      rename_i timer called timers visits
      rcases List.nodup_cons.mp distinct with ⟨isNew, distinct⟩
      have others : ∀ other ∈ timers, other.fd ≠ timer.fd := by
        intro other isOther same
        exact isNew (same ▸ List.mem_map_of_mem isOther)
      have tracked := outside_tracked elapses tracked
      rcases outside_keeps (sparing_runs elapses) valid pending with ⟨valid, pending, -⟩
      have laterTracked : Tracked _ ready timers :=
        fun other isOther => tracked other (List.mem_cons_of_mem _ isOther)
      have laterPending : Pending _ ready timers :=
        fun other isOther => pending other (List.mem_cons_of_mem _ isOther)
      rcases slot.slot.keeps valid laterPending others with ⟨middle, stillPending⟩
      intro visit isVisit
      rcases List.mem_cons.mp isVisit with isFirst | isLater
      · rw [isFirst]
        intro reported isOpen
        have isLive := tracked timer List.mem_cons_self reported isOpen
        exact ⟨isLive, (pending timer List.mem_cons_self).2 reported isLive⟩
      · exact ih middle stillPending (slot.tracked laterTracked) distinct visit isLater

end Runs

/-- In a pass that starts in any state of the program and gives out no descriptor of a reported
slot before the slot is read, every read is on the timer that was reported. -/
theorem pass_reads_reported (reachable : system.Reachable t)
    (pass : t.SparingPass ready visits after) :
    ∀ visit ∈ visits, visit.ReadsReported ready := by
  have valid := reachable_valid reachable
  rcases pass with ⟨polled, fits, elapses, reported, slots⟩
  have nothing : t.Pending ready [] := by
    intro timer isTimer
    cases isTimer
  rcases outside_keeps elapses valid nothing with ⟨polledValid, -, nodes⟩
  apply slots.reads polledValid _ _ valid.fds
  · intro timer isTimer
    refine ⟨polledValid.made timer (nodes ▸ isTimer), ?_⟩
    intro isReported _
    exact reported timer isTimer isReported
  · intro timer isTimer _ _
    rw [nodes]
    exact isTimer

section Two

def firstTimer : TimerNode :=
  ⟨100, 3, some 1, 0, 10, .periodic, 1⟩

def secondTimer : TimerNode :=
  ⟨200, 4, some 2, 0, 10, .singleShot, 0⟩

/-- Two timers that have expired. -/
def twoExpired : Timers :=
  ⟨[firstTimer, secondTimer], {3, 4}, {3, 4}, 2⟩

theorem reachable_twoExpired : system.Reachable twoExpired := by
  have started : system.Reachable ⟨[secondTimer], {4}, ∅, 1⟩ := by
    refine .step .call (.init rfl) (.start (some 200) (some 4) 10 (some 2) .singleShot 0 ?_ ?_)
    · simp
    · simp
  have both : system.Reachable ⟨[firstTimer, secondTimer], {3, 4}, ∅, 2⟩ := by
    refine .step .call started (.start (some 100) (some 3) 10 (some 1) .periodic 0 ?_ ?_)
    · simp [secondTimer]
    · simp
  have second : system.Reachable ⟨[firstTimer, secondTimer], {3, 4}, {4}, 2⟩ :=
    .step .call both (.outside _ (.expires secondTimer (by decide)))
  exact .step .call second (.outside _ (.expires firstTimer (by decide)))

/-- The timers when the first callback has been called. -/
def firstRead : Timers :=
  (timerSlot twoExpired 3 true 8).2

/-- The first callback stops the second timer, and its descriptor is not given out again. -/
theorem pass_reads_stopped : ∃ visits : List Visit, visits.map Visit.timer = twoExpired.nodes ∧
    ∀ visit ∈ visits, visit.ReadsReported fun _ => true := by
  let stopped : Timers := timerStop firstRead 200
  have stops : Sparing (reportedFds (fun _ => true) [secondTimer]) Callback firstRead stopped :=
    ⟨.stop 200 (Or.inr ⟨secondTimer, by decide, rfl⟩), by decide⟩
  have slots : SparingSlots (fun _ => true) twoExpired twoExpired.nodes
      [⟨firstTimer, twoExpired, some firstTimer⟩, ⟨secondTimer, stopped, none⟩]
      (timerSlot stopped 4 true (-1)).2 := by
    apply SparingSlots.next ReflTransGen.refl
    · exact .calls 8 firstTimer stopped (fun _ => rfl) (by decide) (.single stops)
    · apply SparingSlots.next ReflTransGen.refl
      · exact .passes (-1) (by decide) (by decide)
      · exact .done _
  exact ⟨_, rfl, pass_reads_reported reachable_twoExpired
    ⟨twoExpired, by decide, .refl, by decide, slots⟩⟩

/-- The first callback stops the second timer and starts another one, which is given the descriptor
of the second: the slot of the second timer is read on one that has not expired. -/
theorem pass_reads_other : ∃ t ready visits after, system.Reachable t ∧
    t.Pass ready visits after ∧ ∃ visit ∈ visits, ¬visit.ReadsReported ready := by
  let stopped : Timers := timerStop firstRead 200
  let restarted : Timers := (timerStart stopped (some 300) (some 4) 10 none .periodic 0).2
  have stops : firstRead.Callback stopped := .stop 200 (Or.inr ⟨secondTimer, by decide, rfl⟩)
  have starts : stopped.Callback restarted := by
    apply Callback.start
    · intro addr isAddr
      cases isAddr
      decide
    · intro fd isFd
      cases isFd
      decide
  have slots : Slots (fun _ => true) twoExpired twoExpired.nodes
      [⟨firstTimer, twoExpired, some firstTimer⟩, ⟨secondTimer, restarted, none⟩]
      (timerSlot restarted 4 true 8).2 := by
    apply Slots.next ReflTransGen.refl
    · exact .calls 8 firstTimer restarted (fun _ => rfl) (by decide)
        (.tail (.single stops) starts)
    · apply Slots.next ReflTransGen.refl
      · exact .passes 8 (fun _ => rfl) (by decide)
      · exact .done _
  refine ⟨twoExpired, fun _ => true, _, _, reachable_twoExpired,
    ⟨twoExpired, by decide, .refl, by decide, slots⟩, ⟨secondTimer, restarted, none⟩,
    by simp, ?_⟩
  intro reads
  have isLive := (reads rfl (by decide)).1
  exact absurd isLive (by decide)

end Two

end Timers

end Libhelp
