import Libhelp.Lib.Transition
import Libhelp.Timer.Pass

/-!
# The entries of `ufds`

`_timer_thread` fills an entry of `ufds` for every timer in the list, without a look at
the size of `ufds`; and `timer_start` puts a timer in front of the list, without a look at
its length.  So the entries are inside `ufds` as long as `timer_start` is called only
when there is room for one more timer.
-/

namespace Libhelp

open Transition

/-- The loop of `_timer_thread` that fills `ufds`: the index and the descriptor of each entry. -/
def fillUfds (iMaxCount : ℕ) : List TimerNode → List (ℕ × ℕ)
  | [] => []
  | tmp :: next => (iMaxCount, tmp.fd) :: fillUfds (iMaxCount + 1) next

/-- A call of a program with timers, or what happens meanwhile. -/
inductive TimerCall where
  | start (malloc timerfd : Option ℕ) (interval : UInt32) (handler : Option ℕ)
      (type : TimerType) (userData : ℕ)
  | stop (id : ℕ)
  | outside

namespace Timers

/-- The runs of a program that calls `timer_start` and `timer_stop`. -/
def callSystem : System Timers TimerCall where
  init t := t = ⟨[], ∅, ∅, 0⟩
  step t call after :=
    match call with
    | .start malloc timerfd interval handler type userData =>
        (∀ addr, malloc = some addr → addr ≠ 0 ∧ ∀ node ∈ t.nodes, node.addr ≠ addr) ∧
          (∀ fd, timerfd = some fd → fd ∉ t.opened) ∧
            after = (timerStart t malloc timerfd interval handler type userData).2
    | .stop id => (id = 0 ∨ ∃ node ∈ t.nodes, node.addr = id) ∧ after = timerStop t id
    | .outside => t.Outside after

/-- The entries a pass writes are inside `ufds`. -/
def WithinUfds (t : Timers) : Prop :=
  ∀ entry ∈ fillUfds 0 t.nodes, entry.1 < maxTimerCount

/-- A call of `timer_start` that makes a timer finds room for it. -/
def HasRoom (t : Timers) : TimerCall → Prop
  | .start malloc timerfd _ _ _ _ =>
      malloc ≠ none → timerfd ≠ none → t.nodes.length < maxTimerCount
  | _ => True

variable {t after : Timers} {call : TimerCall}

theorem fillUfds_map_fst (iMaxCount : ℕ) (nodes : List TimerNode) :
    (fillUfds iMaxCount nodes).map Prod.fst = List.range' iMaxCount nodes.length := by
  induction nodes generalizing iMaxCount with
  | nil => rfl
  | cons tmp next ih =>
      rw [fillUfds, List.map_cons, ih, List.length_cons, List.range'_succ]

theorem withinUfds_iff : t.WithinUfds ↔ t.nodes.length ≤ maxTimerCount := by
  have indices : t.WithinUfds ↔
      ∀ i ∈ (fillUfds 0 t.nodes).map Prod.fst, i < maxTimerCount := by
    rw [List.forall_mem_map]
    rfl
  rw [indices, fillUfds_map_fst]
  constructor
  · intro within
    by_contra more
    have last := within maxTimerCount (List.mem_range'_1.mpr ⟨by omega, by omega⟩)
    exact absurd last (Nat.lt_irrefl _)
  · intro fits i isIndex
    have bound := (List.mem_range'_1.mp isIndex).2
    omega

theorem Stopped.nodes_sublist (stopped : t.Stopped after) :
    List.Sublist after.nodes t.nodes := by
  cases stopped with
  | nothing => exact List.Sublist.refl _
  | stopped before behind node split => exact sublist_of_split split

/-- One step keeps the list within `ufds` when and only when there is room for what it makes. -/
theorem withinUfds_step_iff (within : t.WithinUfds) (stepped : callSystem.step t call after) :
    after.WithinUfds ↔ t.HasRoom call := by
  rw [withinUfds_iff] at within ⊢
  cases call with
  | start malloc timerfd interval handler type userData =>
      rcases stepped with ⟨-, -, same⟩
      rw [same]
      cases malloc with
      | none => exact iff_of_true within (fun made => absurd rfl made)
      | some addr =>
          cases timerfd with
          | none => exact iff_of_true within (fun _ opened => absurd rfl opened)
          | some fd =>
              constructor
              · intro fits _ _
                exact fits
              · intro room
                exact room (Option.some_ne_none addr) (Option.some_ne_none fd)
  | stop id =>
      have fewer : after.nodes.length ≤ t.nodes.length := by
        rw [stepped.2]
        exact (timerStop_stopped t id).nodes_sublist.length_le
      exact iff_of_true (fewer.trans within) trivial
  | outside =>
      have same : after.nodes = t.nodes := Outside.nodes stepped
      rw [same]
      exact iff_of_true within trivial

/-- In a run all of whose steps have room the entries are inside `ufds`, and after one more step
they are when and only when that has room too. -/
theorem entries_within (reachable : (callSystem.restrict HasRoom).Reachable t) :
    t.WithinUfds ∧ ∀ call after, callSystem.step t call after →
      (after.WithinUfds ↔ t.HasRoom call) := by
  have within : t.WithinUfds := by
    apply reachable.invariant
    · intro t starts
      have empty : t = ⟨[], ∅, ∅, 0⟩ := starts
      rw [empty, withinUfds_iff]
      exact Nat.zero_le _
    · intro t call after within stepped
      exact (withinUfds_step_iff within stepped.2).mpr stepped.1
  exact ⟨within, fun _ _ stepped => withinUfds_step_iff within stepped⟩

theorem entries_within_start : ∃ t : Timers, t.nodes.length = 1 ∧ t.WithinUfds ∧
    ∀ call after, callSystem.step t call after → (after.WithinUfds ↔ t.HasRoom call) := by
  have started : (callSystem.restrict HasRoom).Reachable _ :=
    .step (.start (some 100) (some 3) 10 none .periodic 0) (.init rfl)
      ⟨fun _ _ => by decide, by simp, by simp, rfl⟩
  exact ⟨_, rfl, entries_within started⟩

/-- Any number of timers may be started one after the other. -/
theorem exists_started (n : ℕ) : ∃ t, callSystem.Reachable t ∧ t.nodes.length = n ∧
    (∀ node ∈ t.nodes, node.addr ≤ n) ∧ ∀ fd ∈ t.opened, fd < n := by
  induction n with
  | zero => exact ⟨⟨[], ∅, ∅, 0⟩, .init rfl, rfl, by simp, by simp⟩
  | succ n ih =>
      rcases ih with ⟨t, reachable, length, addrs, fds⟩
      refine ⟨(timerStart t (some (n + 1)) (some n) 10 none .periodic 0).2, ?_, ?_, ?_, ?_⟩
      · apply Transition.System.Reachable.step
          (.start (some (n + 1)) (some n) 10 none .periodic 0) reachable
        refine ⟨?_, ?_, rfl⟩
        · intro addr isAddr
          cases isAddr
          refine ⟨Nat.succ_ne_zero n, ?_⟩
          intro node isNode
          exact (Nat.lt_succ_of_le (addrs node isNode)).ne
        · intro fd isFd
          cases isFd
          intro isOpen
          exact absurd (fds n isOpen) (Nat.lt_irrefl n)
      · exact congrArg Nat.succ length
      · intro node isNode
        rcases List.mem_cons.mp isNode with same | isOld
        · rw [same]
        · exact (addrs node isOld).trans (Nat.le_succ n)
      · intro fd isOpen
        rcases Finset.mem_insert.mp isOpen with same | wasOpen
        · rw [same]
          exact Nat.lt_succ_self n
        · exact (fds fd wasOpen).trans (Nat.lt_succ_self n)

/-- A pass with 1001 timers writes behind `ufds`. -/
theorem entries_beyond : ∃ t, callSystem.Reachable t ∧ ¬t.WithinUfds := by
  rcases exists_started (maxTimerCount + 1) with ⟨t, reachable, length, -, -⟩
  refine ⟨t, reachable, ?_⟩
  rw [withinUfds_iff, length]
  exact Nat.not_succ_le_self _

end Timers

end Libhelp
