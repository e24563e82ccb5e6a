import Libhelp.Lib.LinkedList
import Libhelp.Timer.Pass

/-!
# The nodes of the timers in memory

The model of `timer_start`, `timer_stop`, `_get_timer_from_fd` and the loop of
`timer_finalize` with the nodes in memory and their pointers.  What reads a node that is
not allocated has no result.

Nodes in memory represent a list of timers when `g_head` points to the first one, each has
the next one's address, and no other node is allocated.  The functions then do what those on
the list do.
-/

namespace Libhelp

open StepProgram LinkedList

/-- `struct timer_node` -/
structure TimerCell where
  fd : ℕ
  callback : Option ℕ
  userData : ℕ
  interval : UInt32
  type : TimerType
  next : ℕ

/-- What is given back to the system. -/
inductive Release where
  | close (fd : ℕ)
  | free (addr : ℕ)
  deriving DecidableEq

/-- The allocated nodes, `g_head`, the open descriptors and those of expired timers, and what has
been given back, in its order. -/
structure TimerHeap where
  mem : ℕ → Option TimerCell
  gHead : ℕ
  opened : Finset ℕ
  expired : Finset ℕ
  released : List Release

/-- A node as it is stored. -/
def timerLayout : Layout ℕ TimerCell TimerNode where
  null := 0
  addr := TimerNode.addr
  cell node next :=
    ⟨node.fd, node.callback, node.userData, node.interval, node.type, next⟩
  next := TimerCell.next
  setNext cell next := { cell with next := next }
  next_cell _ _ := rfl
  setNext_cell _ _ _ := rfl

namespace TimerHeap

def close (h : TimerHeap) (fd : ℕ) : TimerHeap :=
  { h with
    opened := h.opened.erase fd
    expired := h.expired.erase fd
    released := h.released ++ [.close fd] }

def free (h : TimerHeap) (addr : ℕ) : TimerHeap :=
  { h with
    mem := Function.update h.mem addr none
    released := h.released ++ [.free addr] }

/-- `timer_start` -/
def timerStart (h : TimerHeap) (malloc timerfd : Option ℕ) (interval : UInt32)
    (handler : Option ℕ) (type : TimerType) (userData : ℕ) : ℕ × TimerHeap :=
  match malloc with
  | none => (0, h)
  | some newNode =>
      match timerfd with
      | none => (0, h.free newNode)
      | some fd =>
          (newNode, { h with
            mem := Function.update h.mem newNode
              (some ⟨fd, handler, userData, interval, type, h.gHead⟩)
            gHead := newNode
            opened := insert fd h.opened
            expired := h.expired.erase fd })

/-- The branch of `timer_stop` that takes a node out of the list. -/
def unlink (h : TimerHeap) (fuel node : ℕ) : Option TimerHeap :=
  if node = h.gHead then
    match h.mem h.gHead with
    | none => none
    | some head => some { h with gHead := head.next }
  else
    match run (timerLayout.walkStep h.mem fun tmp => tmp.next = node) fuel (.next h.gHead) with
    | none => none
    | some tmp =>
        if tmp = 0 then
          some h
        else
          match h.mem tmp with
          | none => none
          | some cell =>
              match h.mem cell.next with
              | none => none
              | some next =>
                  some { h with
                    mem := Function.update h.mem tmp (some { cell with next := next.next }) }

/-- `timer_stop` -/
def timerStop (h : TimerHeap) (fuel timerId : ℕ) : Option TimerHeap :=
  if timerId = 0 then
    some h
  else
    match h.mem timerId with
    | none => none
    | some node =>
        match (h.close node.fd).unlink fuel timerId with
        | none => none
        | some h => some (h.free timerId)

/-- The loop of `timer_finalize`. -/
def timerFinalize : ℕ → TimerHeap → Option TimerHeap
  | 0, _ => none
  | fuel + 1, h =>
      if h.gHead = 0 then
        some h
      else
        match h.timerStop (fuel + 1) h.gHead with
        | none => none
        | some h => timerFinalize fuel h

/-- `_get_timer_from_fd`, which returns a pointer. -/
def getTimerFromFd (h : TimerHeap) (fuel fd : ℕ) : Option ℕ :=
  run (timerLayout.walkStep h.mem fun tmp => tmp.fd = fd) fuel (.next h.gHead)

/-- Nodes in memory that represent a list of timers. -/
structure Represents (h : TimerHeap) (t : Timers) : Prop where
  gHead : h.gHead = timerLayout.first 0 t.nodes
  linked : timerLayout.Linked h.mem 0 t.nodes
  allocated : ∀ addr, h.mem addr ≠ none → ∃ node ∈ t.nodes, node.addr = addr
  opened : h.opened = t.opened
  expired : h.expired = t.expired

/-- What the loop of `timer_finalize` leaves of some timers: each has been closed and freed once,
in their order, and nothing else has changed. -/
structure Finalized (h : TimerHeap) (nodes : List TimerNode) (after : TimerHeap) : Prop where
  gHead : after.gHead = 0
  mem : ∀ addr, after.mem addr = none
  released : after.released =
    h.released ++ nodes.flatMap fun node => [.close node.fd, .free node.addr]
  opened : ∀ fd, fd ∈ after.opened ↔ fd ∈ h.opened ∧ ∀ node ∈ nodes, node.fd ≠ fd

variable {h : TimerHeap} {t : Timers} {node prev : TimerNode} {before behind : List TimerNode}
  {fuel fd : ℕ}

section Start

theorem Represents.addr_ne (represents : h.Represents t) (isNode : node ∈ t.nodes) {addr : ℕ}
    (isFree : h.mem addr = none) : node.addr ≠ addr := by
  rcases represents.linked.stored isNode with ⟨-, next, stored, -⟩
  rintro rfl
  have missing : h.mem (timerLayout.addr node) = none := isFree
  rw [stored] at missing
  cases missing

theorem Represents.fd_eq (represents : h.Represents t) (isNode : node ∈ t.nodes)
    {cell : TimerCell} (isCell : h.mem node.addr = some cell) : cell.fd = node.fd := by
  rcases represents.linked.stored isNode with ⟨-, next, stored, -⟩
  have same : some (timerLayout.cell node next) = some cell := stored.symm.trans isCell
  rw [← Option.some.inj same]
  rfl

theorem free_unallocated {addr : ℕ} (isFree : h.mem addr = none) :
    (h.free addr).mem = h.mem := by
  rw [free, ← isFree]
  exact Function.update_eq_self addr h.mem

theorem Represents.timerStart (represents : h.Represents t) {malloc timerfd : Option ℕ}
    (fresh : ∀ addr, malloc = some addr → addr ≠ 0 ∧ h.mem addr = none) (interval : UInt32)
    (handler : Option ℕ) (type : TimerType) (userData : ℕ) :
    (h.timerStart malloc timerfd interval handler type userData).1 =
        (Libhelp.timerStart t malloc timerfd interval handler type userData).1 ∧
      (h.timerStart malloc timerfd interval handler type userData).2.Represents
        (Libhelp.timerStart t malloc timerfd interval handler type userData).2 := by
  have addr_ne := fun {node : TimerNode} => @Represents.addr_ne h t node represents
  rcases represents with ⟨gHead, linked, allocated, opened, expired⟩
  cases malloc with
  | none => exact ⟨rfl, gHead, linked, allocated, opened, expired⟩
  | some addr =>
      rcases fresh addr rfl with ⟨nonnull, isFree⟩
      cases timerfd with
      | none =>
          have same := free_unallocated isFree
          refine ⟨rfl, gHead, ?_, ?_, opened, expired⟩
          · exact same.symm ▸ linked
          · exact same.symm ▸ allocated
      | some fd =>
          have isNew : addr ∉ t.nodes.map TimerNode.addr := by
            intro isUsed
            rcases List.mem_map.mp isUsed with ⟨node, isNode, same⟩
            exact addr_ne isNode isFree same
          refine ⟨rfl, rfl, ?_, ?_, congrArg (insert fd) opened,
            congrArg (Finset.erase · fd) expired⟩
          · have pushed := @Layout.Linked.push _ _ _ timerLayout h.mem 0 t.nodes
              ⟨addr, fd, handler, userData, interval, type, t.made⟩ _ linked nonnull isNew
            rw [← gHead] at pushed
            exact pushed
          · intro other isAllocated
            by_cases same : other = addr
            · exact ⟨_, List.mem_cons_self, same.symm⟩
            · have wasAllocated : h.mem other ≠ none := by
                rw [← Function.update_of_ne same _ h.mem]
                exact isAllocated
              rcases allocated other wasAllocated with ⟨node, isNode, isAddr⟩
              exact ⟨node, List.mem_cons_of_mem _ isNode, isAddr⟩

end Start

section Stop

/-- The first node is taken out of the list at `g_head`. -/
theorem unlink_head (gHead : h.gHead = node.addr)
    (linked : timerLayout.Linked h.mem 0 (node :: behind)) :
    h.unlink fuel node.addr = some { h with gHead := timerLayout.first 0 behind } := by
  have stored : h.mem h.gHead = some (timerLayout.cell node (timerLayout.first 0 behind)) :=
    gHead ▸ linked.2.1
  rw [unlink, if_pos gHead.symm, stored]
  rfl

theorem inner_notMem (distinct : ((before ++ prev :: node :: behind).map TimerNode.addr).Nodup) :
    node.addr ∉ (before ++ [prev] ++ behind).map TimerNode.addr := by
  apply Search.map_notMem
  rw [List.append_assoc, List.singleton_append]
  exact distinct

/-- The search of `timer_stop` ends at the node before the one that is stopped. -/
theorem run_search (gHead : h.gHead = timerLayout.first 0 (before ++ prev :: node :: behind))
    (linked : timerLayout.Linked h.mem 0 (before ++ prev :: node :: behind))
    (distinct : ((before ++ prev :: node :: behind).map TimerNode.addr).Nodup)
    (enough : before.length < fuel) :
    run (timerLayout.walkStep h.mem fun tmp => tmp.next = node.addr) fuel (.next h.gHead) =
      some prev.addr := by
  have isApart := inner_notMem distinct
  rcases Layout.linked_append.mp linked with ⟨front, -, prevStored, -⟩
  rw [gHead]
  apply linked.run_walk _ _ enough
  · intro other isBefore cell isCell
    rcases front.stored isBefore with ⟨-, next, stored, place⟩
    rw [stored, Option.some.injEq] at isCell
    rw [← isCell]
    apply decide_eq_false
    intro same
    have isNext : next = node.addr := same
    apply isApart
    rw [← isNext]
    rcases place with isLast | ⟨later, isLater, isAddr⟩
    · rw [isLast]
      simp [timerLayout]
    · rw [← isAddr]
      exact List.mem_map_of_mem (by simp [isLater])
  · intro cell isCell
    rw [prevStored, Option.some.injEq] at isCell
    rw [← isCell]
    exact decide_eq_true rfl

theorem unlink_inner (gHead : h.gHead = timerLayout.first 0 (before ++ prev :: node :: behind))
    (linked : timerLayout.Linked h.mem 0 (before ++ prev :: node :: behind))
    (distinct : ((before ++ prev :: node :: behind).map TimerNode.addr).Nodup)
    (enough : before.length < fuel) :
    h.unlink fuel node.addr = some { h with
      mem := Function.update h.mem prev.addr
        (some (timerLayout.cell prev (timerLayout.first 0 behind))) } := by
  have isInner : node.addr ≠ h.gHead := by
    intro isHead
    apply inner_notMem distinct
    rw [isHead, gHead]
    cases before with
    | nil => exact List.mem_cons_self
    | cons head before => exact List.mem_cons_self
  rcases Layout.linked_append.mp linked with ⟨-, nonnull, prevStored, -, stored, -⟩
  have isPrev : h.mem prev.addr = some (timerLayout.cell prev node.addr) := prevStored
  have isNext : h.mem (timerLayout.cell prev node.addr).next =
      some (timerLayout.cell node (timerLayout.first 0 behind)) := stored
  have isPointer : prev.addr ≠ 0 := nonnull
  rw [unlink, if_neg isInner, run_search gHead linked distinct enough]
  dsimp only
  rw [if_neg isPointer, isPrev]
  dsimp only
  rw [isNext]
  rfl

/-- Wherever a node is in the list, what is left of the list is linked when the node is freed. -/
theorem exists_unlinked (gHead : h.gHead = timerLayout.first 0 (before ++ node :: behind))
    (linked : timerLayout.Linked h.mem 0 (before ++ node :: behind))
    (distinct : ((before ++ node :: behind).map TimerNode.addr).Nodup)
    (enough : before.length < fuel) :
    ∃ mem, h.unlink fuel node.addr = some { h with
        mem := mem
        gHead := timerLayout.first 0 (before ++ behind) } ∧
      timerLayout.Linked (Function.update mem node.addr none) 0 (before ++ behind) ∧
      ∀ addr, mem addr ≠ none → h.mem addr ≠ none := by
  rcases List.eq_nil_or_concat' before with rfl | ⟨front, prev, rfl⟩
  · exact ⟨h.mem, unlink_head gHead linked, linked.pop distinct, fun _ isAllocated => isAllocated⟩
  · rw [List.append_assoc, List.singleton_append] at gHead linked distinct ⊢
    have shorter : front.length < fuel := by
      rw [List.length_append] at enough
      omega
    refine ⟨_, ?_, linked.unlink distinct, ?_⟩
    · rw [unlink_inner gHead linked distinct shorter]
      congr 2
      rw [gHead, Layout.first_append, Layout.first_append]
      rfl
    · intro addr isAllocated
      by_cases isPrev : addr = prev.addr
      · rcases linked.stored (b := prev) (by simp) with ⟨-, next, stored, -⟩
        have isStored : h.mem addr = some (timerLayout.cell prev next) := isPrev ▸ stored
        rw [isStored]
        exact Option.some_ne_none _
      · rw [← Function.update_of_ne isPrev _ h.mem]
        exact isAllocated

theorem timerStop_of_split (valid : t.Valid) (nonnull : node.addr ≠ 0)
    (split : t.nodes = before ++ node :: behind) :
    Libhelp.timerStop t node.addr = { t with
      nodes := before ++ behind
      opened := t.opened.erase node.fd
      expired := t.expired.erase node.fd } := by
  have isApart := Search.map_notMem (split ▸ valid.addrs)
  have skipped : ∀ other ∈ before, ¬decide (other.addr = node.addr) = true := by
    intro other isBefore same
    apply isApart
    rw [← of_decide_eq_true same]
    exact List.mem_map_of_mem (List.mem_append_left _ isBefore)
  rcases @Search.find?_split _ (fun other => decide (other.addr = node.addr)) before behind node
    skipped (decide_eq_true rfl) with ⟨found, erased⟩
  rw [Libhelp.timerStop, if_neg nonnull, split, found]
  dsimp only
  rw [erased]

/-- `timer_stop` closes and frees a timer of the list, wherever it is, and takes it out. -/
theorem Represents.timerStop (represents : h.Represents t) (valid : t.Valid)
    (isNode : node ∈ t.nodes) (enough : t.nodes.length < fuel) :
    ∃ after, h.timerStop fuel node.addr = some after ∧
      after.Represents (Libhelp.timerStop t node.addr) ∧
      after.released = h.released ++ [.close node.fd, .free node.addr] := by
  rcases represents with ⟨gHead, linked, allocated, opened, expired⟩
  rcases linked.stored isNode with ⟨nonnull, next, stored, -⟩
  rcases List.append_of_mem isNode with ⟨before, behind, split⟩
  have isApart := Search.map_notMem (split ▸ valid.addrs)
  have shorter : before.length < fuel := by
    rw [split, List.length_append] at enough
    omega
  rcases @exists_unlinked (h.close node.fd) node before behind fuel (split ▸ gHead)
    (split ▸ linked) (split ▸ valid.addrs) shorter with ⟨mem, unlinks, stillLinked, fewer⟩
  have isPointer : node.addr ≠ 0 := nonnull
  have isStored : h.mem node.addr = some (timerLayout.cell node next) := stored
  have stops : h.timerStop fuel node.addr = some (free { h.close node.fd with
      mem := mem
      gHead := timerLayout.first 0 (before ++ behind) } node.addr) := by
    rw [TimerHeap.timerStop, if_neg isPointer, isStored]
    dsimp only
    rw [show (timerLayout.cell node next).fd = node.fd from rfl, unlinks]
  refine ⟨_, stops, ?_, List.append_assoc _ _ _⟩
  rw [timerStop_of_split valid isPointer split]
  refine ⟨rfl, stillLinked, ?_, congrArg (Finset.erase · node.fd) opened,
    congrArg (Finset.erase · node.fd) expired⟩
  intro addr isAllocated
  by_cases same : addr = node.addr
  · rw [same] at isAllocated
    exact absurd (Function.update_self _ _ _) isAllocated
  · have wasAllocated : mem addr ≠ none := by
      rw [← Function.update_of_ne same _ mem]
      exact isAllocated
    rcases allocated addr (fewer addr wasAllocated) with ⟨other, isOther, isAddr⟩
    refine ⟨other, ?_, isAddr⟩
    rw [split] at isOther
    rcases List.mem_append.mp isOther with isBefore | isRest
    · exact List.mem_append_left _ isBefore
    · rcases List.mem_cons.mp isRest with rfl | isBehind
      · exact absurd isAddr.symm same
      · exact List.mem_append_right _ isBehind

end Stop

section Fuel

variable {after : TimerHeap} {id : ℕ}

theorem unlink_add (unlinks : h.unlink fuel id = some after) (extra : ℕ) :
    h.unlink (fuel + extra) id = some after := by
  unfold unlink at unlinks ⊢
  by_cases isHead : id = h.gHead
  · rw [if_pos isHead] at unlinks ⊢
    exact unlinks
  · rw [if_neg isHead] at unlinks ⊢
    cases searched : run (timerLayout.walkStep h.mem fun tmp => tmp.next = id) fuel
        (.next h.gHead) with
    | none =>
        rw [searched] at unlinks
        cases unlinks
    | some tmp =>
        rw [run_add searched extra]
        rw [searched] at unlinks
        exact unlinks

theorem timerStop_add (stops : h.timerStop fuel id = some after) (extra : ℕ) :
    h.timerStop (fuel + extra) id = some after := by
  unfold timerStop at stops ⊢
  by_cases isNull : id = 0
  · rw [if_pos isNull] at stops ⊢
    exact stops
  · rw [if_neg isNull] at stops ⊢
    cases stored : h.mem id with
    | none =>
        rw [stored] at stops
        cases stops
    | some node =>
        rw [stored] at stops
        dsimp only at stops ⊢
        cases unlinks : (h.close node.fd).unlink fuel id with
        | none =>
            rw [unlinks] at stops
            cases stops
        | some middle =>
            rw [unlink_add unlinks extra]
            rw [unlinks] at stops
            exact stops

end Fuel

section Find

/-- `_get_timer_from_fd` returns the timer of the list with the descriptor, or `NULL`. -/
theorem Represents.getTimerFromFd (represents : h.Represents t)
    (enough : t.nodes.length < fuel) (fd : ℕ) : h.getTimerFromFd fuel fd =
      some (((Libhelp.getTimerFromFd t fd).map TimerNode.addr).getD 0) := by
  have fd_eq : ∀ node ∈ t.nodes, ∀ cell, h.mem node.addr = some cell → cell.fd = node.fd :=
    fun _ isNode _ isCell => represents.fd_eq isNode isCell
  rcases represents with ⟨gHead, linked, -, -, -⟩
  rw [TimerHeap.getTimerFromFd, gHead, Libhelp.getTimerFromFd]
  cases found : t.nodes.find? fun node => node.fd = fd with
  | none =>
      apply linked.run_walk_null _ enough
      intro node isNode cell isCell
      have differs := List.find?_eq_none.mp found node isNode
      rw [fd_eq node isNode cell isCell]
      simpa using differs
  | some node =>
      rcases List.find?_eq_some_iff_append.mp found with ⟨holds, before, behind, split, skipped⟩
      rw [split] at linked fd_eq enough ⊢
      apply linked.run_walk
      · intro other isBefore cell isCell
        rw [fd_eq other (List.mem_append_left _ isBefore) cell isCell]
        simpa using skipped other isBefore
      · intro cell isCell
        rw [fd_eq node (by simp) cell isCell]
        exact holds
      · rw [List.length_append] at enough
        omega

end Find

section Finalize

/-- The loop of `timer_finalize` ends when it has stopped every timer of the list. -/
theorem Represents.timerFinalize (represents : h.Represents t) (valid : t.Valid)
    (enough : t.nodes.length < fuel) :
    ∃ after, h.timerFinalize fuel = some after ∧ h.Finalized t.nodes after := by
  induction fuel generalizing h t with
  | zero => cases enough
  | succ fuel ih =>
      cases nodes : t.nodes with
      | nil =>
          have ends : h.gHead = 0 := by
            rw [represents.gHead, nodes]
            rfl
          refine ⟨h, ?_, ends, ?_, ?_, ?_⟩
          · rw [TimerHeap.timerFinalize, if_pos ends]
          · intro addr
            by_contra isAllocated
            rcases represents.allocated addr isAllocated with ⟨node, isNode, -⟩
            rw [nodes] at isNode
            cases isNode
          · simp
          · simp
      | cons node rest =>
          have isNode : node ∈ t.nodes := nodes ▸ List.mem_cons_self
          have isFirst : h.gHead = node.addr := by
            rw [represents.gHead, nodes]
            rfl
          have isPointer : h.gHead ≠ 0 := by
            rw [isFirst]
            exact (represents.linked.stored isNode).1
          have stopped := @timerStop_of_split t node [] rest valid (isFirst ▸ isPointer) nodes
          have middleValid := (Timers.timerStop_stopped t node.addr).valid valid
          rcases represents.timerStop valid isNode enough with
            ⟨middle, stops, middleRepresents, released⟩
          rw [stopped] at middleRepresents middleValid
          have shorter : rest.length < fuel := by
            rw [nodes] at enough
            exact Nat.lt_of_succ_lt_succ enough
          rcases ih middleRepresents middleValid shorter with
            ⟨after, finalizes, gHead, mem, given, opened⟩
          refine ⟨after, ?_, gHead, mem, ?_, ?_⟩
          · rw [TimerHeap.timerFinalize, if_neg isPointer, isFirst, stops]
            exact finalizes
          · rw [given, released, List.append_assoc]
            rfl
          · intro fd
            rw [opened, middleRepresents.opened, ← represents.opened, Finset.mem_erase,
              List.forall_mem_cons]
            constructor
            · intro isOpen
              exact ⟨isOpen.1.2, isOpen.1.1.symm, isOpen.2⟩
            · intro isOpen
              exact ⟨⟨isOpen.2.1.symm, isOpen.1⟩, isOpen.2.2⟩

end Finalize

end TimerHeap

end Libhelp
