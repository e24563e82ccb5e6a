import Libhelp.Lib.Transition
import Libhelp.Message.Leftover
import Libhelp.Message.Queue

/-!
# The order of messages

Any number of senders and receivers on one queue.  Of the messages of one type, those that
have been taken are the first ones that were sent, in the order in which they were sent, and
the others are in the queue: none is lost in it, taken twice or overtaken.

What is taken is handed on, with its type and what was sent of its text, unless it has
waited for more than a second; then the handler is called all the same, without data.  The
size that is handed on is `PM_MESSAGE_SIZE`, whatever size was sent.
-/

namespace Libhelp

open CString Record Transition

/-- A queue and those who receive from it. -/
structure QueueUsers (ρ : Type*) where
  queue : Queue
  receivers : ρ → Pm

/-- What is done with a queue. -/
inductive QueueEvent (ρ : Type*) where
  | sends (type : Int64) (msg : Bytes) (msgSize : Int32) (now : Int64)
  /-- `pm_handler_start` -/
  | asksFor (receiver : ρ) (msgtype : Int64)
  /-- `pm_answer_get` -/
  | answers (receiver : ρ) (now : Int64)

/-- A message that has been taken, and what the handler has been called with. -/
structure Delivery (ρ : Type*) where
  receiver : ρ
  now : Int64
  message : QueueMsg
  answer : PmAnswer

/-- The messages that have been sent and taken so far. -/
structure Traffic (ρ : Type*) where
  sent : List QueueMsg
  taken : List (Delivery ρ)

/-- A message as `pm_send_queue` puts it into the queue. -/
def QueueMsg.IsSent (m : QueueMsg) (time : Int64) (text : Bytes) : Prop :=
  text.length = queueTextSize ∧ m.mtext = encodeInt64 time ++ text

/-- The handler gets the message, unless that is more than a second old. -/
def Delivery.Faithful {ρ : Type*} (d : Delivery ρ) : Prop :=
  ∃ time text, d.message.IsSent time text ∧
    if d.now - time > 1 then
      d.answer = ⟨0, none, 0⟩
    else
      d.answer.type = d.message.mtype.toInt32 ∧ d.answer.size = Int32.ofNat pmMessageSize ∧
        ∃ data, d.answer.data = some data ∧ data.take queueTextSize = text

namespace QueueUsers

variable {ρ : Type*} [DecidableEq ρ]

def step (u : QueueUsers ρ) : QueueEvent ρ → QueueUsers ρ → Prop
  | .sends type msg msgSize now, after =>
      after = { u with queue := (pmSendQueue u.queue type msg msgSize now).getD u.queue }
  | .asksFor receiver msgtype, after =>
      let pm := { u.receivers receiver with msgtypeGet := msgtype }
      after = { u with receivers := Function.update u.receivers receiver pm }
  | .answers receiver now, after =>
      ∃ message pm queue, pmRecvQueue (u.receivers receiver) u.queue now =
        some (message, pm, queue) ∧ after = ⟨queue, Function.update u.receivers receiver pm⟩

/-- What a step adds to the traffic. -/
def traffic (u : QueueUsers ρ) : QueueEvent ρ → Traffic ρ → Traffic ρ
  | .sends type msg msgSize now, traffic =>
      { traffic with sent := traffic.sent ++
          ((pmSendQueue u.queue type msg msgSize now).getD u.queue).drop u.queue.length }
  | .asksFor _ _, traffic => traffic
  | .answers receiver now, traffic =>
      let pm := u.receivers receiver
      match u.queue.msgrcv pmMessageSize pm.msgtypeGet, pmRecvQueue pm u.queue now with
      | some (.takes m _), some (message, _, _) =>
          { traffic with taken := traffic.taken ++ [⟨receiver, now, m, pmAnswerGet message⟩] }
      | _, _ => traffic

/-- A queue that is empty at first, with the traffic on it. -/
def system (receivers : ρ → Pm) : System (QueueUsers ρ × Traffic ρ) (QueueEvent ρ) :=
  (System.mk (fun u => u = ⟨[], receivers⟩) step).recording ⟨[], []⟩ traffic

def ofType (type : Int64) (messages : List QueueMsg) : List QueueMsg :=
  messages.filter fun m => m.mtype = type

/-- What holds of a queue and the traffic on it. -/
structure InOrder (u : QueueUsers ρ) (traffic : Traffic ρ) : Prop where
  order : ∀ type, ofType type traffic.sent =
    ofType type (traffic.taken.map Delivery.message) ++ ofType type u.queue
  isSent : ∀ m ∈ u.queue, ∃ time text, m.IsSent time text
  faithful : ∀ d ∈ traffic.taken, d.Faithful

variable {u after : QueueUsers ρ} {traffic : Traffic ρ} {queue : Queue} {pm : Pm} {now : Int64}
  {m : QueueMsg}

section Steps

theorem asks_of_type {msgtyp : Int64} {other : QueueMsg} (asked : queue.asks msgtyp m = true)
    (same : other.mtype = m.mtype) : queue.asks msgtyp other = true := by
  unfold Queue.asks at asked ⊢
  rw [same]
  exact asked

theorem length_mtext {time : Int64} {text : Bytes} (isSent : m.IsSent time text) :
    m.mtext.length = pmMessageSize := by
  rw [isSent.2, List.length_append, length_encodeInt64, isSent.1]
  rfl

omit [DecidableEq ρ] in
/-- What is taken from a queue is the first message asked for, and it is handed on faithfully. -/
theorem pmRecvQueue_takes {message : Option PmMessage} {pm' : Pm} {queue' : Queue}
    (isSent : ∀ m ∈ queue, ∃ time text, m.IsSent time text) (receiver : ρ)
    (received : pmRecvQueue pm queue now = some (message, pm', queue')) :
    ∃ m, queue.find? (queue.asks pm.msgtypeGet) = some m ∧
      queue' = queue.eraseP (queue.asks pm.msgtypeGet) ∧
      queue.msgrcv pmMessageSize pm.msgtypeGet = some (.takes m queue') ∧
      (Delivery.mk receiver now m (pmAnswerGet message)).Faithful := by
  unfold pmRecvQueue at received
  cases found : queue.find? (queue.asks pm.msgtypeGet) with
  | none =>
      rw [Queue.msgrcv, found] at received
      cases received
  | some m =>
      rcases isSent m (List.mem_of_find?_eq_some found) with ⟨time, text, isSent⟩
      have takes : queue.msgrcv pmMessageSize pm.msgtypeGet =
          some (.takes m (queue.eraseP (queue.asks pm.msgtypeGet))) := by
        rw [Queue.msgrcv, found, Option.map_some, if_pos (length_mtext isSent).le]
      rcases @fields_receive pm.pmsg m.mtype time text isSent.1 with ⟨typed, timed, texts⟩
      rw [← isSent.2] at typed timed texts
      rw [takes, Option.map_some] at received
      dsimp only at received
      rw [timed] at received
      split at received
      case isTrue late =>
        cases received
        exact ⟨m, rfl, rfl, takes, time, text, isSent, by rw [if_pos late]; rfl⟩
      case isFalse inTime =>
        cases received
        refine ⟨m, rfl, rfl, takes, time, text, isSent, ?_⟩
        rw [if_neg inTime]
        refine ⟨congrArg Int64.toInt32 typed, ?_, _, rfl, ?_⟩
        · rw [← length_mtext isSent, isSent.2]
          rfl
        · rw [← isSent.1]
          exact (congrArg (List.take text.length) texts).trans List.take_left

omit [DecidableEq ρ] in
/-- A message that `pm_send_queue` puts behind a queue is behind those of its type. -/
theorem InOrder.append (inOrder : u.InOrder traffic) (isSent : ∃ time text, m.IsSent time text) :
    InOrder { u with queue := u.queue ++ [m] } { traffic with sent := traffic.sent ++ [m] } := by
  refine ⟨fun type => ?_, fun other isQueued => ?_, inOrder.faithful⟩
  · have order := inOrder.order type
    unfold ofType at order ⊢
    rw [List.filter_append, order, List.filter_append, List.append_assoc]
  · rcases List.mem_append.mp isQueued with isOld | isNew
    · exact inOrder.isSent other isOld
    · rw [List.mem_singleton.mp isNew]
      exact isSent

theorem InOrder.sends {type : Int64} {msg : Bytes} {msgSize : Int32}
    (inOrder : u.InOrder traffic) (stepped : u.step (.sends type msg msgSize now) after) :
    after.InOrder (u.traffic (.sends type msg msgSize now) traffic) := by
  have isAfter : after =
      { u with queue := (pmSendQueue u.queue type msg msgSize now).getD u.queue } := stepped
  rw [isAfter, QueueUsers.traffic]
  by_cases positive : 0 < type
  · rw [pmSendQueue_eq positive, Option.getD_some, List.drop_left]
    apply inOrder.append
    refine ⟨now, _, ?_, rfl⟩
    rw [List.length_take, length_pmText]
    rfl
  · have refused : pmSendQueue u.queue type msg msgSize now = none := by
      have typed := (ProcMsg.fields (m := pmFill type msg msgSize now) rfl).1
      rw [pmSendQueue, Queue.msgsnd, typed, if_neg positive]
    rw [refused, Option.getD_none, List.drop_length, List.append_nil]
    exact inOrder

theorem InOrder.answers {receiver : ρ} (inOrder : u.InOrder traffic)
    (stepped : u.step (.answers receiver now) after) :
    after.InOrder (u.traffic (.answers receiver now) traffic) := by
  rcases stepped with ⟨message, pm, queue, received, rfl⟩
  rcases pmRecvQueue_takes inOrder.isSent receiver received with ⟨m, found, rfl, takes, faithful⟩
  have added : u.traffic (.answers receiver now) traffic =
      { traffic with taken := traffic.taken ++ [⟨receiver, now, m, pmAnswerGet message⟩] } := by
    simp only [QueueUsers.traffic, takes, received]
  rw [added]
  refine ⟨fun type => ?_, fun other isQueued => ?_, fun d isTaken => ?_⟩
  · have alike : ∀ other : QueueMsg, other.mtype = m.mtype →
        u.queue.asks (u.receivers receiver).msgtypeGet other = true := fun other same =>
      asks_of_type (List.find?_some found) same
    have first := Search.filter_eraseP found alike type
    have order := inOrder.order type
    unfold ofType at order ⊢
    rw [order, first, List.map_append, List.filter_append, List.append_assoc]
    congr 1
    split_ifs with same
    · simp [same]
    · simp [same]
  · exact inOrder.isSent other (List.mem_of_mem_eraseP isQueued)
  · rcases List.mem_append.mp isTaken with isOld | isNew
    · exact inOrder.faithful d isOld
    · rw [List.mem_singleton.mp isNew]
      exact faithful

theorem InOrder.step {event : QueueEvent ρ} (inOrder : u.InOrder traffic)
    (stepped : u.step event after) : after.InOrder (u.traffic event traffic) := by
  cases event with
  | sends type msg msgSize now => exact inOrder.sends stepped
  | asksFor receiver msgtype =>
      have isAfter : after = { u with receivers := _ } := stepped
      rw [isAfter]
      exact ⟨inOrder.order, inOrder.isSent, inOrder.faithful⟩
  | answers receiver now => exact inOrder.answers stepped

end Steps

section Runs

variable {receivers users : ρ → Pm} {events : Traffic ρ} {type : Int32} {msg : Bytes}
  {size : Int32} {sent : Int64}

end Runs

end QueueUsers

end Libhelp
