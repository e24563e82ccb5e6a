import Libhelp.Lib.Search
import Libhelp.Message.Message

/-!
# Messages through a System V queue

The model of `pm_send_queue` and `pm_recv_queue`.  A queue holds messages in the
order in which they were sent; the queue has room for what is sent.  `msgsnd` takes
the type and as many further bytes as its size says, and `msgrcv` stores the same
behind the type.

The size both are given is that of `text`, but the bytes after the type begin with
`time_send`.  So the last eight bytes of `text` are not sent.
-/

namespace Libhelp

open CString Record

/-- A message in a System V queue. -/
structure QueueMsg where
  mtype : Int64
  mtext : Bytes

abbrev Queue := List QueueMsg

namespace Queue

/-- `msgsnd` of a record whose first field is the type. -/
def msgsnd (queue : Queue) (m : ProcMsg) (size : ℕ) : Option Queue :=
  if 0 < m.type then
    some (queue ++ [{ mtype := m.type, mtext := (m.bytes.drop sizeofLong).take size }])
  else
    none

/-- The messages a `msgtyp` asks for. -/
def asks (queue : Queue) (msgtyp : Int64) (m : QueueMsg) : Bool :=
  if msgtyp = 0 then
    true
  else if 0 < msgtyp then
    m.mtype = msgtyp
  else
    -- the lowest type up to the absolute value
    m.mtype ≤ -msgtyp ∧ ∀ other ∈ queue, m.mtype ≤ other.mtype

/-- How `msgrcv` ends when it does not block. -/
inductive Received where
  | fails
  | takes (m : QueueMsg) (queue : Queue)

/-- `msgrcv`, `none` when it blocks.  It fails on a message that is longer than the size. -/
def msgrcv (queue : Queue) (size : ℕ) (msgtyp : Int64) : Option Received :=
  (queue.find? (queue.asks msgtyp)).map fun m =>
    if m.mtext.length ≤ size then .takes m (queue.eraseP (queue.asks msgtyp)) else .fails

end Queue

/-- `pm_send_queue` -/
def pmSendQueue (queue : Queue) (type : Int64) (msg : Bytes) (msgSize : Int32) (time : Int64) :
    Option Queue :=
  queue.msgsnd (pmFill type msg msgSize time) pmMessageSize

/-- `pm_recv_queue`, `none` when it blocks. -/
def pmRecvQueue (pm : Pm) (queue : Queue) (time : Int64) :
    Option (Option PmMessage × Pm × Queue) :=
  (queue.msgrcv pmMessageSize pm.msgtypeGet).map fun
    | .fails => (none, pm, queue)
    | .takes m queue =>
        let pm := { pm with pmsg := pm.pmsg.receive (encodeInt64 m.mtype ++ m.mtext) }
        if time - pm.pmsg.timeSend > 1 then
          (none, pm, queue)
        else
          (some (pm.message m.mtext.length), pm, queue)

/-- The bytes of `text` that a message in a queue has. -/
def queueTextSize : ℕ := pmMessageSize - sizeofLong

section Transfer

variable {type size : Int32} {sent now : Int64} {msg payload rest : Bytes} {queue : Queue}
  {m : QueueMsg} {pm : Pm}

theorem pmSendQueue_eq {type : Int64} (positive : 0 < type) :
    pmSendQueue queue type msg size sent = some (queue ++ [{
      mtype := type
      mtext := encodeInt64 sent ++ (pmText msg size).take queueTextSize }]) := by
  have front : (encodeInt64 type).length = sizeofLong := length_encodeInt64 _
  have typed := (ProcMsg.fields (m := pmFill type msg size sent) rfl).1
  rw [pmSendQueue, Queue.msgsnd, typed, if_pos positive]
  have mtext : ((pmFill type msg size sent).bytes.drop sizeofLong).take pmMessageSize =
      encodeInt64 sent ++ (pmText msg size).take queueTextSize := by
    rw [pmFill]
    dsimp only
    rw [List.drop_left' front, List.take_append, length_encodeInt64,
      List.take_of_length_le (by rw [length_encodeInt64]; decide)]
    rfl
  rw [mtext]

/-- Only a message with a positive type is sent. -/
theorem pmSendQueue_sent {type : Int64}
    (sends : pmSendQueue queue type msg size sent = some (queue ++ [m])) :
    m = ⟨type, encodeInt64 sent ++ (pmText msg size).take queueTextSize⟩ := by
  have typed := (ProcMsg.fields (m := pmFill type msg size sent) rfl).1
  by_cases positive : 0 < type
  · rw [pmSendQueue_eq positive, Option.some.injEq, List.append_cancel_left_eq,
      List.singleton_inj] at sends
    exact sends.symm
  · rw [pmSendQueue, Queue.msgsnd, typed, if_neg positive] at sends
    cases sends

theorem msgrcv_eq {before after : Queue} {size : ℕ} {msgtyp : Int64} (positive : 0 < msgtyp)
    (typed : m.mtype = msgtyp) (first : ∀ other ∈ before, other.mtype ≠ msgtyp)
    (fits : m.mtext.length ≤ size) :
    Queue.msgrcv (before ++ m :: after) size msgtyp = some (.takes m (before ++ after)) := by
  have nonzero : msgtyp ≠ 0 := by
    intro zero
    rw [zero] at positive
    exact absurd positive (by decide)
  have asks : Queue.asks (before ++ m :: after) msgtyp =
      fun other : QueueMsg => decide (other.mtype = msgtyp) := by
    funext other
    rw [Queue.asks, if_neg nonzero, if_pos positive]
  have skipped : ∀ other ∈ before, ¬decide (other.mtype = msgtyp) = true := by
    intro other isBefore
    rw [decide_eq_true_eq]
    exact first other isBefore
  rcases @Search.find?_split _ _ before after m skipped (decide_eq_true typed) with
    ⟨found, erased⟩
  rw [Queue.msgrcv, asks, found, Option.map_some, if_pos fits, erased]

theorem fields_receive {old : ProcMsg} {type sent : Int64} {text : Bytes}
    (length : text.length = queueTextSize) :
    (old.receive (encodeInt64 type ++ (encodeInt64 sent ++ text))).type = type ∧
      (old.receive (encodeInt64 type ++ (encodeInt64 sent ++ text))).timeSend = sent ∧
      (old.receive (encodeInt64 type ++ (encodeInt64 sent ++ text))).text =
        text ++ old.text.drop queueTextSize := by
  have arrived : (encodeInt64 type ++ (encodeInt64 sent ++ text)).length =
      sizeofLong + sizeofLong + queueTextSize := by
    rw [List.length_append, List.length_append, length_encodeInt64, length_encodeInt64, length]
    rfl
  apply ProcMsg.fields
  rw [ProcMsg.bytes_receive (by rw [arrived]; decide), arrived, ProcMsg.text, List.drop_drop,
    List.append_assoc, List.append_assoc]

/-- A message that is taken in time comes with its type, the part of the text that was sent, and
the end of the text that the receiver had before. -/
theorem pmRecvQueue_eq {before after : Queue} (positive : 0 < type.toInt64)
    (sends : pmSendQueue queue type.toInt64 msg size sent = some (queue ++ [m]))
    (asks : pm.msgtypeGet = type.toInt64)
    (first : ∀ other ∈ before, other.mtype ≠ type.toInt64) (soon : ¬now - sent > 1) :
    ∃ received, pmRecvQueue pm (before ++ m :: after) now =
        some (some (received.message m.mtext.length), received, before ++ after) ∧
      received.pmsg.type.toInt32 = type ∧ received.pmsg.text =
        (pmText msg size).take queueTextSize ++ pm.pmsg.text.drop queueTextSize := by
  have sent_eq := pmSendQueue_sent sends
  subst sent_eq
  have cut : ((pmText msg size).take queueTextSize).length = queueTextSize := by
    rw [List.length_take, length_pmText]
    decide
  rcases @fields_receive pm.pmsg type.toInt64 sent _ cut with ⟨typed, timed, text⟩
  have fits : (encodeInt64 sent ++ (pmText msg size).take queueTextSize).length ≤
      pmMessageSize := by
    rw [List.length_append, length_encodeInt64, cut]
    decide
  refine ⟨{ pm with pmsg := pm.pmsg.receive _ }, ?_, ?_, text⟩
  · rw [pmRecvQueue, asks, msgrcv_eq positive rfl first fits, Option.map_some]
    dsimp only
    rw [timed, if_neg soon]
  · show (pm.pmsg.receive _).type.toInt32 = type
    rw [typed]
    exact Int32.toInt32_toInt64 type

theorem prefix_pmText (free : NulFree payload) (fits : payload.length ≤ pmMessageSize)
    (sized : size.toInt = payload.length) : payload <+: pmText (payload ++ rest) size := by
  rw [pmText_eq sized fits, take_cstr_append, cstr_of_nulFree free]
  exact List.prefix_append _ _

/-- A text arrives as it was sent when and only when its last bytes, those that are not sent, are
in the record of the receiver already. -/
theorem queue_carries_iff {before after : Queue} (positive : 0 < type) (free : NulFree payload)
    (fits : payload.length ≤ pmMessageSize) (sized : size.toInt = payload.length)
    (sends : pmSendQueue queue type.toInt64 (payload ++ rest) size sent = some (queue ++ [m]))
    (asks : pm.msgtypeGet = type.toInt64)
    (first : ∀ other ∈ before, other.mtype ≠ type.toInt64) (soon : ¬now - sent > 1) :
    (∃ message received remaining, pmRecvQueue pm (before ++ m :: after) now =
        some (some message, received, remaining) ∧ message.type = type ∧
      message.text.take payload.length = payload) ↔
    payload.drop queueTextSize <+: pm.pmsg.text.drop queueTextSize := by
  have positive64 : 0 < type.toInt64 := by
    rw [Int64.lt_iff_toInt_lt, Int32.toInt_toInt64]
    exact Int32.lt_iff_toInt_lt.mp positive
  rcases @pmRecvQueue_eq type size sent now (payload ++ rest) queue m pm before after positive64
    sends asks first soon with ⟨received, recv, typed, text⟩
  rw [← take_cut_iff (prefix_pmText free fits sized), ← text]
  constructor
  · intro carried
    rcases carried with ⟨other, _, _, same, -, carries⟩
    rw [recv] at same
    cases same
    exact carries
  · intro carries
    exact ⟨_, received, _, recv, typed, carries⟩

theorem queue_carries_short : ∃ message received remaining,
    pmRecvQueue (.asking 1 pmTypeClient) [{
        mtype := 1, mtext := encodeInt64 0 ++ (pmText ([97] ++ [0]) 1).take queueTextSize }] 0 =
      some (some message, received, remaining) ∧ message.type = 1 ∧ message.text.take 1 = [97] := by
  have sends : pmSendQueue [] (1 : Int32).toInt64 ([97] ++ [0]) 1 0 = some ([] ++ [_]) :=
    pmSendQueue_eq (by decide)
  have free : NulFree [97] := by decide
  have fits : ([97] : Bytes).length ≤ pmMessageSize := by decide
  have none_before : ∀ other ∈ ([] : Queue), other.mtype ≠ (1 : Int32).toInt64 := by simp
  have none_cut : ([97] : Bytes).drop queueTextSize = [] := List.drop_of_length_le (by decide)
  apply (queue_carries_iff (by decide) free fits (by decide) sends rfl none_before (by decide)).mpr
  rw [none_cut]
  exact List.nil_prefix

/-- A text of 10000 bytes comes to a receiver whose record is zero without its last eight
bytes. -/
theorem queue_cuts_text : ∃ m message received,
    pmSendQueue [] 1 (List.replicate 10000 97 ++ [0]) 10000 0 = some [m] ∧
      pmRecvQueue (.asking 1 pmTypeClient) [m] 0 = some (some message, received, []) ∧
        message.text.take 10000 ≠ List.replicate 10000 97 := by
  have sends : pmSendQueue [] (1 : Int32).toInt64 (List.replicate 10000 97 ++ [0]) 10000 0 =
      some ([] ++ [_]) := pmSendQueue_eq (by decide)
  have none_before : ∀ other ∈ ([] : Queue), other.mtype ≠ (1 : Int32).toInt64 := by simp
  rcases @pmRecvQueue_eq 1 10000 0 0 _ [] _ (.asking 1 pmTypeClient) [] [] (by decide) sends rfl
    none_before (by decide) with ⟨received, recv, -, text⟩
  refine ⟨_, _, received, sends, recv, ?_⟩
  have length : (List.replicate 10000 (97 : UInt8)).length = 10000 := List.length_replicate
  have free : NulFree (List.replicate 10000 97) := by
    intro isNul
    exact absurd (List.eq_of_mem_replicate isNul) (by decide)
  have isStart : List.replicate 10000 97 <+: pmText (List.replicate 10000 97 ++ [0]) 10000 := by
    apply prefix_pmText free
    · exact length.le
    · rw [length]
      rfl
  have cut := @take_cut_iff _ _ ((Pm.asking 1 pmTypeClient).pmsg.text.drop queueTextSize)
    queueTextSize isStart
  rw [length, ← text] at cut
  intro carried
  have zeros : List.replicate 8 (97 : UInt8) <+: List.replicate 8 nul := by
    have ends := cut.mp carried
    rw [List.drop_replicate, ProcMsg.text, Pm.asking] at ends
    dsimp only at ends
    rw [List.drop_replicate, List.drop_replicate] at ends
    exact ends
  exact absurd zeros (by decide)

end Transfer

end Libhelp
