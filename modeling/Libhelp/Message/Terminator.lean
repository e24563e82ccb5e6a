import Libhelp.Message.Queue
import Libhelp.Message.Udp

/-!
# The end of a text

Where the text of a message ends for those who read it as a string.  A size that is not
below that of `text` leaves no zero behind a long string; a negative one is a huge
`size_t`.  A queue does not carry the end of the text, and what the receiver has there
need not be zero.
-/

namespace Libhelp

open CString Record

/-- The size that `pm_send` without a size passes on, `strlen` as an `int`. -/
def pmMsgSize (msg : Bytes) : Int32 :=
  Int32.ofNat (strlen msg)

/-- The copy leaves room for a zero, and the text of the sender and the text of any receiver
have one. -/
structure TextsEnd (msg : Bytes) (msgSize : Int32) : Prop where
  copies : pmCopySize msgSize ≤ pmMessageSize - 1
  printed : nul ∈ pmText msg msgSize
  udp : ∀ sender receiver type time address message received,
    pmRecvUdp receiver (some ⟨address, (pmSendUdp sender type msg msgSize time).bytes⟩) =
      (some message, received) → nul ∈ message.text
  queue : ∀ before type sent m pm queue now message received remaining,
    pmSendQueue before type msg msgSize sent = some (before ++ [m]) →
      queue.msgrcv pmMessageSize pm.msgtypeGet = some (.takes m remaining) →
        pmRecvQueue pm queue now = some (some message, received, remaining) →
          nul ∈ message.text

section Copy

variable {msg : Bytes} {msgSize : Int32} {n kept : ℕ}

theorem sizeT_of_neg (negative : msgSize.toInt < 0) : pmMessageSize < sizeT msgSize := by
  have bound := msgSize.le_toInt
  have small : pmMessageSize = 10000 := rfl
  rw [sizeT, small]
  omega

theorem pmCopySize_lt_iff : pmCopySize msgSize < pmMessageSize ↔
    0 ≤ msgSize.toInt ∧ msgSize.toInt < 10000 := by
  have limit : pmMessageSize = 10000 := rfl
  have compare : msgSize ≤ 10000 ↔ msgSize.toInt ≤ 10000 := Int32.le_iff_toInt_le
  unfold pmCopySize
  rcases lt_or_ge msgSize.toInt 0 with negative | nonneg
  · have huge := sizeT_of_neg negative
    rw [if_pos (compare.mpr (by omega))]
    omega
  · by_cases small : msgSize ≤ 10000
    · have bound := compare.mp small
      rw [if_pos small, sizeT, limit]
      omega
    · have bound := compare.not.mp small
      rw [if_neg small]
      omega

theorem nul_mem_take_iff {string : Bytes} {zeros : ℕ} (free : NulFree string)
    (room : kept ≤ string.length + zeros) :
    nul ∈ (string ++ List.replicate zeros nul).take kept ↔ string.length < kept := by
  rw [List.take_append, List.mem_append, List.take_replicate, List.mem_replicate]
  constructor
  · intro isNul
    rcases isNul with inString | inZeros
    · exact absurd (List.mem_of_mem_take inString) free
    · omega
  · intro longer
    exact Or.inr ⟨by omega, rfl⟩

/-- The first bytes of the text have a zero when the copy or the string ends before them. -/
theorem nul_mem_pmText_take_iff (sized : msgSize.toInt = n) (fits : n ≤ pmMessageSize)
    (inside : kept ≤ pmMessageSize) :
    nul ∈ (pmText msg msgSize).take kept ↔ min n (strlen msg) < kept := by
  have free : NulFree ((cstr msg).take n) :=
    fun isNul => nulFree_cstr msg (List.mem_of_mem_take isNul)
  have length : ((cstr msg).take n).length = min n (strlen msg) := List.length_take
  rw [pmText_eq sized fits, nul_mem_take_iff free (by omega), length]

end Copy

section Transports

variable {msg : Bytes} {msgSize : Int32} {sent now : Int64} {m : QueueMsg} {pm received : Pm}
  {queue before remaining : Queue} {message : PmMessage}

/-- A receiver that has no zero in its record. -/
def Pm.withoutZeros : Pm :=
  { Pm.asking 1 pmTypeClient with
    pmsg := ⟨List.replicate sizeofProcMsg 1, List.length_replicate⟩ }

/-- A receiver without zeros takes the text from a queue with what it had at the end. -/
theorem queue_takes (msg : Bytes) (msgSize : Int32) : ∃ m message received,
    pmSendQueue [] (1 : Int32).toInt64 msg msgSize 0 = some ([] ++ [m]) ∧
      Queue.msgrcv [m] pmMessageSize Pm.withoutZeros.msgtypeGet = some (.takes m []) ∧
      pmRecvQueue .withoutZeros [m] 0 = some (some message, received, []) ∧
      message.text = (pmText msg msgSize).take queueTextSize ++ List.replicate 8 1 := by
  have positive : 0 < (1 : Int32).toInt64 := by decide
  have sends : pmSendQueue [] (1 : Int32).toInt64 msg msgSize 0 = some ([] ++ [_]) :=
    pmSendQueue_eq positive
  have noneBefore : ∀ other ∈ ([] : Queue), other.mtype ≠ (1 : Int32).toInt64 := by simp
  rcases @pmRecvQueue_eq 1 msgSize 0 0 msg [] _ .withoutZeros [] [] positive sends rfl noneBefore
    (by decide) with ⟨received, recv, -, text⟩
  have fits : (encodeInt64 0 ++ (pmText msg msgSize).take queueTextSize).length ≤
      pmMessageSize := by
    rw [List.length_append, length_encodeInt64, List.length_take, length_pmText]
    decide
  have last : Pm.withoutZeros.pmsg.text.drop queueTextSize = List.replicate 8 1 := by
    rw [ProcMsg.text, Pm.withoutZeros, List.drop_drop, List.drop_replicate]
    rfl
  rw [last] at text
  exact ⟨_, _, received, sends, msgrcv_eq positive rfl noneBefore fits, recv, text⟩

theorem udp_text {sender receiver : Pm} {type time : Int64} {address : SockAddr}
    (recv : pmRecvUdp receiver (some ⟨address, (pmSendUdp sender type msg msgSize time).bytes⟩) =
      (some message, received)) : message.text = pmText msg msgSize := by
  rcases @pmRecvUdp_eq time msg msgSize sender receiver address type with ⟨_, brings⟩
  rw [brings, Prod.mk.injEq, Option.some.injEq] at recv
  rw [← recv.1]

theorem queue_text {type : Int64}
    (sends : pmSendQueue before type msg msgSize sent = some (before ++ [m]))
    (takes : queue.msgrcv pmMessageSize pm.msgtypeGet = some (.takes m remaining))
    (recv : pmRecvQueue pm queue now = some (some message, received, remaining)) :
    message.text = (pmText msg msgSize).take queueTextSize ++
      pm.pmsg.text.drop queueTextSize := by
  have cut : ((pmText msg msgSize).take queueTextSize).length = queueTextSize := by
    rw [List.length_take, length_pmText]
    decide
  rw [pmRecvQueue, takes, Option.map_some] at recv
  dsimp only at recv
  rw [pmSendQueue_sent sends] at recv
  split at recv
  · cases recv
  · cases recv
    exact (fields_receive cut).2.2

end Transports

/-- Every text ends when and only when the size is not negative and below that of `text`, and the
size or the string ends before the part of `text` that a queue does not carry. -/
theorem textsEnd_iff (msg : Bytes) (msgSize : Int32) : TextsEnd msg msgSize ↔
    (0 ≤ msgSize.toInt ∧ msgSize.toInt < 10000) ∧
      (msgSize.toInt < 9992 ∨ strlen msg < 9992) := by
  have limit : pmMessageSize = 10000 := rfl
  have carried : queueTextSize = 9992 := rfl
  have whole : (pmText msg msgSize).take pmMessageSize = pmText msg msgSize :=
    List.take_of_length_le length_pmText.le
  constructor
  · intro ends
    have copies := ends.copies
    have range := (@pmCopySize_lt_iff msgSize).mp (by omega)
    have sized : msgSize.toInt = (msgSize.toInt.toNat : ℤ) := (Int.toNat_of_nonneg range.1).symm
    have fits : msgSize.toInt.toNat ≤ pmMessageSize := by omega
    refine ⟨range, ?_⟩
    rcases queue_takes msg msgSize with ⟨m, message, received, sends, takes, recv, text⟩
    have isNul := ends.queue [] _ 0 m .withoutZeros [m] 0 message received [] sends takes recv
    rw [text, List.mem_append] at isNul
    rcases isNul with inText | atEnd
    · have early := (nul_mem_pmText_take_iff sized fits (by decide)).mp inText
      omega
    · exact absurd (List.eq_of_mem_replicate atEnd) (by decide)
  · intro condition
    rcases condition with ⟨range, early⟩
    have less := pmCopySize_lt_iff.mpr range
    have sized : msgSize.toInt = (msgSize.toInt.toNat : ℤ) := (Int.toNat_of_nonneg range.1).symm
    have fits : msgSize.toInt.toNat ≤ pmMessageSize := by omega
    have isNul : nul ∈ pmText msg msgSize := by
      rw [← whole, nul_mem_pmText_take_iff sized fits le_rfl]
      omega
    have inCarried : nul ∈ (pmText msg msgSize).take queueTextSize := by
      rw [nul_mem_pmText_take_iff sized fits (by decide)]
      omega
    constructor
    · omega
    · exact isNul
    · intro sender receiver type time address message received recv
      rw [udp_text recv]
      exact isNul
    · intro before type sent m pm queue now message received remaining sends takes recv
      rw [queue_text sends takes recv]
      exact List.mem_append_left _ inCarried

/-- A text of 10000 bytes, the most that a message may have. -/
def longMsg : Bytes :=
  List.replicate 10000 97 ++ [nul]

/-- The text is full, and no zero is left. -/
theorem longMsg_unended : ¬TextsEnd longMsg (pmMsgSize longMsg) := by
  have free : NulFree (List.replicate 10000 97) := by
    intro isNul
    exact absurd (List.eq_of_mem_replicate isNul) (by decide)
  have length : strlen longMsg = 10000 := by
    rw [strlen, longMsg, cstr_append_nul free, List.length_replicate]
  have size : pmMsgSize longMsg = 10000 := by
    rw [pmMsgSize, length]
    rfl
  have whole : (pmText longMsg 10000).take pmMessageSize = pmText longMsg 10000 :=
    List.take_of_length_le length_pmText.le
  rw [size]
  intro ends
  have printed := ends.printed
  rw [← whole, nul_mem_pmText_take_iff (n := 10000) (by decide) (by decide) le_rfl, length]
    at printed
  exact absurd printed (by decide)

end Libhelp
