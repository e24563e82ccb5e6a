import Libhelp.Message.Udp

/-!
# What is left over in a record

A datagram is stored over the start of `pmsg`, and nothing clears what is behind it.  So
what `pm_answer_get` hands on is determined by the last datagram only when that fills the
record.  The text as a string needs less: a zero in the text of the datagram ends it.
-/

namespace Libhelp

open CString Record

/-- What `pm_answer_get` hands to `pm_handler_parser`. -/
structure PmAnswer where
  type : Int32
  data : Option Bytes
  size : Int32

/-- `pm_answer_get`, with what `pm_recv` returns. -/
def pmAnswerGet : Option PmMessage → PmAnswer
  | none => ⟨0, none, 0⟩
  | some message => ⟨message.type, some message.text, message.size⟩

namespace Pm

/-- What an event makes of an endpoint. -/
def udpStep (pm : Pm) : PmUdpEvent → Pm
  | .send _ _ _ _ => pm
  | .recv datagram => (pmRecvUdp pm datagram).2

/-- An endpoint after a history. -/
def udpRun (pm : Pm) (history : List PmUdpEvent) : Pm :=
  history.foldl udpStep pm

/-- What is handed on for a datagram that an endpoint receives after a history. -/
def udpAnswer (pm : Pm) (history : List PmUdpEvent) (last : Datagram) : PmAnswer :=
  pmAnswerGet (pmRecvUdp (pm.udpRun history) (some last)).1

/-- Whatever two endpoints have received before, they hand on the same type and, as far as it is
read, the same text for a last datagram. -/
def AnswersSame (read : Bytes → Bytes) (first second : Pm) (last : Datagram) : Prop :=
  ∀ earlier other : List PmUdpEvent,
    (first.udpAnswer earlier last).type = (second.udpAnswer other last).type ∧
      (first.udpAnswer earlier last).data.map read = (second.udpAnswer other last).data.map read

/-- The record after a datagram has been stored. -/
def record (pm : Pm) (datagram : Datagram) : Bytes :=
  (pm.pmsg.receive (datagram.bytes.take sizeofProcMsg)).bytes

end Pm

namespace Datagram

/-- A datagram that fills the record. -/
def Whole (datagram : Datagram) : Prop :=
  sizeofProcMsg ≤ datagram.bytes.length

/-- A datagram with a zero in its text. -/
def EndsText (datagram : Datagram) : Prop :=
  nul ∈ datagram.bytes.drop (sizeofLong + sizeofLong)

instance (datagram : Datagram) : Decidable datagram.EndsText :=
  inferInstanceAs (Decidable (nul ∈ _))

/-- A datagram that is the same byte throughout. -/
def filled (byte : UInt8) : Datagram :=
  ⟨⟨0, 0, 0⟩, List.replicate sizeofProcMsg byte⟩

end Datagram

namespace Pm

variable {pm first second : Pm} {datagram last : Datagram} {byte : UInt8}

theorem record_eq_of_whole (whole : datagram.Whole) :
    pm.record datagram = datagram.bytes.take sizeofProcMsg := by
  have length : (datagram.bytes.take sizeofProcMsg).length = sizeofProcMsg :=
    List.length_take_of_le whole
  rw [record, ProcMsg.bytes_receive length.le, length, ← pm.pmsg.sized, List.drop_length,
    List.append_nil]

theorem record_eq_of_short (short : datagram.bytes.length ≤ sizeofProcMsg) :
    pm.record datagram = datagram.bytes ++ pm.pmsg.bytes.drop datagram.bytes.length := by
  rw [record, List.take_of_length_le short, ProcMsg.bytes_receive short]

theorem udpAnswer_of_nil (pm : Pm) (history : List PmUdpEvent) (empty : last.bytes = []) :
    pm.udpAnswer history last = ⟨0, none, 0⟩ := by
  rw [udpAnswer, pmRecvUdp, empty]
  rfl

theorem udpAnswer_eq (pm : Pm) (history : List PmUdpEvent) (nonempty : last.bytes ≠ []) :
    ∃ size, pm.udpAnswer history last =
      ⟨(decodeInt64 (((pm.udpRun history).record last).take sizeofLong)).toInt32,
        some (((pm.udpRun history).record last).drop (sizeofLong + sizeofLong)), size⟩ := by
  have arrives : (last.bytes.take sizeofProcMsg).length ≠ 0 := by
    intro zero
    apply nonempty
    rcases List.take_eq_nil_iff.mp (List.length_eq_zero_iff.mp zero) with none | empty
    · exact absurd none (by decide)
    · exact empty
  rw [udpAnswer, pmRecvUdp, if_neg arrives]
  refine ⟨Int32.ofNat (last.bytes.take sizeofProcMsg).length, ?_⟩
  rw [pmAnswerGet, message, recvfrom_pmsg]
  rfl

theorem udpRun_recv (pm : Pm) (datagram : Datagram) :
    (pm.udpRun [.recv (some datagram)]).pmsg.bytes = pm.record datagram := by
  show (pmRecvUdp pm (some datagram)).2.pmsg.bytes = _
  rw [pmRecvUdp, record, ← recvfrom_pmsg]
  split <;> rfl

/-- Behind a datagram that does not fill the record is what an earlier one has left there. -/
theorem record_filled (pm : Pm) (short : ¬last.Whole) (byte : UInt8) :
    (pm.udpRun [.recv (some (.filled byte))]).record last =
      last.bytes ++ List.replicate (sizeofProcMsg - last.bytes.length) byte := by
  have whole : (Datagram.filled byte).Whole := by
    rw [Datagram.Whole, Datagram.filled, List.length_replicate]
  rw [record_eq_of_short (Nat.le_of_not_le short), udpRun_recv, record_eq_of_whole whole,
    Datagram.filled, List.take_replicate, Nat.min_self, List.drop_replicate]

theorem leftover_byte (pm : Pm) (short : ¬last.Whole) (byte : UInt8) :
    (((pm.udpRun [.recv (some (.filled byte))]).record last).drop
      (sizeofLong + sizeofLong))[pmMessageSize - 1]? = some byte := by
  have bound : last.bytes.length < sizeofLong + sizeofLong + pmMessageSize :=
    Nat.lt_of_not_le short
  have positive : 0 < pmMessageSize := by decide
  rw [record_filled pm short, List.getElem?_drop, List.getElem?_append_right (by omega),
    List.getElem?_replicate, if_pos]
  unfold sizeofProcMsg
  omega

theorem leftover_ne (short : ¬last.Whole) :
    ((first.udpRun [.recv (some (.filled 1))]).record last).drop (sizeofLong + sizeofLong) ≠
      ((second.udpRun [.recv (some (.filled 2))]).record last).drop
        (sizeofLong + sizeofLong) := by
  intro same
  have one := first.leftover_byte short 1
  rw [same, second.leftover_byte short 2] at one
  exact absurd one (by decide)

/-- Without a zero in the datagram the text has none. -/
theorem nulFree_leftover (short : ¬last.Whole) (unended : ¬last.EndsText) (nonzero : byte ≠ nul) :
    NulFree (((pm.udpRun [.recv (some (.filled byte))]).record last).drop
      (sizeofLong + sizeofLong)) := by
  rw [record_filled pm short, List.drop_append, nulFree_append, List.drop_replicate]
  refine ⟨unended, ?_⟩
  intro isNul
  exact nonzero (List.eq_of_mem_replicate isNul).symm

/-- A datagram that is longer than the fields before the text has its own type, and its own string
when a zero ends it. -/
theorem record_of_endsText (short : ¬last.Whole) (ends : last.EndsText) :
    (pm.record last).take sizeofLong = last.bytes.take sizeofLong ∧
      cstr ((pm.record last).drop (sizeofLong + sizeofLong)) =
        cstr (last.bytes.drop (sizeofLong + sizeofLong)) := by
  have fields : sizeofLong + sizeofLong < last.bytes.length := by
    by_contra less
    rw [Datagram.EndsText, List.drop_of_length_le (Nat.le_of_not_lt less)] at ends
    cases ends
  rw [record_eq_of_short (Nat.le_of_not_le short)]
  constructor
  · exact List.take_append_of_le_length (by omega)
  · rw [List.drop_append_of_le_length fields.le]
    rcases exists_cstr_append ends with ⟨rest, split⟩
    nth_rewrite 1 [split]
    rw [List.append_assoc]
    exact cstr_append_nul (nulFree_cstr _)

theorem answersSame_of_nil (read : Bytes → Bytes) (empty : last.bytes = []) :
    AnswersSame read first second last := by
  intro earlier other
  rw [udpAnswer_of_nil first earlier empty, udpAnswer_of_nil second other empty]
  exact ⟨rfl, rfl⟩

/-- Endpoints hand on the same when their records have the same type and, as far as it is read, the
same text. -/
theorem answersSame_iff_record (read : Bytes → Bytes) (nonempty : last.bytes ≠ []) :
    AnswersSame read first second last ↔ ∀ earlier other,
      (decodeInt64 (((first.udpRun earlier).record last).take sizeofLong)).toInt32 =
          (decodeInt64 (((second.udpRun other).record last).take sizeofLong)).toInt32 ∧
        read (((first.udpRun earlier).record last).drop (sizeofLong + sizeofLong)) =
          read (((second.udpRun other).record last).drop (sizeofLong + sizeofLong)) := by
  apply forall₂_congr
  intro earlier other
  rcases udpAnswer_eq first earlier nonempty with ⟨_, answer⟩
  rcases udpAnswer_eq second other nonempty with ⟨_, otherAnswer⟩
  rw [answer, otherAnswer]
  dsimp only
  rw [Option.map_some, Option.map_some, Option.some.injEq]

theorem answersSame_of_whole (read : Bytes → Bytes) (nonempty : last.bytes ≠ [])
    (whole : last.Whole) : AnswersSame read first second last := by
  rw [answersSame_iff_record read nonempty]
  intro earlier other
  rw [record_eq_of_whole whole, record_eq_of_whole whole]
  exact ⟨rfl, rfl⟩

theorem answersSame_of_endsText (nonempty : last.bytes ≠ []) (short : ¬last.Whole)
    (ends : last.EndsText) : AnswersSame cstr first second last := by
  rw [answersSame_iff_record cstr nonempty]
  intro earlier other
  rcases @record_of_endsText (first.udpRun earlier) last short ends with ⟨type, string⟩
  rcases @record_of_endsText (second.udpRun other) last short ends with
    ⟨otherType, otherString⟩
  rw [type, otherType, string, otherString]
  exact ⟨rfl, rfl⟩

theorem not_answersSame (nonempty : last.bytes ≠ []) (short : ¬last.Whole) :
    ¬AnswersSame id first second last := by
  rw [answersSame_iff_record id nonempty]
  intro same
  have texts := (same [.recv (some (.filled 1))] [.recv (some (.filled 2))]).2
  rw [id_eq, id_eq] at texts
  exact leftover_ne short texts

theorem not_answersSame_string (nonempty : last.bytes ≠ []) (short : ¬last.Whole)
    (unended : ¬last.EndsText) : ¬AnswersSame cstr first second last := by
  rw [answersSame_iff_record cstr nonempty]
  intro same
  have texts := (same [.recv (some (.filled 1))] [.recv (some (.filled 2))]).2
  rw [cstr_of_nulFree (nulFree_leftover short unended (by decide)),
    cstr_of_nulFree (nulFree_leftover short unended (by decide))] at texts
  exact leftover_ne short texts

/-- What has been received before makes no difference when and only when the last datagram is
empty or fills the record; to the text as a string it makes none either when a zero ends that. -/
theorem answersSame_iff (first second : Pm) (last : Datagram) :
    (AnswersSame id first second last ↔ last.bytes = [] ∨ last.Whole) ∧
      (AnswersSame cstr first second last ↔
        last.bytes = [] ∨ last.Whole ∨ last.EndsText) := by
  by_cases empty : last.bytes = []
  · constructor
    · exact iff_of_true (answersSame_of_nil id empty) (Or.inl empty)
    · exact iff_of_true (answersSame_of_nil cstr empty) (Or.inl empty)
  · by_cases whole : last.Whole
    · constructor
      · exact iff_of_true (answersSame_of_whole id empty whole) (Or.inr whole)
      · exact iff_of_true (answersSame_of_whole cstr empty whole) (Or.inr (Or.inl whole))
    · constructor
      · exact iff_of_false (not_answersSame empty whole) (by simp [empty, whole])
      · by_cases ends : last.EndsText
        · exact iff_of_true (answersSame_of_endsText empty whole ends) (by simp [ends])
        · apply iff_of_false (not_answersSame_string empty whole ends)
          simp [empty, whole, ends]

/-- A datagram that ends with the time takes its text from the one before. -/
theorem answers_differ : ∃ pm,
    pmCreateUdp localhost (.asking 0 pmTypeServer) true true (ascii "127.0.0.1") 9090 =
        (true, pm) ∧
      ¬AnswersSame cstr pm pm ⟨⟨2, 1, 1⟩, encodeInt64 1 ++ encodeInt64 0⟩ := by
  refine ⟨_, rfl, ?_⟩
  apply not_answersSame_string
  · decide
  · rw [Datagram.Whole, List.length_append, length_encodeInt64, length_encodeInt64]
    decide
  · decide

end Pm

end Libhelp
