import Libhelp.Lib.Record

/-!
# Messages between processes

The record that `pm_send` hands to a transport and that `pm_recv` reads, in the LP64
layout: `type` at offset 0, `time_send` at 8, `text` at 16.  Both transports fill it in
the same way, with `strncpy` into a text of zeros.
-/

namespace Libhelp

open CString Record

/-- `PM_MESSAGE_SIZE` -/
def pmMessageSize : ℕ := 10000

/-- `sizeof(long)` and `sizeof(time_t)` -/
def sizeofLong : ℕ := 8

/-- `sizeof(proc_msg_s)` -/
def sizeofProcMsg : ℕ := sizeofLong + sizeofLong + pmMessageSize

/-- `proc_msg_s` -/
structure ProcMsg where
  bytes : Bytes
  sized : bytes.length = sizeofProcMsg

namespace ProcMsg

def type (m : ProcMsg) : Int64 :=
  decodeInt64 (m.bytes.take sizeofLong)

def timeSend (m : ProcMsg) : Int64 :=
  decodeInt64 ((m.bytes.drop sizeofLong).take sizeofLong)

def text (m : ProcMsg) : Bytes :=
  m.bytes.drop (sizeofLong + sizeofLong)

/-- What arrives is stored from the first byte on. -/
def receive (m : ProcMsg) (arrived : Bytes) : ProcMsg where
  bytes := overwrite m.bytes arrived
  sized := (length_overwrite _ _).trans m.sized

theorem fields {m : ProcMsg} {type timeSend : Int64} {text : Bytes}
    (bytes : m.bytes = encodeInt64 type ++ (encodeInt64 timeSend ++ text)) :
    m.type = type ∧ m.timeSend = timeSend ∧ m.text = text := by
  have first : (encodeInt64 type).length = sizeofLong := length_encodeInt64 type
  have second : (encodeInt64 timeSend).length = sizeofLong := length_encodeInt64 timeSend
  refine ⟨?_, ?_, ?_⟩
  · rw [ProcMsg.type, bytes, List.take_left' first, decodeInt64_encodeInt64]
  · rw [ProcMsg.timeSend, bytes, List.drop_left' first, List.take_left' second,
      decodeInt64_encodeInt64]
  · rw [ProcMsg.text, bytes, ← List.drop_drop, List.drop_left' first, List.drop_left' second]

theorem bytes_receive {m : ProcMsg} {arrived : Bytes} (fits : arrived.length ≤ sizeofProcMsg) :
    (m.receive arrived).bytes = arrived ++ m.bytes.drop arrived.length :=
  overwrite_eq (m.sized ▸ fits)

end ProcMsg

/-- What `strncpy` writes: the string, and zeros up to the size. -/
def strncpy (source : Bytes) (size : ℕ) : Bytes :=
  let copied := (cstr source).take size
  copied ++ List.replicate (size - copied.length) nul

/-- An `int` passed as a `size_t`. -/
def sizeT (n : Int32) : ℕ :=
  (n.toInt % 2 ^ 64).toNat

/-- The size that is passed to `strncpy`. -/
def pmCopySize (msgSize : Int32) : ℕ :=
  if msgSize ≤ 10000 then sizeT msgSize else pmMessageSize

/-- The `text` of zeros after `strncpy`, which has what `strncpy` writes into it. -/
def pmText (msg : Bytes) (msgSize : Int32) : Bytes :=
  overwrite (List.replicate pmMessageSize nul) (strncpy msg (pmCopySize msgSize))

/-- The `_pmsg` of `pm_send_queue` and `pm_send_udp`. -/
def pmFill (type : Int64) (msg : Bytes) (msgSize : Int32) (time : Int64) : ProcMsg where
  bytes := encodeInt64 type ++ (encodeInt64 time ++ pmText msg msgSize)
  sized := by
    rw [List.length_append, List.length_append, length_encodeInt64, length_encodeInt64, pmText,
      length_overwrite, List.length_replicate]
    rfl

/-- `struct sockaddr_in`, with the port in network byte order. -/
structure SockAddr where
  family : UInt16
  port : UInt16
  addr : UInt32
  deriving DecidableEq

/-- `PM_TYPE_SERVER` -/
def pmTypeServer : Int32 := 0x0010

/-- `PM_TYPE_CLIENT` -/
def pmTypeClient : Int32 := 0x0011

/-- The fields of a `pm` that its transports use. -/
structure Pm where
  commType : Bytes
  pmsg : ProcMsg
  msgtypeGet : Int64
  type : Int32
  serverIsa : SockAddr
  clientIsa : SockAddr

/-- A `pm` in memory of zeros that asks for messages of a type. -/
def Pm.asking (msgtyp : Int64) (type : Int32) : Pm :=
  ⟨[], ⟨List.replicate sizeofProcMsg nul, List.length_replicate⟩, msgtyp, type, ⟨0, 0, 0⟩,
    ⟨0, 0, 0⟩⟩

/-- A message as `pm_recv` returns it: `*msg_type`, `*msg_size` and the text. -/
structure PmMessage where
  type : Int32
  size : Int32
  text : Bytes

/-- The message that has been received into `pmsg`, from `ret` bytes. -/
def Pm.message (pm : Pm) (ret : ℕ) : PmMessage where
  type := pm.pmsg.type.toInt32
  size := Int32.ofNat ret
  text := pm.pmsg.text

section Fill

variable {msg : Bytes} {msgSize : Int32} {n : ℕ}

theorem length_pmText : (pmText msg msgSize).length = pmMessageSize := by
  rw [pmText, length_overwrite, List.length_replicate]

theorem pmCopySize_eq (sized : msgSize.toInt = n) (fits : n ≤ pmMessageSize) :
    pmCopySize msgSize = n := by
  have bound : n ≤ 10000 := fits
  have small : msgSize ≤ 10000 := by
    rw [Int32.le_iff_toInt_le, sized]
    show (n : ℤ) ≤ 10000
    exact_mod_cast bound
  rw [pmCopySize, if_pos small, sizeT, sized]
  omega

theorem length_strncpy (source : Bytes) (size : ℕ) : (strncpy source size).length = size := by
  have bound : ((cstr source).take size).length ≤ size := List.length_take_le _ _
  rw [strncpy, List.length_append, List.length_replicate]
  omega

/-- The text is what the string has within the size, followed by zeros. -/
theorem pmText_eq (sized : msgSize.toInt = n) (fits : n ≤ pmMessageSize) :
    pmText msg msgSize = (cstr msg).take n ++
      List.replicate (pmMessageSize - ((cstr msg).take n).length) nul := by
  have bound : ((cstr msg).take n).length ≤ n := List.length_take_le _ _
  rw [pmText, pmCopySize_eq sized fits, overwrite_eq, length_strncpy, strncpy, List.drop_replicate,
    List.append_assoc, List.replicate_append_replicate]
  · congr 2
    omega
  · rw [length_strncpy, List.length_replicate]
    exact fits

end Fill

end Libhelp
