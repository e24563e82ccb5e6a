import Libhelp.Lib.CString
import Libhelp.Lib.Region
import Mathlib.Data.List.GetD

/-!
# C strings in memory

Memory is its bytes from the address 0 on, with a record of the regions that have
been written.  A string stays where it is as long as what is written is apart from
it and from the byte that ends it.
-/

/-- The bytes of memory, and the regions that have been written, the last one first. -/
structure ByteMemory where
  bytes : Bytes
  writes : List Region

namespace ByteMemory

open CString

/-- The bytes of a region, given by their offsets.  What lies outside memory is lost. -/
def write (memory : ByteMemory) (region : Region) (byte : ℕ → UInt8) : ByteMemory where
  bytes := memory.bytes.mapIdx fun address old =>
    if region.Holds address then byte (address - region.addr) else old
  writes := region :: memory.writes

/-- `memcpy` from a buffer. -/
def memcpy (memory : ByteMemory) (dst : ℕ) (src : Bytes) (size : ℕ) : ByteMemory :=
  memory.write ⟨dst, size⟩ (byteAt src)

def memset (memory : ByteMemory) (dst : ℕ) (byte : UInt8) (size : ℕ) : ByteMemory :=
  memory.write ⟨dst, size⟩ fun _ => byte

/-- The buffer that starts at an address. -/
def bufferAt (memory : ByteMemory) (addr : ℕ) : Bytes :=
  memory.bytes.drop addr

/-- The C string at an address. -/
def stringAt (memory : ByteMemory) (addr : ℕ) : Bytes :=
  cstr (memory.bufferAt addr)

/-- A string and the byte that ends it lie at an address. -/
structure StringAt (memory : ByteMemory) (addr : ℕ) (string : Bytes) : Prop where
  free : NulFree string
  inside : addr + string.length < memory.bytes.length
  bytes : ∀ i ≤ string.length, byteAt memory.bytes (addr + i) = byteAt string i

/-- The region of a string and the byte that ends it. -/
def stringRegion (addr : ℕ) (string : Bytes) : Region :=
  ⟨addr, string.length + 1⟩

/-- What has been written to get from one memory to another lies in a region. -/
structure WritesIn (memory : ByteMemory) (region : Region) (after : ByteMemory) : Prop where
  writes : ∃ new, after.writes = new ++ memory.writes ∧ ∀ written ∈ new, written.Inside region
  length : after.bytes.length = memory.bytes.length
  bytes : ∀ address, ¬region.Holds address →
    byteAt after.bytes address = byteAt memory.bytes address

variable {memory after : ByteMemory} {addr : ℕ} {string : Bytes} {region : Region}
  {byte : ℕ → UInt8}

section Write

@[simp]
theorem length_write : (memory.write region byte).bytes.length = memory.bytes.length :=
  List.length_mapIdx

theorem byteAt_write_of_holds {address : ℕ} (holds : region.Holds address)
    (inside : address < memory.bytes.length) :
    byteAt (memory.write region byte).bytes address = byte (address - region.addr) := by
  simp [byteAt, write, inside, holds]

theorem byteAt_write_of_not_holds {address : ℕ} (outside : ¬region.Holds address) :
    byteAt (memory.write region byte).bytes address = byteAt memory.bytes address := by
  rcases Nat.lt_or_ge address memory.bytes.length with inside | beyond
  · simp [byteAt, write, inside, outside]
  · simp [byteAt, write, beyond]

theorem writesIn_refl (memory : ByteMemory) (region : Region) : memory.WritesIn region memory :=
  ⟨⟨[], rfl, by simp⟩, rfl, fun _ _ => rfl⟩

theorem WritesIn.trans {last : ByteMemory} (first : memory.WritesIn region after)
    (second : after.WritesIn region last) : memory.WritesIn region last := by
  rcases first.writes with ⟨early, earlyWrites, earlyInside⟩
  rcases second.writes with ⟨late, lateWrites, lateInside⟩
  refine ⟨⟨late ++ early, ?_, ?_⟩, ?_, ?_⟩
  · rw [lateWrites, earlyWrites, List.append_assoc]
  · exact List.forall_mem_append.mpr ⟨lateInside, earlyInside⟩
  · exact second.length.trans first.length
  · intro address outside
    exact (second.bytes address outside).trans (first.bytes address outside)

theorem writesIn_write {outer : Region} (inside : region.Inside outer) :
    memory.WritesIn outer (memory.write region byte) := by
  refine ⟨⟨[region], rfl, ?_⟩, length_write, ?_⟩
  · intro written isWritten
    rw [List.mem_singleton.mp isWritten]
    exact inside
  · intro address outside
    apply byteAt_write_of_not_holds
    intro holds
    exact outside ⟨inside.1.trans holds.1, lt_of_lt_of_le holds.2 inside.2⟩

end Write

section Strings

/-- The buffer at an address starts with a string and the byte that ends it. -/
theorem stringAt_iff : memory.StringAt addr string ↔
    NulFree string ∧ ∃ rest, memory.bufferAt addr = string ++ nul :: rest := by
  constructor
  · intro isString
    have inside := isString.inside
    refine ⟨isString.free, memory.bytes.drop (addr + (string.length + 1)), ?_⟩
    have isStart : (memory.bufferAt addr).take (string.length + 1) = string ++ [nul] := by
      apply List.ext_getElem
      · simp only [bufferAt, List.length_take, List.length_drop, List.length_append,
          List.length_singleton]
        omega
      · intro i isIndex inString
        rw [List.length_append, List.length_singleton] at inString
        have same := isString.bytes i (by omega)
        simp only [bufferAt, List.getElem_take, List.getElem_drop]
        rw [byteAt, List.getD_eq_getElem _ _ (by omega)] at same
        rw [same]
        rcases Nat.lt_or_ge i string.length with here | ends
        · rw [List.getElem_append_left here]
          exact List.getD_eq_getElem _ _ here
        · rw [List.getElem_append_right ends, List.getElem_singleton]
          exact List.getD_eq_default _ _ ends
    have split := List.take_append_drop (string.length + 1) (memory.bufferAt addr)
    rw [isStart, List.append_assoc] at split
    rw [← split, bufferAt, List.drop_drop]
    rfl
  · intro isString
    rcases isString with ⟨free, rest, split⟩
    have length := congrArg List.length split
    simp only [bufferAt, List.length_drop, List.length_append, List.length_cons] at length
    refine ⟨free, by omega, ?_⟩
    intro i inString
    have byte : byteAt memory.bytes (addr + i) = byteAt (memory.bufferAt addr) i := by
      simp [byteAt, bufferAt]
    rw [byte, split]
    rcases Nat.lt_or_eq_of_le inString with here | ends
    · exact byteAt_append_of_lt here
    · rw [ends, byteAt_append]
      exact (List.getD_eq_default _ _ le_rfl).symm

theorem StringAt.stringAt_eq (isString : memory.StringAt addr string) :
    memory.stringAt addr = string := by
  rcases stringAt_iff.mp isString with ⟨free, rest, split⟩
  rw [stringAt, split]
  exact cstr_append_nul free

theorem stringAt_of_terminated (ended : Terminated memory.bytes addr) :
    memory.StringAt addr (memory.stringAt addr) := by
  exact stringAt_iff.mpr ⟨nulFree_cstr _, exists_cstr_append ended.mem_drop⟩

/-- A string stays when what is written is apart from it. -/
theorem WritesIn.stringAt (writes : memory.WritesIn region after)
    (isString : memory.StringAt addr string)
    (apart : (stringRegion addr string).Apart region) : after.StringAt addr string := by
  refine ⟨isString.free, ?_, ?_⟩
  · rw [writes.length]
    exact isString.inside
  · intro i inString
    rw [writes.bytes]
    · exact isString.bytes i inString
    · apply apart
      simp only [stringRegion, Region.Holds, Region.stop]
      omega

theorem StringAt.memcpy {source : ℕ} (isString : memory.StringAt source string)
    (inside : addr + string.length < memory.bytes.length) :
    (memory.memcpy addr (memory.bufferAt source) (string.length + 1)).StringAt addr string := by
  refine ⟨isString.free, ?_, ?_⟩
  · rw [ByteMemory.memcpy, length_write]
    exact inside
  · intro i inString
    rw [ByteMemory.memcpy, byteAt_write_of_holds]
    · rw [Nat.add_sub_cancel_left, ← isString.bytes i inString]
      simp [byteAt, bufferAt]
    · simp only [Region.Holds, Region.stop]
      omega
    · omega

end Strings

end ByteMemory
