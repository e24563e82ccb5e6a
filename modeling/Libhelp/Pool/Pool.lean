import Libhelp.Lib.Region
import Libhelp.Lib.Word

/-!
# The memory pool

The model of `pool_new`, `pool_alloc`, `pool_calloc`, `pool_cpy` and `pool_free`.
Addresses and sizes are natural numbers; the source's arithmetic on `size_t`,
`uintptr_t` and pointers is taken modulo `2 ^ 64`.  The fields of the pool's own
structures are kept apart from the bytes of memory, so a header that is written past a chunk
smaller than `sizeof(pool_t)` is not seen, and nor is a region behind the end of a block whose
size is not a multiple of `ALIGNMENT`: there the model tells which addresses are returned,
and whether a call returns.

A pool is its first block, the blocks that follow through `next`, the `cur` and the
`large` of the first block, and the memory.  A pointer to a block is the position
of the block in the chain, and the position after the last block is `NULL`.
-/

namespace Libhelp

/-- `ALIGNMENT` -/
def alignment : ℕ := 8

/-- `POOL_ALLOC_MAX` -/
def poolAllocMax : ℕ := 4095

/-- `sizeof(pool_t)` -/
def sizeofPool : ℕ := 56

/-- `sizeof(pool_large_t)` -/
def sizeofPoolLarge : ℕ := 16

/-- `align_ptr`.  Clearing the bits of `ALIGNMENT - 1` rounds down to a multiple of
`ALIGNMENT`. -/
def alignPtr (p : ℕ) : ℕ :=
  add64 p (alignment - 1) / alignment * alignment

/-- The chunks that have been obtained and not freed, the number of calls of `malloc`, and
the contents. -/
structure Memory where
  chunks : List Region
  calls : ℕ
  bytes : ℕ → UInt8

/-- What `malloc` answers to a call, by the number of the call, the chunks and the size. -/
abbrev Malloc := ℕ → List Region → ℕ → Option ℕ

/-- Chunks are aligned, lie in the address space and are fresh. -/
structure Malloc.Sound (malloc : Malloc) : Prop where
  nonNull : ∀ {calls chunks size p}, malloc calls chunks size = some p → p ≠ 0
  aligned : ∀ {calls chunks size p}, malloc calls chunks size = some p → 16 ∣ p
  bounded : ∀ {calls chunks size p}, malloc calls chunks size = some p → p + size < 2 ^ 64
  fresh : ∀ {calls chunks size p}, malloc calls chunks size = some p →
    ∀ chunk ∈ chunks, Region.Apart ⟨p, size⟩ chunk

namespace Memory

def malloc (answer : Malloc) (memory : Memory) (size : ℕ) : Option ℕ × Memory :=
  match answer memory.calls memory.chunks size with
  | none => (none, { memory with calls := memory.calls + 1 })
  | some p =>
      (some p, { memory with chunks := ⟨p, size⟩ :: memory.chunks, calls := memory.calls + 1 })

def free (memory : Memory) (p : ℕ) : Memory :=
  { memory with chunks := memory.chunks.eraseP fun chunk => chunk.addr = p }

def memset (memory : Memory) (p : ℕ) (value : UInt8) (size : ℕ) : Memory :=
  { memory with
    bytes := fun address =>
      if p ≤ address ∧ address < p + size then value else memory.bytes address }

def memcpy (memory : Memory) (destination source size : ℕ) : Memory :=
  { memory with
    bytes := fun address =>
      if destination ≤ address ∧ address < destination + size then
        memory.bytes (source + (address - destination))
      else
        memory.bytes address }

end Memory

/-- The fields of a `pool_t` that every block uses. -/
structure PoolBlock where
  addr : ℕ
  rmd : ℕ
  size : ℕ
  last : ℕ
  endPtr : ℕ

/-- A `pool_large_t` and its address. -/
structure PoolLarge where
  addr : ℕ
  data : ℕ

structure Pool where
  head : PoolBlock
  tail : List PoolBlock
  cur : ℕ
  large : List PoolLarge
  memory : Memory

def poolNewBlock (answer : Malloc) (memory : Memory) (size rmd : ℕ) :
    Option PoolBlock × Memory :=
  match memory.malloc answer size with
  | (none, memory) => (none, memory)
  | (some pool, memory) =>
      (some {
        addr := pool
        rmd := if rmd < alignment then alignment else rmd
        size := size
        last := add64 pool sizeofPool
        endPtr := add64 pool size }, memory)

/-- `pool_new`.  A `size_t` is never negative. -/
def poolNew (answer : Malloc) (memory : Memory) (size rmd : ℕ) : Option Pool × Memory :=
  match poolNewBlock answer memory size rmd with
  | (none, memory) => (none, memory)
  | (some head, memory) =>
      (some { head := head, tail := [], cur := 0, large := [], memory := memory }, memory)

namespace Pool

def chain (pool : Pool) : List PoolBlock :=
  pool.head :: pool.tail

/-- `p->last = last` for the block at a position. -/
def setLast (pool : Pool) (last : ℕ) : ℕ → Pool
  | 0 => { pool with head := { pool.head with last := last } }
  | i + 1 => { pool with tail := pool.tail.modify i fun p => { p with last := last } }

end Pool

/-- How the walk of `pool_alloc` along the chain ends. -/
inductive PoolWalk where
  /-- The block `p` has room from `m` on. -/
  | room (p m cur : ℕ)
  /-- No block has room; `p` is the last block. -/
  | full (p : PoolBlock) (c cur : ℕ)

/-- The loop of `pool_alloc`, at the block `p` at position `i` of the chain. -/
def poolWalk (size : ℕ) (p : PoolBlock) : List PoolBlock → ℕ → ℕ → ℕ → PoolWalk
  | [], i, c, cur =>
      let m := alignPtr p.last
      if sub64 p.endPtr m ≥ size then
        .room i m cur
      else
        .full p (if sub64 p.endPtr m < p.rmd then i + 1 else c) cur
  | next :: rest, i, c, cur =>
      let m := alignPtr p.last
      if sub64 p.endPtr m ≥ size then
        .room i m cur
      else
        let c := if sub64 p.endPtr m < p.rmd then i + 1 else c
        poolWalk size next rest (i + 1) c c

/-- `pool_alloc` for a size that is served from a block. -/
def poolAllocBlock (answer : Malloc) (pool : Pool) (size : ℕ) : Option ℕ × Pool :=
  match pool.chain.drop pool.cur with
  | [] => (none, pool)
  | p :: rest =>
      match poolWalk size p rest pool.cur pool.cur pool.cur with
      | .room i m cur => (some m, { pool.setLast (add64 m size) i with cur := cur })
      | .full p c cur =>
          match poolNewBlock answer pool.memory (sub64 p.endPtr p.addr) p.rmd with
          | (none, memory) => (none, { pool with cur := cur, memory := memory })
          | (some n, memory) =>
              let m := alignPtr n.last
              (some m, { pool with
                head := { pool.head with size := add64 pool.head.size n.size }
                tail := pool.tail ++ [{ n with last := add64 m size }]
                cur := if c < pool.chain.length then c else pool.chain.length
                memory := memory })

/-- The test of `pool_alloc` for a size that is served from a block. -/
def Pool.Small (pool : Pool) (size : ℕ) : Prop :=
  size ≤ poolAllocMax ∧
    size ≤ sub64 (sub64 pool.head.endPtr pool.head.addr) (alignPtr sizeofPool)

instance (pool : Pool) (size : ℕ) : Decidable (pool.Small size) :=
  inferInstanceAs (Decidable (_ ∧ _))

/-- The end of `pool_alloc` for the chunk `m`, after the `pool_alloc` for the node. -/
def poolLink (m size : ℕ) : Option ℕ × Pool → Option ℕ × Pool
  | (none, pool) => (none, { pool with memory := pool.memory.free m })
  | (some l, pool) =>
      (some m, { pool with
        head := { pool.head with size := add64 pool.head.size size }
        large := { addr := l, data := m } :: pool.large })

/-- `pool_alloc`, down to a depth of the recursion. -/
def poolAlloc (answer : Malloc) : ℕ → Pool → ℕ → Option (Option ℕ × Pool)
  | 0, _, _ => none
  | depth + 1, pool, size =>
      if pool.Small size then
        some (poolAllocBlock answer pool size)
      else
        match pool.memory.malloc answer size with
        | (none, memory) => some (none, { pool with memory := memory })
        | (some m, memory) =>
            (poolAlloc answer depth { pool with memory := memory } sizeofPoolLarge).map
              (poolLink m size)

def poolCalloc (answer : Malloc) (depth : ℕ) (pool : Pool) (size : ℕ) :
    Option (Option ℕ × Pool) :=
  (poolAlloc answer depth pool size).map fun
    | (none, pool) => (none, pool)
    | (some p, pool) => (some p, { pool with memory := pool.memory.memset p 0 size })

def poolCpy (answer : Malloc) (depth : ℕ) (pool : Pool) (p size : ℕ) :
    Option (Option ℕ × Pool) :=
  (poolAlloc answer depth pool size).map fun
    | (none, pool) => (none, pool)
    | (some ret, pool) => (some ret, { pool with memory := pool.memory.memcpy ret p size })

def poolFree (pool : Pool) (p size : ℕ) : Pool :=
  match pool.chain[pool.cur]? with
  | none => pool
  | some cur => if cur.last = add64 p size then pool.setLast p pool.cur else pool

end Libhelp
