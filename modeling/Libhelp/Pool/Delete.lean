import Libhelp.Pool.Account

/-!
# Deleting a pool

The model of `pool_delete`, with the checks that C leaves out: a field is read only
while the chunk it lies in has not been freed, and only the start of a chunk that
has not been freed is freed.  The result is `none` when a check fails.

The loop over the large list frees chunks given out whole while it reads nodes that
lie in blocks; the loop over the chain frees a block after it has read the `next` of
that block and before it reads the next one.
-/

namespace Libhelp

/-- The memory while a pool is deleted, and the addresses freed so far. -/
structure Deletion where
  memory : Memory
  freed : List ℕ

namespace Deletion

/-- The fields that lie in a region may be read. -/
def Readable (d : Deletion) (region : Region) : Prop :=
  ∃ chunk ∈ d.memory.chunks, region.Inside chunk

instance (d : Deletion) (region : Region) : Decidable (d.Readable region) :=
  inferInstanceAs (Decidable (∃ chunk ∈ d.memory.chunks, _ ∧ _))

def free (d : Deletion) (p : ℕ) : Option Deletion :=
  if p ∈ d.memory.chunks.map Region.addr then
    some { memory := d.memory.free p, freed := d.freed ++ [p] }
  else
    none

end Deletion

namespace PoolBlock

def header (p : PoolBlock) : Region :=
  ⟨p.addr, sizeofPool⟩

end PoolBlock

/-- The loop of `pool_delete` over the large list. -/
def poolDeleteLarge : List PoolLarge → Deletion → Option Deletion
  | [], d => some d
  | l :: rest, d =>
      if d.Readable l.node then
        (if l.data = 0 then some d else d.free l.data).bind fun d =>
          if d.Readable l.node then poolDeleteLarge rest d else none
      else
        none

/-- The loop of `pool_delete` over the chain, at the block `p`. -/
def poolDeleteChain (p : PoolBlock) : List PoolBlock → Deletion → Option Deletion
  | [], d => d.free p.addr
  | n :: rest, d =>
      (d.free p.addr).bind fun d =>
        if d.Readable n.header then poolDeleteChain n rest d else none

def poolDelete (pool : Pool) : Option Deletion :=
  let d := { memory := pool.memory, freed := [] }
  if Deletion.Readable d pool.head.header then
    (poolDeleteLarge pool.large d).bind fun d =>
      if d.Readable pool.head.header then poolDeleteChain pool.head pool.tail d else none
  else
    none

section Delete

variable {d : Deletion} {chunk region : Region} {others : List Region}

namespace Deletion

/-- The chunks that have not been freed are those of a list, each at an address of its own. -/
structure Left (d : Deletion) (remaining : List Region) : Prop where
  chunks : d.memory.chunks.Perm remaining
  nodup : (remaining.map Region.addr).Nodup

theorem Left.readable (left : d.Left others) (isChunk : chunk ∈ others)
    (inside : region.Inside chunk) : d.Readable region :=
  ⟨chunk, left.chunks.mem_iff.mpr isChunk, inside⟩

/-- The start of a chunk that is left can be freed, which frees this chunk alone. -/
theorem Left.free (left : d.Left (chunk :: others)) :
    ∃ after, d.free chunk.addr = some after ∧ after.Left others ∧
      after.freed = d.freed ++ [chunk.addr] := by
  have isChunk : chunk.addr ∈ d.memory.chunks.map Region.addr :=
    List.mem_map_of_mem (left.chunks.mem_iff.mpr List.mem_cons_self)
  have nodup := left.nodup
  rw [List.map_cons, List.nodup_cons] at nodup
  refine ⟨_, if_pos isChunk, ⟨?_, nodup.2⟩, rfl⟩
  have single : d.memory.chunks.Pairwise fun first second =>
      decide (first.addr = chunk.addr) → decide (second.addr = chunk.addr) → False := by
    have apart := (left.chunks.map Region.addr).nodup_iff.mpr left.nodup
    apply (List.pairwise_map.mp apart).imp
    intro first second different
    simp only [decide_eq_true_eq]
    intro firstHere secondHere
    exact different (firstHere.trans secondHere.symm)
  have erased := left.chunks.eraseP (fun other => other.addr = chunk.addr) single
  rw [List.eraseP_cons_of_pos (by simp)] at erased
  exact erased

end Deletion

/-- The nodes of the large list outlive the chunks of their data. -/
theorem poolDeleteLarge_left {large : List PoolLarge} {whole blocks : List Region}
    (data : whole.map Region.addr = large.map PoolLarge.data)
    (nonNull : ∀ chunk ∈ whole, chunk.addr ≠ 0)
    (nodes : ∀ l ∈ large, ∃ chunk ∈ blocks, l.node.Inside chunk)
    (left : d.Left (whole ++ blocks)) :
    ∃ after, poolDeleteLarge large d = some after ∧ after.Left blocks ∧
      after.freed = d.freed ++ large.map PoolLarge.data := by
  induction large generalizing whole d with
  | nil =>
      have empty : whole = [] := List.map_eq_nil_iff.mp data
      subst empty
      exact ⟨d, rfl, left, (List.append_nil _).symm⟩
  | cons l rest ih =>
      rcases whole with _ | ⟨chunk, whole⟩
      · cases data
      rcases List.cons.inj data with ⟨here, data⟩
      rcases List.forall_mem_cons.mp nonNull with ⟨notNull, nonNull⟩
      rcases List.forall_mem_cons.mp nodes with ⟨⟨block, isBlock, inside⟩, nodes⟩
      rcases left.free with ⟨freed, frees, left', log⟩
      rcases ih data nonNull nodes left' with ⟨after, deletes, blocksLeft, log'⟩
      have before : d.Readable l.node :=
        left.readable (List.mem_append_right _ isBlock) inside
      have still : freed.Readable l.node :=
        left'.readable (List.mem_append_right _ isBlock) inside
      refine ⟨after, ?_, blocksLeft, ?_⟩
      · rw [poolDeleteLarge, if_pos before, ← here, if_neg notNull, frees, Option.bind_some,
          if_pos still]
        exact deletes
      · rw [log', log, List.map_cons, here, List.append_assoc, List.singleton_append]

/-- A block is freed when it has been read for the last time. -/
theorem poolDeleteChain_left {p : PoolBlock} {rest : List PoolBlock}
    (headers : ∀ q ∈ rest, q.header.Inside q.chunk)
    (left : d.Left ((p :: rest).map PoolBlock.chunk)) :
    ∃ after, poolDeleteChain p rest d = some after ∧ after.Left [] ∧
      after.freed = d.freed ++ (p :: rest).map PoolBlock.addr := by
  induction rest generalizing p d with
  | nil => exact left.free
  | cons n rest ih =>
      rcases List.forall_mem_cons.mp headers with ⟨inside, headers⟩
      rcases left.free with ⟨freed, frees, left', log⟩
      rcases ih headers left' with ⟨after, deletes, empty, log'⟩
      have still : freed.Readable n.header := left'.readable List.mem_cons_self inside
      have frees' : d.free p.addr = some freed := frees
      refine ⟨after, ?_, empty, ?_⟩
      · rw [poolDeleteChain, frees', Option.bind_some, if_pos still]
        exact deletes
      · rw [log', log, List.append_assoc]
        rfl

end Delete

namespace Pool

variable {blockSize : ℕ} {pool : Pool} {live : List Region}

theorem Holds.poolDelete (holds : pool.Holds blockSize live) (counted : pool.Counted blockSize 0)
    (enough : sizeofPool + sizeofPoolLarge ≤ blockSize) :
    ∃ deleted, poolDelete pool = some deleted ∧ deleted.Left [] ∧
      deleted.freed = pool.large.map PoolLarge.data ++ pool.chain.map PoolBlock.addr := by
  have nodes := (holds.accounted counted enough).nodes
  rcases holds with ⟨whole, data, invariant⟩
  have headers : ∀ p ∈ pool.chain, p.header.Inside p.chunk := by
    intro p isBlock
    have header : 0 < sizeofPool := by decide
    have endPtr := (invariant.fits (by omega) isBlock).endPtr
    refine ⟨le_rfl, ?_⟩
    show p.addr + sizeofPool ≤ p.addr + (p.endPtr - p.addr)
    omega
  have chunks : pool.memory.chunks.Perm (whole ++ pool.chain.map PoolBlock.chunk) := by
    have permuted := invariant.chunks.trans List.perm_append_comm
    rw [extents, List.map_map] at permuted
    exact permuted
  have nodup := (chunks.map Region.addr).nodup_iff.mp (counted.nodup enough invariant)
  have nonNull : ∀ chunk ∈ whole, chunk.addr ≠ 0 := by
    intro chunk isWhole
    exact counted.nonNull chunk (invariant.whole_mem isWhole)
  have inBlocks : ∀ l ∈ pool.large, ∃ chunk ∈ pool.chain.map PoolBlock.chunk,
      l.node.Inside chunk := by
    intro l isLarge
    rcases nodes l isLarge with ⟨p, isBlock, inside⟩
    exact ⟨p.chunk, List.mem_map_of_mem isBlock, inside⟩
  have left : Deletion.Left ⟨pool.memory, []⟩ (whole ++ pool.chain.map PoolBlock.chunk) :=
    ⟨chunks, nodup⟩
  have head : pool.head.header.Inside pool.head.chunk := headers _ List.mem_cons_self
  have isHead : pool.head.chunk ∈ pool.chain.map PoolBlock.chunk :=
    List.mem_map_of_mem List.mem_cons_self
  rcases poolDeleteLarge_left data nonNull inBlocks left with ⟨middle, large, blocksLeft, log⟩
  have tail : ∀ q ∈ pool.tail, q.header.Inside q.chunk :=
    fun q isBlock => headers q (List.mem_cons_of_mem _ isBlock)
  rcases poolDeleteChain_left tail blocksLeft with ⟨deleted, chain, nothing, log'⟩
  refine ⟨deleted, ?_, nothing, ?_⟩
  · unfold Libhelp.poolDelete
    rw [if_pos (left.readable (List.mem_append_right _ isHead) head)]
    rw [large, Option.bind_some, if_pos (blocksLeft.readable isHead head)]
    exact chain
  · rw [log', log]
    rfl

end Pool

namespace PoolClient

variable {answer : Malloc} {blockSize rmd : ℕ} {client : PoolClient}

/-- The chunks of a pool are its blocks and the data of its large list, their sizes add up to
its size, and deleting the pool frees each of them once. -/
theorem chunks_accounted (sound : answer.Sound) (multiple : alignment ∣ blockSize)
    (enough : sizeofPool + sizeofPoolLarge ≤ blockSize)
    (reachable : (system answer blockSize rmd).Reachable client) :
    client.pool.Accounted ∧ ∃ deleted, poolDelete client.pool = some deleted ∧
      deleted.freed.Perm (client.pool.memory.chunks.map Region.addr) ∧
        deleted.memory.chunks = [] := by
  rcases reachable_counted sound multiple enough reachable with ⟨holds, counted⟩
  have accounted := holds.accounted counted enough
  rcases holds.poolDelete counted enough with ⟨deleted, deletes, nothing, freed⟩
  refine ⟨accounted, deleted, deletes, ?_, nothing.chunks.eq_nil⟩
  rw [freed]
  exact List.perm_append_comm.trans accounted.chunks.symm

theorem chunks_accounted_large : ∃ client : PoolClient,
    client.pool.memory.chunks = [⟨144, 100⟩, ⟨16, 128⟩] ∧ client.pool.Accounted ∧
      ∃ deleted, poolDelete client.pool = some deleted ∧
        deleted.freed.Perm (client.pool.memory.chunks.map Region.addr) ∧
          deleted.memory.chunks = [] := by
  rcases reachable_large with ⟨client, reachable, -, chunks⟩
  exact ⟨client, chunks,
    chunks_accounted nextMalloc_sound (by decide) (by decide) reachable⟩

end PoolClient

end Libhelp
