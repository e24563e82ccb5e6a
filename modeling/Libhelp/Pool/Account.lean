import Libhelp.Pool.Regions

/-!
# The size of a pool

`pool->size` is the sum of the sizes of the chunks.  The chunk of a large
allocation is obtained before its node is: until the node has been linked in, the
sum is ahead of `pool->size` by the size of that chunk.

A block serves small sizes.  So a chunk is a block, or it is too large for one, and
the node of a chunk given out whole always lies in a block.
-/

namespace Libhelp

namespace Pool

/-- `pool->size` and what it is still to be raised by are the sum of the sizes of the chunks,
none of which a block could have served. -/
structure Counted (blockSize owed : ℕ) (pool : Pool) : Prop where
  total : (pool.memory.chunks.map Region.size).sum = pool.head.size + owed
  nonNull : ∀ chunk ∈ pool.memory.chunks, chunk.addr ≠ 0
  oversize : ∀ chunk ∈ pool.memory.chunks,
    ¬(chunk.size ≤ poolAllocMax ∧ sizeofPool + chunk.size ≤ blockSize)

variable {answer : Malloc} {blockSize size rmd depth owed : ℕ} {pool after : Pool}
  {live whole used : List Region} {result : Option ℕ}

@[simp]
theorem setLast_head_size (pool : Pool) (last i : ℕ) :
    (pool.setLast last i).head.size = pool.head.size := by
  cases i <;> rfl

theorem Counted.congr (counted : pool.Counted blockSize owed)
    (size : after.head.size = pool.head.size)
    (chunks : after.memory.chunks = pool.memory.chunks) : after.Counted blockSize owed := by
  constructor
  case total =>
    rw [chunks, size]
    exact counted.total
  case nonNull =>
    rw [chunks]
    exact counted.nonNull
  case oversize =>
    rw [chunks]
    exact counted.oversize

/-- One more chunk, which no block could have served. -/
theorem Counted.cons {m n raised : ℕ} (counted : pool.Counted blockSize owed) (nonNull : m ≠ 0)
    (oversize : ¬(n ≤ poolAllocMax ∧ sizeofPool + n ≤ blockSize))
    (chunks : after.memory.chunks = ⟨m, n⟩ :: pool.memory.chunks)
    (total : n + (pool.head.size + owed) = after.head.size + raised) :
    after.Counted blockSize raised := by
  constructor
  case total =>
    rw [chunks, List.map_cons, List.sum_cons, counted.total]
    exact total
  case nonNull =>
    rw [chunks]
    exact List.forall_mem_cons.mpr ⟨nonNull, counted.nonNull⟩
  case oversize =>
    rw [chunks]
    exact List.forall_mem_cons.mpr ⟨oversize, counted.oversize⟩

namespace Invariant

theorem separate (invariant : pool.Invariant blockSize whole used) :
    pool.memory.chunks.Pairwise Region.Apart :=
  (invariant.chunks.pairwise_iff Region.Apart.symm).mpr invariant.valid.separate

theorem total_lt (invariant : pool.Invariant blockSize whole used) :
    (pool.memory.chunks.map Region.size).sum < 2 ^ 64 := by
  have bounded : ∀ chunk ∈ pool.memory.chunks, chunk.stop ≤ 2 ^ 64 - 1 := by
    intro chunk isChunk
    have stop := (invariant.obtained chunk isChunk).2
    omega
  have total := Region.sum_size_le invariant.separate bounded
  omega

end Invariant

section Steps

variable (sound : answer.Sound) (multiple : alignment ∣ blockSize)

include sound multiple

theorem Counted.blockAlloc (counted : pool.Counted blockSize owed)
    (invariant : pool.Invariant blockSize whole used) (small : sizeofPool + size ≤ blockSize)
    (alloc : BlockAlloc answer pool size result after) : after.Counted blockSize owed := by
  have total := (invariant.blockAlloc sound multiple small alloc).1.total_lt
  have header : 0 < sizeofPool := by decide
  cases alloc with
  | room before rest p cur split room curLe =>
      apply counted.congr
      · exact setLast_head_size _ _ _
      · exact congrArg Memory.chunks (setLast_memory _ _ _)
  | noMemory before p cur memory split curLe failed =>
      exact counted.congr rfl (poolNewBlock_none failed)
  | added before p n cur memory split curLe created =>
      have last := invariant.fits (by omega) (mem_of_split split)
      rw [sub64_eq (by rw [last.endPtr]; omega) last.bounded, last.endPtr,
        Nat.add_sub_cancel_left] at created
      rcases poolNewBlock_some created with ⟨answered, chunks, -, -, sized, -⟩
      have raised : (memory.chunks.map Region.size).sum =
          blockSize + (pool.head.size + owed) := by
        rw [chunks, List.map_cons, List.sum_cons, counted.total]
      have bound : (memory.chunks.map Region.size).sum < 2 ^ 64 := total
      apply counted.cons (sound.nonNull answered) _ chunks
      · show _ = add64 pool.head.size n.size + owed
        rw [sized, add64_eq (by omega)]
        omega
      · intro served
        have fits := served.2
        omega

omit multiple in
theorem Counted.adopt (counted : pool.Counted blockSize 0)
    (oversize : ¬(size ≤ poolAllocMax ∧ sizeofPool + size ≤ blockSize)) {m : ℕ} {memory : Memory}
    (obtained : pool.memory.malloc answer size = (some m, memory)) :
    Counted blockSize size { pool with memory := memory } := by
  rcases malloc_some obtained with ⟨answered, chunks⟩
  exact counted.cons (sound.nonNull answered) oversize chunks (Nat.add_comm _ _)

variable (enough : sizeofPool + sizeofPoolLarge ≤ blockSize)

include enough

theorem Counted.poolAlloc (counted : pool.Counted blockSize 0) (holds : pool.Holds blockSize live)
    (returns : poolAlloc answer depth pool size = some (result, after)) :
    after.Counted blockSize 0 := by
  rcases holds with ⟨whole, -, invariant⟩
  by_cases small : pool.Small size
  · have alloc := poolAllocBlock_cases answer size invariant.cur_lt_chain
    have served := poolAlloc_succ returns
    rw [poolAlloc_small depth small] at served
    rw [Option.some.inj served] at alloc
    rw [invariant.small_iff (by omega)] at small
    exact counted.blockAlloc sound multiple invariant small.2 alloc
  · have nodeSmall : pool.Small sizeofPoolLarge :=
      (invariant.small_iff (by omega)).mpr ⟨by decide, enough⟩
    have oversize := small
    rw [invariant.small_iff (by omega)] at oversize
    cases Alloc.of_poolAlloc invariant.cur_lt_chain nodeSmall returns with
    | block served alloc => exact absurd served small
    | noMemory memory failed => exact counted.congr rfl (malloc_none failed)
    | noNode m memory nested obtained alloc =>
        cases alloc with
        | noMemory before p cur memory' split curLe failed =>
            apply counted.congr
            · rfl
            · show memory'.chunks.eraseP (fun chunk => chunk.addr = m) = _
              rw [poolNewBlock_none failed, (malloc_some obtained).2]
              simp
    | large m l memory nested obtained alloc =>
        have adopted := invariant.adopt sound obtained
        have linked := (adopted.blockAlloc sound multiple enough alloc).1
        have owing := (counted.adopt sound oversize obtained).blockAlloc sound multiple adopted
          enough alloc
        have total := owing.total
        have bound := linked.total_lt
        constructor
        case total =>
          show (nested.memory.chunks.map Region.size).sum = add64 nested.head.size size + 0
          rw [add64_eq (by omega)]
          exact total
        case nonNull => exact owing.nonNull
        case oversize => exact owing.oversize

end Steps

theorem Counted.free {p size : ℕ} (counted : pool.Counted blockSize owed) :
    (poolFree pool p size).Counted blockSize owed := by
  unfold poolFree
  split
  · exact counted
  · split
    · apply counted.congr
      · exact setLast_head_size _ _ _
      · exact congrArg Memory.chunks (setLast_memory _ _ _)
    · exact counted

theorem Counted.written (counted : pool.Counted blockSize owed) (written : pool.Written after) :
    after.Counted blockSize owed := by
  rcases written with ⟨memory, rfl, chunks⟩
  exact counted.congr rfl chunks

theorem poolNew_counted {memory after : Memory} (sound : answer.Sound)
    (empty : memory.chunks = [])
    (created : poolNew answer memory blockSize rmd = (some pool, after)) :
    pool.Counted blockSize 0 := by
  rcases poolNew_some created with ⟨head, createdBlock, rfl⟩
  rcases poolNewBlock_some createdBlock with ⟨answered, chunks, -, -, sized, -⟩
  have header : 0 < sizeofPool := by decide
  rw [empty] at chunks
  constructor
  case total =>
    show (after.chunks.map Region.size).sum = head.size + 0
    rw [chunks, sized]
    rfl
  case nonNull =>
    show ∀ chunk ∈ after.chunks, chunk.addr ≠ 0
    rw [chunks, List.forall_mem_singleton]
    exact sound.nonNull answered
  case oversize =>
    show ∀ chunk ∈ after.chunks, _
    rw [chunks, List.forall_mem_singleton]
    intro served
    have fits := served.2
    dsimp only at fits
    omega

/-- The chunks of a pool are its blocks and the data of its large list, each once. -/
structure Accounted (pool : Pool) : Prop where
  chunks : (pool.memory.chunks.map Region.addr).Perm
    (pool.chain.map PoolBlock.addr ++ pool.large.map PoolLarge.data)
  nodup : (pool.memory.chunks.map Region.addr).Nodup
  blocks : ∀ p ∈ pool.chain, p.chunk ∈ pool.memory.chunks
  cur : pool.cur < pool.chain.length
  size : pool.head.size = (pool.memory.chunks.map Region.size).sum
  nodes : ∀ l ∈ pool.large, ∃ p ∈ pool.chain, l.node.Inside p.chunk

theorem Counted.nonempty (counted : pool.Counted blockSize owed)
    (enough : sizeofPool + sizeofPoolLarge ≤ blockSize) {chunk : Region}
    (isChunk : chunk ∈ pool.memory.chunks) : chunk.size ≠ 0 := by
  intro empty
  have oversize := counted.oversize chunk isChunk
  rw [empty] at oversize
  exact oversize ⟨Nat.zero_le _, by omega⟩

theorem Counted.nodup (counted : pool.Counted blockSize owed)
    (enough : sizeofPool + sizeofPoolLarge ≤ blockSize)
    (invariant : pool.Invariant blockSize whole used) :
    (pool.memory.chunks.map Region.addr).Nodup := by
  apply List.pairwise_map.mpr
  apply invariant.separate.imp_of_mem
  intro chunk other isChunk isOther apart
  exact apart.addr_ne (counted.nonempty enough isChunk) (counted.nonempty enough isOther)

/-- A node is no chunk, since a block serves its size. -/
theorem Counted.node_inside (counted : pool.Counted blockSize owed)
    (enough : sizeofPool + sizeofPoolLarge ≤ blockSize)
    (invariant : pool.Invariant blockSize whole used)
    (data : whole.map Region.addr = pool.large.map PoolLarge.data) {l : PoolLarge}
    (isUsed : l.node ∈ used) : ∃ p ∈ pool.chain, l.node.Inside p.chunk := by
  have header : 0 < sizeofPool := by decide
  rcases invariant.placed (by omega) data isUsed with inBlock | isWhole
  · rcases inBlock with ⟨p, isBlock, -, first, stop⟩
    have endPtr := (invariant.fits (by omega) isBlock).endPtr
    refine ⟨p, isBlock, ?_, ?_⟩
    · show p.addr ≤ l.node.addr
      omega
    · show l.node.stop ≤ p.addr + (p.endPtr - p.addr)
      omega
  · have serves : sizeofPoolLarge ≤ poolAllocMax := by decide
    exact absurd ⟨serves, enough⟩ (counted.oversize l.node isWhole.2.1)

theorem Holds.accounted (holds : pool.Holds blockSize live) (counted : pool.Counted blockSize 0)
    (enough : sizeofPool + sizeofPoolLarge ≤ blockSize) : pool.Accounted := by
  rcases holds with ⟨whole, data, invariant⟩
  constructor
  case chunks =>
    have permuted := invariant.chunks.map Region.addr
    rw [List.map_append, data, extents, List.map_map, List.map_map] at permuted
    exact permuted
  case nodup => exact counted.nodup enough invariant
  case blocks =>
    intro p isBlock
    exact invariant.chunk_mem (List.mem_map_of_mem isBlock)
  case cur => exact invariant.cur_lt_chain
  case size => exact counted.total.symm
  case nodes =>
    intro l isLarge
    apply counted.node_inside enough invariant data
    exact List.mem_append_right _ (List.mem_map_of_mem isLarge)

end Pool

namespace PoolClient

variable {answer : Malloc} {blockSize rmd : ℕ} {client : PoolClient}

theorem reachable_counted (sound : answer.Sound) (multiple : alignment ∣ blockSize)
    (enough : sizeofPool + sizeofPoolLarge ≤ blockSize)
    (reachable : (system answer blockSize rmd).Reachable client) :
    client.pool.Holds blockSize client.live ∧ client.pool.Counted blockSize 0 := by
  apply reachable.invariant (I := fun client =>
    client.pool.Holds blockSize client.live ∧ client.pool.Counted blockSize 0)
  · intro start starts
    rcases starts with ⟨none, memory, after, empty, created⟩
    rw [none]
    exact ⟨Pool.poolNew_holds sound (by omega) empty created,
      Pool.poolNew_counted sound empty created⟩
  · intro before event after kept stepped
    rcases kept with ⟨holds, counted⟩
    refine ⟨step_holds sound multiple enough holds stepped, ?_⟩
    cases step_does stepped with
    | allocates depth size result pool returns written live =>
        exact (counted.poolAlloc sound multiple enough holds returns).written written
    | frees region isLive freed =>
        rw [freed]
        exact counted.free

end PoolClient

end Libhelp
