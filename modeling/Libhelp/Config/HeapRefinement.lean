import Libhelp.Config.Heap
import Libhelp.Config.KeyRoom
import Mathlib.Data.List.GetD

/-!
# The loaders in memory refine the loaders

A configuration in memory represents one whose words are strings: each pointer in the
Judy array points to the string, which lies in a region of the pool that nothing else
uses.  Cutting the text writes to `config->src` only, and `pool_cpy` only to a new region,
so the words stay what they are while a loader runs.

Every step of a loader in memory is then a step of the loader on strings that stays within
the buffers of the loaders, and memory is refused to the one where it is refused to the
other.
-/

namespace Libhelp

open StepProgram CString

namespace Memory

/-- A string and the NUL that ends it lie at an address. -/
structure HasString (memory : Memory) (p : ℕ) (text : Bytes) : Prop where
  free : NulFree text
  reads : memory.read p (text.length + 1) = text ++ [nul]

variable {memory after : Memory} {p q size offset : ℕ} {text : Bytes} {region : Region}

section Read

theorem take_read (memory : Memory) (p : ℕ) {count size : ℕ} (fewer : count ≤ size) :
    (memory.read p size).take count = memory.read p count := by
  rw [read, read, ← List.map_take, List.take_range, Nat.min_eq_left fewer]

theorem drop_read (memory : Memory) (p offset size : ℕ) :
    (memory.read p size).drop offset = memory.read (p + offset) (size - offset) := by
  apply List.ext_getElem
  · simp
  · intro i _ _
    simp [read, Nat.add_assoc]

theorem read_add (memory : Memory) (p first second : ℕ) :
    memory.read p (first + second) = memory.read p first ++ memory.read (p + first) second := by
  have parts := List.take_append_drop first (memory.read p (first + second))
  rw [take_read _ _ (Nat.le_add_right _ _), drop_read, Nat.add_sub_cancel_left] at parts
  exact parts.symm

theorem keepsOutside_write (memory : Memory) (p : ℕ) (bytes : Bytes) :
    memory.KeepsOutside ⟨p, bytes.length⟩ (memory.write p bytes) :=
  fun _ outside => if_neg outside

theorem read_write (memory : Memory) (p : ℕ) (bytes : Bytes) :
    (memory.write p bytes).read p bytes.length = bytes := by
  apply List.ext_getElem
  · simp
  · intro i inside isByte
    simp only [read, List.getElem_map, List.getElem_range]
    show (if p ≤ p + i ∧ p + i < p + bytes.length then _ else _) = _
    rw [if_pos ⟨Nat.le_add_right _ _, Nat.add_lt_add_left isByte _⟩, Nat.add_sub_cancel_left]
    exact List.getD_eq_getElem _ _ isByte

theorem KeepsOutside.hasString (keeps : memory.KeepsOutside region after)
    (isString : memory.HasString p text)
    (apart : Region.Apart ⟨p, text.length + 1⟩ region) : after.HasString p text :=
  ⟨isString.free, (keeps.read apart).trans isString.reads⟩

/-- The string in a buffer that has a NUL. -/
theorem hasString_of_read (ended : nul ∈ memory.read p size) :
    memory.HasString p (cstr (memory.read p size)) ∧
      (cstr (memory.read p size)).length < size := by
  rcases exists_cstr_append ended with ⟨rest, split⟩
  have length := congrArg List.length split
  rw [length_read, List.length_append, List.length_cons] at length
  refine ⟨⟨nulFree_cstr _, ?_⟩, by omega⟩
  rw [← take_read memory p (show _ ≤ size by omega)]
  nth_rewrite 2 [split]
  rw [List.take_append, List.take_of_length_le (Nat.le_succ _), Nat.add_sub_cancel_left]
  rfl

theorem HasString.byte (isString : memory.HasString p text) {i : ℕ} (inside : i ≤ text.length) :
    memory.bytes (p + i) = byteAt text i := by
  have reads := congrArg (byteAt · i) isString.reads
  have bytes : byteAt (memory.read p (text.length + 1)) i = memory.bytes (p + i) := by
    rw [byteAt, List.getD_eq_getElem _ _ (by rw [length_read]; omega)]
    simp [read]
  rw [← bytes, reads]
  rcases Nat.lt_or_eq_of_le inside with here | ends
  · exact byteAt_append_of_lt here
  · rw [ends, byteAt_append]
    exact (List.getD_eq_default _ _ le_rfl).symm

theorem strlenFrom_eq {rest : ℕ} (bytes : ∀ i ≤ text.length, memory.bytes (p + i) = byteAt text i)
    (free : NulFree text) (enough : text.length < rest) :
    strlenFrom memory.bytes rest p = text.length := by
  induction text generalizing p rest with
  | nil =>
      have ends : memory.bytes p = nul := bytes 0 le_rfl
      cases rest with
      | zero => cases enough
      | succ rest => exact if_pos ends
  | cons byte text ih =>
      rcases nulFree_cons.mp free with ⟨notNul, free⟩
      have first : memory.bytes p = byte := bytes 0 (Nat.zero_le _)
      cases rest with
      | zero => cases enough
      | succ rest =>
          have later : ∀ i ≤ text.length, memory.bytes (p + 1 + i) = byteAt text i := by
            intro i inside
            rw [Nat.add_assoc, Nat.add_comm 1 i]
            exact bytes (i + 1) (Nat.succ_le_succ inside)
          rw [strlenFrom, if_neg (first ▸ notNul), ih later free (Nat.lt_of_succ_lt_succ enough)]
          rfl

theorem HasString.strlen (isString : memory.HasString p text)
    (bounded : p + text.length < 2 ^ 64) : memory.strlen p = text.length :=
  strlenFrom_eq (fun _ inside => isString.byte inside) isString.free (by omega)

end Read

end Memory

namespace ConfigHeap

/-- A pointer to a string in a region of some list, or `NULL`. -/
def TextIn (memory : Memory) (regions : List Region) : Option ℕ → Option Bytes → Prop :=
  Option.Rel fun p text => ∃ size, ⟨p, size⟩ ∈ regions ∧ text.length < size ∧
    memory.HasString p text

/-- A configuration in memory represents one whose words are strings: these lie in regions that
the pool has handed out, and the text that was loaded last is a block of its own. -/
structure Represents (h : ConfigHeap) (config : Config) (live : List Region) : Prop where
  data : OrdMap.Related (TextIn h.memory live) h.data config.data
  lineError : h.lineError = config.lineError
  conf : TextIn h.memory h.blocks h.conf config.conf
  holds : h.pool.Holds configPoolSize live
  counted : h.pool.Counted configPoolSize 0
  beside : ∀ chunk ∈ h.memory.chunks, ∀ block ∈ h.blocks, chunk.Apart block
  apart : h.blocks.Pairwise Region.Apart
  nonempty : ∀ block ∈ h.blocks, block.size ≠ 0

/-- What was in use is still in use and reads as before. -/
def Keeps (h : ConfigHeap) (live : List Region) (after : ConfigHeap) (live' : List Region) :
    Prop :=
  ∀ region ∈ live, region ∈ live' ∧
    after.memory.read region.addr region.size = h.memory.read region.addr region.size

variable {answer : Malloc} {h after : ConfigHeap} {config : Config}
  {live live' live'' regions regions' : List Region} {memory memory' : Memory} {region : Region}
  {word : Option ℕ} {text : Option Bytes} {p size : ℕ} {key : Bytes}

theorem optionRel_mono {α β : Type} {R R' : α → β → Prop} {left : Option α} {right : Option β}
    (weaker : ∀ a b, R a b → R' a b) (related : Option.Rel R left right) :
    Option.Rel R' left right := by
  cases related with
  | none => exact .none
  | some holds => exact .some (weaker _ _ holds)

section Text

theorem TextIn.keeps (textIn : TextIn memory regions word text)
    (kept : ∀ region ∈ regions, region ∈ regions' ∧
      memory'.read region.addr region.size = memory.read region.addr region.size) :
    TextIn memory' regions' word text := by
  cases textIn with
  | none => exact .none
  | some found =>
      rcases found with ⟨size, isRegion, shorter, isString⟩
      rcases kept _ isRegion with ⟨still, reads⟩
      refine .some ⟨size, still, shorter, isString.free, ?_⟩
      rename_i p text
      have start := congrArg (List.take (text.length + 1)) reads
      rw [Memory.take_read _ _ shorter, Memory.take_read _ _ shorter] at start
      exact start.trans isString.reads

/-- A text in one of the blocks does not see what is written in another one. -/
theorem TextIn.other {written block : Region} (textIn : TextIn memory regions word text)
    (apart : regions.Pairwise Region.Apart) (isBlock : block ∈ regions)
    (inside : written.Inside block) (other : word ≠ some block.addr)
    (keeps : memory.KeepsOutside written memory') : TextIn memory' regions word text := by
  cases textIn with
  | none => exact .none
  | some found =>
      rcases found with ⟨size, isRegion, shorter, isString⟩
      refine .some ⟨size, isRegion, shorter, keeps.hasString isString ?_⟩
      rename_i p text
      have differs : (⟨p, size⟩ : Region) ≠ block := by
        rintro rfl
        exact other rfl
      have fromBlock := apart.forall isRegion isBlock differs
      have string : Region.Inside ⟨p, text.length + 1⟩ ⟨p, size⟩ :=
        ⟨le_rfl, Nat.add_le_add_left shorter p⟩
      exact ((fromBlock.of_inside string).symm.of_inside inside).symm

theorem Keeps.refl (h : ConfigHeap) (live : List Region) : h.Keeps live h live :=
  fun _ isLive => ⟨isLive, rfl⟩

theorem Keeps.trans {middle : ConfigHeap} (first : h.Keeps live middle live')
    (second : middle.Keeps live' after live'') : h.Keeps live after live'' := by
  intro region isLive
  rcases first region isLive with ⟨still, reads⟩
  rcases second region still with ⟨still, later⟩
  exact ⟨still, later.trans reads⟩

end Text

section Operations

/-- A region that a pool has handed out is apart from the blocks that its chunks are apart
from. -/
theorem live_apart {pool : Pool} {blocks : List Region} {block : Region}
    (holds : pool.Holds configPoolSize live)
    (beside : ∀ chunk ∈ pool.memory.chunks, ∀ block ∈ blocks, chunk.Apart block)
    (isLive : region ∈ live) (isBlock : block ∈ blocks) : region.Apart block := by
  have handed := holds.handedOut (by decide) isLive
  rcases handed.placed with ⟨p, -, isChunk, above, below⟩ | ⟨-, isChunk, -⟩
  · apply (beside _ isChunk block isBlock).of_inside
    refine ⟨(Nat.le_add_right _ _).trans above, ?_⟩
    have ordered := region.addr_le_stop
    show region.stop ≤ p.addr + (p.endPtr - p.addr)
    omega
  · exact beside _ isChunk block isBlock

theorem Represents.stop_lt (represents : h.Represents config live) (isLive : region ∈ live) :
    region.stop < 2 ^ 64 := by
  rcases represents.holds with ⟨whole, -, invariant⟩
  exact invariant.stop_lt (List.mem_append_left _ isLive)

/-- What is written inside a block other than `config->conf` is seen in no word. -/
theorem Represents.written (represents : h.Represents config live)
    {written block : Region} (isBlock : block ∈ h.blocks) (inside : written.Inside block)
    (notConf : h.conf ≠ some block.addr) (keeps : h.memory.KeepsOutside written memory)
    (chunks : memory.chunks = h.memory.chunks) :
    (h.withMemory memory).Represents config live ∧ h.Keeps live (h.withMemory memory) live := by
  have unwritten : h.Keeps live (h.withMemory memory) live := by
    intro region isLive
    have apart := live_apart represents.holds represents.beside isLive isBlock
    exact ⟨isLive, keeps.read (apart.symm.of_inside inside).symm⟩
  refine ⟨?_, unwritten⟩
  constructor
  case data => exact represents.data.mono fun _ _ textIn => textIn.keeps unwritten
  case lineError => exact represents.lineError
  case conf =>
    exact represents.conf.other represents.apart isBlock inside notConf keeps
  case holds => exact represents.holds.written ⟨memory, rfl, chunks⟩
  case counted => exact represents.counted.congr rfl chunks
  case beside =>
    intro chunk isChunk
    exact represents.beside chunk (chunks ▸ isChunk)
  case apart => exact represents.apart
  case nonempty => exact represents.nonempty

theorem beside_sound (sound : answer.Sound) (blocks : List Region) :
    (answer.beside blocks).Sound where
  nonNull := sound.nonNull
  aligned := sound.aligned
  bounded := sound.bounded
  fresh answered chunk isChunk :=
    sound.fresh answered chunk (List.mem_append_right _ isChunk)

/-- The pool is given chunks beside the blocks of the configuration. -/
theorem Represents.allocates {result : Option ℕ} {pool : Pool} (sound : answer.Sound)
    (represents : h.Represents config live)
    (allocates : Pool.Allocates (answer.beside h.blocks) configPoolSize h.pool live size result
      pool) :
    Represents { h with pool := pool } config (granted result size ++ live) ∧
      h.Keeps live { h with pool := pool } (granted result size ++ live) ∧
      ∀ block ∈ h.blocks, pool.memory.read block.addr block.size =
        h.memory.read block.addr block.size := by
  have kept : h.Keeps live { h with pool := pool } (granted result size ++ live) :=
    fun region isLive => ⟨List.mem_append_right _ isLive, allocates.read isLive⟩
  have beside : ∀ chunk ∈ pool.memory.chunks, ∀ block ∈ h.blocks, chunk.Apart block := by
    intro chunk isChunk block isBlock
    rcases allocates.chunks chunk isChunk with older | ⟨calls, chunks, answered⟩
    · exact represents.beside chunk older block isBlock
    · exact sound.fresh answered block (List.mem_append_left _ isBlock)
  have unwritten : ∀ block ∈ h.blocks, pool.memory.read block.addr block.size =
      h.memory.read block.addr block.size := by
    intro block isBlock
    refine Memory.read_congr fun i inside => allocates.keeps _ ?_
    intro new isNew holds
    have apart := live_apart allocates.holds beside (List.mem_append_left _ isNew) isBlock
    exact apart _ holds ⟨Nat.le_add_right _ _, Nat.add_lt_add_left inside _⟩
  refine ⟨?_, kept, unwritten⟩
  constructor
  case data => exact represents.data.mono fun _ _ textIn => textIn.keeps kept
  case lineError => exact represents.lineError
  case conf => exact represents.conf.keeps fun block isBlock => ⟨isBlock, unwritten block isBlock⟩
  case holds => exact allocates.holds
  case counted => exact allocates.counted represents.counted
  case beside => exact beside
  case apart => exact represents.apart
  case nonempty => exact represents.nonempty

theorem Represents.insert (represents : h.Represents config live) (key : Bytes)
    (textIn : TextIn h.memory live word text) :
    Represents { h with data := h.data.insert key word }
      { config with data := config.data.insert key text } live :=
  { represents with data := represents.data.insert key textIn }

/-- A block other than `config->conf` is freed. -/
theorem Represents.free (represents : h.Represents config live) (notConf : h.conf ≠ some p) :
    (h.free p).Represents config live := by
  have fewer : List.Sublist (h.free p).blocks h.blocks := List.eraseP_sublist
  constructor
  case data => exact represents.data
  case lineError => exact represents.lineError
  case conf =>
    have conf := represents.conf
    show TextIn h.memory (h.free p).blocks h.conf config.conf
    generalize h.conf = word at conf notConf
    generalize config.conf = text at conf
    cases conf with
    | none => exact .none
    | some found =>
        rcases found with ⟨size, isBlock, shorter, isString⟩
        refine .some ⟨size, ?_, shorter, isString⟩
        apply (List.mem_eraseP_of_neg _).mpr isBlock
        rw [decide_eq_true_iff]
        rintro rfl
        exact notConf rfl
  case holds => exact represents.holds
  case counted => exact represents.counted
  case beside =>
    intro chunk isChunk block isBlock
    exact represents.beside chunk isChunk block (fewer.subset isBlock)
  case apart => exact represents.apart.sublist fewer
  case nonempty =>
    intro block isBlock
    exact represents.nonempty block (fewer.subset isBlock)

/-- A string that has been copied with its NUL is a text of the pool. -/
theorem textIn_copied {string : Bytes} {copy : ℕ} (isString : memory.HasString p string)
    (shorter : string.length < size)
    (copied : memory'.read copy size = memory.read p size) (isLive : ⟨copy, size⟩ ∈ live) :
    TextIn memory' live (some copy) (some string) := by
  refine .some ⟨size, isLive, shorter, isString.free, ?_⟩
  have start := congrArg (List.take (string.length + 1)) copied
  rw [Memory.take_read _ _ shorter, Memory.take_read _ _ shorter] at start
  exact start.trans isString.reads

end Operations

namespace Loader

/-- The loader on strings in the state of a loader in memory. -/
def view (m : Loader) (config : Config) (requests : ℕ)
    (copying : Option Libhelp.Copying) : Libhelp.Loader where
  config := config
  requests := requests
  src := m.src
  stop := m.stop
  state := m.state
  line := m.line
  p := m.p
  pkey := m.pkey
  pvalue := m.pvalue
  copying := copying

/-- The word that the last Judy search has returned, and the key. -/
def CopyingIn (memory : Memory) (live : List Region) (copying : Copying)
    (copying' : Libhelp.Copying) : Prop :=
  copying.index = copying'.index ∧
    Option.Rel (TextIn memory live) copying.pw copying'.pw

/-- A loader in memory represents a loader on strings; its text is a block of its own. -/
structure Represents (m : Loader) (config : Config) (copying : Option Libhelp.Copying)
    (live : List Region) : Prop where
  config : m.config.Represents config live
  copying : Option.Rel (CopyingIn m.config.memory live) m.copying copying
  isBlock : ⟨m.config.src, m.stop + 1⟩ ∈ m.config.blocks
  notConf : m.config.conf ≠ some m.config.src
  pvalue_le : m.pvalue ≤ m.p

/-- A step of a loader that goes on. -/
structure Goes (m : Loader) (live : List Region) (m' : Loader) (live' : List Region) :
    Prop where
  keeps : m.config.Keeps live m'.config live'
  blocks : m'.config.blocks = m.config.blocks
  src : m'.config.src = m.config.src
  conf : m'.config.conf = m.config.conf

/-- A step that leaves the loader: the text is freed. -/
structure Leaves (m : Loader) (live : List Region) (result : LoadResult)
    (live' : List Region) : Prop where
  keeps : m.config.Keeps live result.config live'
  blocks : result.config.blocks = (m.config.free m.config.src).blocks
  conf : result.config.conf = m.config.conf

end Loader

/-- Results with the same code and message, of which the one's configuration represents the
other's. -/
structure LoadResult.Represents (result : LoadResult) (result' : Libhelp.LoadResult)
    (live : List Region) : Prop where
  ret : result.ret = result'.ret
  logged : result.logged = result'.logged
  config : result.config.Represents result'.config live

namespace Loader

/-- What a step in memory leads to is what a step on strings leads to, when memory is granted
and refused to the latter as to the former. -/
inductive Simulated (m : Loader) (requests : ℕ) (live : List Region) :
    Outcome Loader LoadResult →
      ((ℕ → Bool) → Outcome Libhelp.Loader Libhelp.LoadResult) → Prop where
  | next {outcome : (ℕ → Bool) → Outcome Libhelp.Loader Libhelp.LoadResult} (m' : Loader)
      (config' : Config) (requests' : ℕ) (copying' : Option Libhelp.Copying)
      (live' : List Region) (represents : m'.Represents config' copying' live')
      (goes : m.Goes live m' live') (order : requests ≤ requests')
      (steps : ∀ alloc, (∀ i, requests ≤ i → i < requests' → alloc i = true) →
        outcome alloc = .next (m'.view config' requests' copying')) :
      Simulated m requests live (.next m') outcome
  | ret {outcome : (ℕ → Bool) → Outcome Libhelp.Loader Libhelp.LoadResult}
      (result : LoadResult) (result' : Libhelp.LoadResult) (live' : List Region)
      (answers : ℕ → Bool) (represents : result.Represents result' live')
      (leaves : m.Leaves live result live')
      (steps : ∀ alloc, (∀ i, requests ≤ i → alloc i = answers i) →
        outcome alloc = .ret result') :
      Simulated m requests live (.ret result) outcome
  | stuck {outcome : (ℕ → Bool) → Outcome Libhelp.Loader Libhelp.LoadResult}
      (steps : ∀ alloc, alloc requests = true → outcome alloc = .stuck) :
      Simulated m requests live .stuck outcome

variable {m m' : Loader} {requests : ℕ} {copying : Option Libhelp.Copying} {judy : ℕ → Bool}
  {outcome : Outcome Loader LoadResult}
  {outcome' : (ℕ → Bool) → Outcome Libhelp.Loader Libhelp.LoadResult}

section Steps

theorem CopyingIn.keeps {copying : Copying} {copying' : Libhelp.Copying}
    (copyingIn : CopyingIn memory live copying copying')
    (kept : ∀ region ∈ live, region ∈ live' ∧
      memory'.read region.addr region.size = memory.read region.addr region.size) :
    CopyingIn memory' live' copying copying' :=
  ⟨copyingIn.1, optionRel_mono (fun _ _ textIn => textIn.keeps kept) copyingIn.2⟩

theorem Goes.refl (m : Loader) (live : List Region) : m.Goes live m live :=
  ⟨.refl _ _, rfl, rfl, rfl⟩

theorem Goes.leaves {result : LoadResult} (goes : m.Goes live m' live')
    (leaves : m'.Leaves live' result live'') : m.Leaves live result live'' := by
  refine ⟨goes.keeps.trans leaves.keeps, ?_, leaves.conf.trans goes.conf⟩
  rw [leaves.blocks, ConfigHeap.free, ConfigHeap.free, goes.blocks, goes.src]

/-- What is done before a step belongs to it. -/
theorem Simulated.prepend (simulated : Simulated m' requests live outcome outcome')
    (goes : m.Goes live m' live) : Simulated m requests live outcome outcome' := by
  cases simulated with
  | next m'' config' requests' copying' live' represents goes' order steps =>
      refine .next m'' config' requests' copying' live' represents ?_ order steps
      exact ⟨goes.keeps.trans goes'.keeps, goes'.blocks.trans goes.blocks,
        goes'.src.trans goes.src, goes'.conf.trans goes.conf⟩
  | ret result result' live' answers represents leaves steps =>
      exact .ret result result' live' answers represents (goes.leaves leaves) steps
  | stuck steps => exact .stuck steps

theorem Simulated.ite {condition : Prop} [Decidable condition]
    {other : Outcome Loader LoadResult}
    {other' : (ℕ → Bool) → Outcome Libhelp.Loader Libhelp.LoadResult}
    (isTrue : Simulated m requests live outcome outcome')
    (isFalse : Simulated m requests live other other') :
    Simulated m requests live (if condition then outcome else other)
      fun alloc => if condition then outcome' alloc else other' alloc := by
  by_cases holds : condition
  · simp only [if_pos holds]
    exact isTrue
  · simp only [if_neg holds]
    exact isFalse

@[simp]
theorem view_src : (m.view config requests copying).src = m.src :=
  rfl

@[simp]
theorem view_state : (m.view config requests copying).state = m.state :=
  rfl

@[simp]
theorem view_stop : (m.view config requests copying).stop = m.stop :=
  rfl

@[simp]
theorem view_copying : (m.view config requests copying).copying = copying :=
  rfl

@[simp]
theorem view_p : (m.view config requests copying).p = m.p :=
  rfl

@[simp]
theorem view_pkey : (m.view config requests copying).pkey = m.pkey :=
  rfl

@[simp]
theorem view_pvalue : (m.view config requests copying).pvalue = m.pvalue :=
  rfl

theorem view_cut (m : Loader) (config : Config) (requests : ℕ)
    (copying : Option Libhelp.Copying) :
    (m.view config requests copying).cut = m.cut.view config requests copying := by
  have cuts : m.cut.src = m.src.set m.p nul := Memory.read_store nul
  rw [view, Libhelp.Loader.cut, view, cuts]
  rfl

/-- A NUL at the cursor is written into the text. -/
theorem Represents.cut (represents : m.Represents config copying live) (inside : m.p < m.stop) :
    m.cut.Represents config copying live ∧ m.Goes live m.cut live := by
  have isInside : Region.Inside ⟨m.config.src + m.p, 1⟩ ⟨m.config.src, m.stop + 1⟩ := by
    refine ⟨Nat.le_add_right _ _, ?_⟩
    rw [Region.stop_mk, Region.stop_mk]
    omega
  rcases represents.config.written represents.isBlock isInside represents.notConf
    (Memory.keepsOutside_memset m.config.memory (m.config.src + m.p) nul 1) rfl with
    ⟨config, keeps⟩
  refine ⟨⟨config, ?_, represents.isBlock, represents.notConf, represents.pvalue_le⟩, keeps, rfl,
    rfl, rfl⟩
  exact optionRel_mono (fun _ _ copyingIn => copyingIn.keeps keeps) represents.copying

/-- What follows the insertion of a word, in memory and on strings. -/
structure Continues (continue' : Loader → Loader)
    (onStrings : Libhelp.Loader → Libhelp.Loader) : Prop where
  config : ∀ m, (continue' m).config = m.config
  represents : ∀ {m : Loader} {config : Config} {copying : Option Libhelp.Copying}
    {live : List Region} (requests : ℕ), m.Represents config copying live →
      ∃ copying', (continue' m).Represents config copying' live ∧
        onStrings (m.view config requests copying) = (continue' m).view config requests copying'

/-- A loader still represents its loader on strings when a call of the pool has returned. -/
theorem Represents.allocates {result : Option ℕ} {pool : Pool} (sound : answer.Sound)
    (represents : m.Represents config copying live)
    (allocates : Pool.Allocates (answer.beside m.config.blocks) configPoolSize m.config.pool live
      size result pool) :
    Represents { m with config := { m.config with pool := pool } } config copying
        (granted result size ++ live) ∧
      m.config.Keeps live { m.config with pool := pool } (granted result size ++ live) ∧
      pool.memory.read m.config.src (m.stop + 1) = m.src := by
  rcases represents.config.allocates sound allocates with ⟨config, keeps, unwritten⟩
  refine ⟨⟨config, ?_, represents.isBlock, represents.notConf, represents.pvalue_le⟩, keeps,
    unwritten _ represents.isBlock⟩
  exact optionRel_mono (fun _ _ copyingIn => copyingIn.keeps keeps) represents.copying

theorem poolCpy_returns {pool : Pool} (holds : pool.Holds configPoolSize live) (answer : Malloc)
    (p size : ℕ) : ∃ returned, poolCpy answer 2 pool p size = some returned := by
  have allocated : ∃ returned, poolAlloc answer 2 pool size = some returned :=
    holds.returns (by decide) size
  rcases allocated with ⟨returned, returns⟩
  exact ⟨_, congrArg (Option.map _) returns⟩

/-- A word is a copy of a string, in a new region. -/
theorem insertWord_simulated (sound : answer.Sound) (represents : m.Represents config copying live)
    {source : Option (ℕ × ℕ)} {value : Option Bytes}
    (isSource : Option.Rel (fun place string => m.config.memory.HasString place.1 string ∧
      string.length < place.2) source value) (key : Bytes) {continue' : Loader → Loader}
    {onStrings : Libhelp.Loader → Libhelp.Loader} (continues : Continues continue' onStrings) :
    Simulated m requests live (m.insertWord answer judy key source continue')
      fun alloc => (m.view config requests copying).insertWord alloc key value onStrings := by
  unfold insertWord
  split_ifs with inserts
  · cases isSource with
    | none =>
        refine .stuck ?_
        intro alloc found
        exact if_pos found
    | some isString =>
        rename_i place string
        rcases isString with ⟨isString, shorter⟩
        have returns := poolCpy_returns represents.config.holds
          (answer.beside m.config.blocks) place.1 place.2
        rcases returns with ⟨⟨result, pool⟩, returned⟩
        rcases Pool.allocates_poolCpy (beside_sound sound _) (by decide) (by decide)
          represents.config.holds returned with ⟨allocates, copied⟩
        rcases represents.allocates sound allocates with ⟨represents', keeps, sameSrc⟩
        simp only [returned]
        cases result with
        | none =>
            have inserted := represents'.config.insert key (.none : TextIn _ _ none none)
            refine .ret _ ⟨ERROR, { config with data := config.data.insert key none },
              some .poolCpyError⟩ live (· = requests) ⟨rfl, rfl, ?_⟩ ⟨keeps, rfl, rfl⟩ ?_
            · exact inserted.free (p := m.config.src) represents.notConf
            · intro alloc answers
              have found : alloc requests = true := by simp [answers requests le_rfl]
              have notCopied : ¬alloc (requests + 1) = true := by simp [answers]
              exact (if_pos found).trans (if_neg notCopied)
        | some word =>
            have isShared := List.mem_append_left live (List.mem_singleton_self ⟨word, place.2⟩)
            have textIn := textIn_copied isString shorter (copied word rfl) isShared
            let m' : Loader := { m with
              config := { m.config with data := m.config.data.insert key (some word), pool := pool }
              inserts := m.inserts + 1 }
            have inserted :
                m'.Represents { config with data := config.data.insert key (some string) } copying
                  (granted (some word) place.2 ++ live) :=
              ⟨represents'.config.insert key textIn, represents'.copying, represents.isBlock,
                represents.notConf, represents.pvalue_le⟩
            have viewed : { m.view config requests copying with
                config := { config with data := config.data.insert key (some string) }
                requests := requests + 2 } =
                m'.view { config with data := config.data.insert key (some string) } (requests + 2)
                  copying := by
              rw [view, view, show m'.src = m.src from sameSrc]
            rcases continues.represents (requests + 2) inserted with ⟨copying', goesOn, after⟩
            have goes : m.Goes live (continue' m') (granted (some word) place.2 ++ live) := by
              constructor
              all_goals rw [continues.config]
              exact keeps
            refine .next _ _ _ copying' _ goesOn goes (Nat.le_add_right _ 2) ?_
            intro alloc granted
            have found : alloc requests = true := granted _ le_rfl (by omega)
            have copied : alloc (requests + 1) = true := granted _ (by omega) (by omega)
            rw [← after, ← viewed]
            exact (if_pos found).trans (if_pos copied)
  · refine .ret _ ⟨ERROR, config, some .judyError⟩ live (fun _ => false) ⟨rfl, rfl, ?_⟩
      ⟨.refl m.config live, rfl, rfl⟩ ?_
    · exact represents.config.free represents.notConf
    · intro alloc refused
      have notFound : ¬alloc requests = true := by simp [refused requests le_rfl]
      exact if_neg notFound

theorem Continues.state (state : ScanState) :
    Continues (fun m => { m with state := state, p := m.p + 1 })
      fun m => { m with state := state, p := m.p + 1 } where
  config _ := rfl
  represents {m _ copying _} _ represents :=
    ⟨copying, ⟨represents.config, represents.copying, represents.isBlock, represents.notConf,
      represents.pvalue_le.trans (Nat.le_succ m.p)⟩, rfl⟩

/-- The pending value is the string from `pvalue` to the NUL that has been written. -/
theorem insertValue_simulated (sound : answer.Sound)
    (represents : m.Represents config copying live) (inside : m.p < m.stop)
    {continue' : Loader → Loader} {onStrings : Libhelp.Loader → Libhelp.Loader}
    (continues : Continues continue' onStrings) :
    Simulated m requests live (m.cut.insertValue answer judy continue')
      fun alloc => (m.view config requests copying).cut.insertWord alloc
        (m.view config requests copying).cut.key (some (m.view config requests copying).cut.value)
        onStrings := by
  rcases represents.cut inside with ⟨cut, goes⟩
  have ordered := represents.pvalue_le
  have ended : nul ∈ m.cut.config.memory.read (m.config.src + m.pvalue) (m.p - m.pvalue + 1) := by
    refine List.mem_map.mpr ⟨m.p - m.pvalue, List.mem_range.mpr (Nat.lt_succ_self _), ?_⟩
    apply if_pos
    omega
  have value : m.cut.value =
      cstr (m.cut.config.memory.read (m.config.src + m.pvalue) (m.p - m.pvalue + 1)) := by
    show cstr (((m.cut.config.memory.read m.config.src (m.stop + 1)).drop m.pvalue).take
      (m.p - m.pvalue + 1)) = _
    rw [Memory.drop_read, Memory.take_read _ _ (by omega)]
  simp only [view_cut]
  refine (insertWord_simulated sound cut ?_ _ continues).prepend goes
  refine .some ?_
  show m.cut.config.memory.HasString _ m.cut.value ∧ m.cut.value.length < _
  rw [value]
  exact Memory.hasString_of_read ended

/-- What is done without memory. -/
theorem Represents.moves (represents : m.Represents config copying live)
    (sameConfig : m'.config = m.config) (sameStop : m'.stop = m.stop)
    (sameCopying : m'.copying = m.copying) (pvalue_le : m'.pvalue ≤ m'.p) :
    Simulated m requests live (.next m') fun _ => .next (m'.view config requests copying) := by
  refine .next m' config requests copying live ?_ ?_ le_rfl fun _ _ => rfl
  · constructor
    case config => exact sameConfig ▸ represents.config
    case copying =>
      rw [sameConfig, sameCopying]
      exact represents.copying
    case isBlock =>
      rw [sameConfig, sameStop]
      exact represents.isBlock
    case notConf => exact sameConfig ▸ represents.notConf
    case pvalue_le => exact pvalue_le
  · constructor
    all_goals rw [sameConfig]
    exact .refl _ _

theorem fail_simulated (represents : m.Represents config copying live)
    (message : ℕ → LogMessage) :
    Simulated m requests live (m.fail message)
      fun _ => (m.view config requests copying).fail message := by
  have freed := represents.config.free represents.notConf
  refine .ret _ ⟨ERROR, { config with lineError := m.line }, some (message m.line)⟩ live
    (fun _ => true) ⟨rfl, rfl, ?_⟩ ⟨.refl m.config live, rfl, rfl⟩ fun _ _ => rfl
  exact { freed with lineError := rfl }

theorem copyingIn_found (index : Bytes) {entry : Option (Bytes × Option ℕ)}
    {entry' : Option (Bytes × Word)}
    (related : Option.Rel (OrdMap.RelatedEntry (TextIn memory live)) entry entry') :
    CopyingIn memory live (found index entry) (Libhelp.Loader.found index entry') := by
  cases related with
  | none => exact ⟨rfl, .none⟩
  | some found => exact ⟨found.1, .some found.2⟩

theorem Represents.copies {looping : Copying} {looping' : Libhelp.Copying}
    (represents : m.Represents config copying live)
    (copyingIn : CopyingIn m.config.memory live looping looping') :
    Represents { m with copying := some looping } config (some looping') live :=
  { represents with copying := .some copyingIn }

theorem scanStep_simulated (sound : answer.Sound) (represents : m.Represents config copying live)
    (inside : m.p < m.stop) : Simulated m requests live (m.scanStep answer judy)
      fun alloc => (m.view config requests copying).scanStep alloc := by
  unfold scanStep Libhelp.Loader.scanStep
  simp only [view_src, view_p, view_pkey, view_pvalue, view_state]
  have later : m.pvalue ≤ m.p + 1 := represents.pvalue_le.trans (Nat.le_succ _)
  cases state : m.state with
  | space =>
      refine .ite (represents.moves rfl rfl rfl later) (.ite ?_ (.ite ?_ (.ite ?_ ?_)))
      · exact represents.moves rfl rfl rfl later
      · exact represents.moves rfl rfl rfl later
      · exact represents.moves rfl rfl rfl later
      · exact fail_simulated represents _
  | comment =>
      refine .ite ?_ ?_
      · exact represents.moves rfl rfl rfl later
      · exact represents.moves rfl rfl rfl later
  | paramKey =>
      rcases represents.cut inside with ⟨cut, goes⟩
      simp only [view_cut]
      refine .ite ?_ (.ite (.ite ?_ ?_) ?_)
      · exact represents.moves rfl rfl rfl later
      · exact (fail_simulated cut _).prepend goes
      · refine Simulated.prepend ?_ goes
        exact cut.moves rfl rfl rfl later
      · exact fail_simulated represents _
  | paramKeySp =>
      refine .ite ?_ (.ite ?_ (.ite ?_ (.ite ?_ ?_)))
      · exact represents.moves rfl rfl rfl later
      · exact represents.moves rfl rfl rfl le_rfl
      · exact represents.moves rfl rfl rfl le_rfl
      · exact fail_simulated represents _
      · exact represents.moves rfl rfl rfl (Nat.le_succ m.p)
  | paramValue =>
      refine .ite ?_ (.ite ?_ ?_)
      · exact insertValue_simulated sound represents inside (.state .space)
      · exact fail_simulated represents _
      · exact represents.moves rfl rfl rfl later
  | paramQtValue =>
      refine .ite ?_ (.ite ?_ (.ite ?_ ?_))
      · exact represents.moves rfl rfl rfl (later.trans (Nat.le_succ _))
      · exact insertValue_simulated sound represents inside (.state .paramValueSkip)
      · exact fail_simulated represents _
      · exact represents.moves rfl rfl rfl later
  | paramValueSkip =>
      refine .ite ?_ (.ite ?_ ?_)
      · exact represents.moves rfl rfl rfl later
      · exact fail_simulated represents _
      · exact represents.moves rfl rfl rfl later
  | paramCopyValue =>
      rcases represents.cut inside with ⟨cut, goes⟩
      simp only [view_cut]
      refine .ite (.ite ?_ ?_) (.ite ?_ ?_)
      · exact (fail_simulated cut _).prepend goes
      · have first := cut.config.data.first (OrdMap.isFrom m.cut.value)
        have copies := cut.copies (copyingIn_found m.cut.value first)
        exact .next _ config requests _ live copies
          ⟨goes.keeps, goes.blocks, goes.src, goes.conf⟩ le_rfl fun _ _ => rfl
      · exact fail_simulated represents _
      · exact represents.moves rfl rfl rfl later

theorem Continues.copies (index : Bytes) :
    Continues (fun m => { m with copying := some (found index (m.config.data.nextAfter index)) })
      fun m => { m with
        copying := some (Libhelp.Loader.found index (m.config.data.nextAfter index)) } where
  config _ := rfl
  represents _ represents := by
    have next := represents.config.data.first (OrdMap.isAfter index)
    exact ⟨_, represents.copies (copyingIn_found index next), rfl⟩

/-- The loop reads its words where they lie. -/
theorem copyStep_simulated (sound : answer.Sound) {looping : Copying}
    {looping' : Libhelp.Copying} (represents : m.Represents config (some looping') live)
    (copyingIn : CopyingIn m.config.memory live looping looping') :
    Simulated m requests live (m.copyStep answer judy looping)
      fun alloc => (m.view config requests (some looping')).stepWithin alloc := by
  have leaves : Simulated m requests live
      (.next { m with copying := none, state := .space, p := m.p + 1 })
      fun _ => .next { m.view config requests (some looping') with
        copying := none, state := .space, p := m.p + 1 } := by
    refine .next _ config requests none live ?_ ⟨.refl m.config live, rfl, rfl, rfl⟩ le_rfl
      fun _ _ => rfl
    exact { represents with
      copying := .none, pvalue_le := represents.pvalue_le.trans (Nat.le_succ m.p) }
  rcases looping with ⟨index, pw⟩
  rcases looping' with ⟨index', pw'⟩
  rcases copyingIn with ⟨sameIndex, words⟩
  have same : index = index' := sameIndex
  subst same
  unfold copyStep
  cases words with
  | none =>
      have done : ∀ copying ∈ (m.view config requests (some ⟨index, none⟩)).copying,
          copying.pw = none := by
        rintro _ ⟨⟩
        rfl
      simp only [Libhelp.stepWithin_of_done done]
      exact leaves
  | some textIn =>
      rename_i word text
      simp only [Libhelp.stepWithin_of_copying (view_copying ..), view_src, view_p, view_pvalue]
      have overrun : Simulated m requests live .stuck fun _ => .stuck := .stuck fun _ _ => rfl
      refine .ite overrun (.ite (.ite overrun ?_) leaves)
      refine insertWord_simulated sound represents ?_ _ (.copies index)
      cases textIn with
      | none => exact .none
      | some inRegion =>
          rcases inRegion with ⟨size, isLive, shorter, isString⟩
          have bounded := represents.config.stop_lt isLive
          rw [Region.stop_mk] at bounded
          refine .some ⟨isString, ?_⟩
          exact Nat.lt_succ_of_le (isString.strlen (by omega)).ge

/-- A step of a loader in memory is a step of the loader on strings within its buffers. -/
theorem step_simulated (sound : answer.Sound) (represents : m.Represents config copying live) :
    Simulated m requests live (step answer judy m)
      fun alloc => Libhelp.Loader.stepWithin alloc (m.view config requests copying) := by
  have loops := represents.copying
  unfold step
  cases isLooping : m.copying with
  | none =>
      rw [isLooping] at loops
      cases loops
      have done : ∀ copying ∈ (m.view config requests none).copying, copying.pw = none := by
        rintro _ ⟨⟩
      simp only [Libhelp.stepWithin_of_done done, Libhelp.Loader.step, view_copying]
      by_cases inside : m.p < m.stop
      · simp only [view_p, view_stop, inside, ↓reduceIte]
        exact scanStep_simulated sound represents inside
      · simp only [view_p, view_stop, inside, ↓reduceIte]
        refine .ret _ ⟨OK, config, none⟩ live (fun _ => true) ⟨rfl, rfl, ?_⟩
          ⟨.refl m.config live, rfl, rfl⟩ fun _ _ => rfl
        exact represents.config.free represents.notConf
  | some looping =>
      rw [isLooping] at loops
      cases loops with
      | some copyingIn => exact copyStep_simulated sound represents copyingIn

end Steps

section Run

/-- What a loader in memory returns a loader on strings returns within its buffers, when memory
is granted and refused to it in some way. -/
theorem run_simulated (sound : answer.Sound) (represents : m.Represents config copying live)
    {fuel : ℕ} {result : LoadResult}
    (returned : run (step answer judy) fuel (.next m) = some result) :
    ∃ (result' : Libhelp.LoadResult) (live' : List Region) (answers : ℕ → Bool),
      result.Represents result' live' ∧ m.Leaves live result live' ∧ ∀ alloc,
        (∀ i, requests ≤ i → alloc i = answers i) →
          run (Libhelp.Loader.stepWithin alloc) fuel (.next (m.view config requests copying)) =
            some result' := by
  induction fuel generalizing m config requests copying live with
  | zero => simp at returned
  | succ fuel ih =>
      rw [run_next_succ] at returned
      have simulated := @step_simulated answer config live m requests copying judy sound represents
      generalize step answer judy m = outcome at returned simulated
      cases simulated with
      | next m' config' requests' copying' live' represents' goes order steps =>
          rcases @ih _ _ _ requests' _ represents' returned with
            ⟨result', live'', answers, loaded, leaves, runs⟩
          refine ⟨result', live'', fun i => if i < requests' then true else answers i, loaded,
            goes.leaves leaves, ?_⟩
          intro alloc same
          have granted : ∀ i, requests ≤ i → i < requests' → alloc i = true := by
            intro i lower upper
            exact (same i lower).trans (if_pos upper)
          have stepped : Libhelp.Loader.stepWithin alloc (m.view config requests copying) = _ :=
            steps alloc granted
          rw [run_next_succ, stepped]
          apply runs
          intro i lower
          exact (same i (order.trans lower)).trans (if_neg (not_lt.mpr lower))
      | ret value result' live' answers loaded leaves steps =>
          rw [run_ret] at returned
          cases returned
          refine ⟨result', live', answers, loaded, leaves, ?_⟩
          intro alloc same
          have stepped : Libhelp.Loader.stepWithin alloc (m.view config requests copying) = _ :=
            steps alloc same
          rw [run_next_succ, stepped, run_ret]
      | stuck steps => simp at returned

/-- A loader in memory returns where the loader on strings does within its buffers with enough
memory. -/
theorem run_returns (sound : answer.Sound) (judy : ℕ → Bool)
    (represents : m.Represents config copying live) {fuel : ℕ} {value : Libhelp.LoadResult}
    (returned : run (Libhelp.Loader.stepWithin ample) fuel (.next (m.view config requests copying)) =
      some value) : ∃ result, run (step answer judy) fuel (.next m) = some result := by
  induction fuel generalizing m config requests copying live with
  | zero => simp at returned
  | succ fuel ih =>
      rw [run_next_succ] at returned ⊢
      have simulated := @step_simulated answer config live m requests copying judy sound represents
      generalize step answer judy m = outcome at simulated ⊢
      cases simulated with
      | next m' config' requests' copying' live' represents' goes order steps =>
          have stepped : Libhelp.Loader.stepWithin ample (m.view config requests copying) = _ :=
            steps ample fun _ _ _ => rfl
          rw [stepped] at returned
          exact ih represents' returned
      | ret value result' live' answers loaded leaves steps => exact ⟨value, run_ret fuel value⟩
      | stuck steps =>
          have stepped : Libhelp.Loader.stepWithin ample (m.view config requests copying) = _ :=
            steps ample rfl
          rw [stepped, run_stuck] at returned
          cases returned

end Run

end Loader

end ConfigHeap

end Libhelp
