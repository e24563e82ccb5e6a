import Libhelp.Config.Loader
import Libhelp.Pool.Contents
import Libhelp.Pool.Delete

/-!
# The configuration in memory

The model of `config_new`, `config_new2`, `config_get_str` and `config_delete` with the
pointers that the source has: `config->src` and `config->conf` are blocks from `malloc` and
`calloc`, the loader reads and cuts its text in memory, and a word of the Judy array is
what `pool_cpy` has returned, a pointer into `config->pool`.

The blocks obtained outside of the pool are kept beside the chunks of the pool; `malloc`
sees both.  The nodes of the Judy array are kept apart from memory; of an array that is
abandoned with its nodes the entries are kept.

The buffers `key` and `index` of the loaders are lists, with a fault where one gets longer
than its buffer.  The byte that `log_error` writes behind its own buffer is left out, as the
logger is.
-/

namespace Libhelp

open StepProgram CString

/-- `malloc` as the pool sees it while others have obtained some blocks. -/
def Malloc.beside (answer : Malloc) (blocks : List Region) : Malloc :=
  fun calls chunks size => answer calls (blocks ++ chunks) size

namespace Memory

/-- The bytes of a caller's buffer, written from an address on. -/
def write (memory : Memory) (p : ℕ) (bytes : Bytes) : Memory :=
  { memory with
    bytes := fun address =>
      if p ≤ address ∧ address < p + bytes.length then
        byteAt bytes (address - p)
      else
        memory.bytes address }

def strlenFrom (bytes : ℕ → UInt8) : ℕ → ℕ → ℕ
  | 0, _ => 0
  | rest + 1, p => if bytes p = nul then 0 else strlenFrom bytes rest (p + 1) + 1

/-- `strlen`, which does not get to the end of the address space. -/
def strlen (memory : Memory) (p : ℕ) : ℕ :=
  strlenFrom memory.bytes (2 ^ 64 - p) p

end Memory

/-- `CONFIG_POOL_SIZE` -/
def configPoolSize : ℕ := 4096

/-- `CONFIG_POOL_RMD_SIZE` -/
def configPoolRmdSize : ℕ := 32

/-- `sizeof(config_t)` -/
def sizeofConfig : ℕ := 48

/-- `config_t`, and the blocks obtained by `malloc` and `calloc` outside of the pool. -/
structure ConfigHeap where
  data : OrdMap Bytes (Option ℕ)
  pool : Pool
  blocks : List Region
  src : ℕ
  lineError : ℕ
  conf : Option ℕ

namespace ConfigHeap

def memory (h : ConfigHeap) : Memory :=
  h.pool.memory

def withMemory (h : ConfigHeap) (memory : Memory) : ConfigHeap :=
  { h with pool := { h.pool with memory := memory } }

def malloc (answer : Malloc) (h : ConfigHeap) (size : ℕ) : Option ℕ × ConfigHeap :=
  let called := h.withMemory { h.memory with calls := h.memory.calls + 1 }
  match answer h.memory.calls (h.blocks ++ h.memory.chunks) size with
  | none => (none, called)
  | some p => (some p, { called with blocks := ⟨p, size⟩ :: h.blocks })

def calloc (answer : Malloc) (h : ConfigHeap) (size : ℕ) : Option ℕ × ConfigHeap :=
  match h.malloc answer size with
  | (none, h) => (none, h)
  | (some p, h) => (some p, h.withMemory (h.memory.memset p 0 size))

def free (h : ConfigHeap) (p : ℕ) : ConfigHeap :=
  { h with blocks := h.blocks.eraseP fun block => block.addr = p }

/-- The copy loop: the buffer `index` and the word the last Judy search returned. -/
structure Copying where
  index : Bytes
  pw : Option (Option ℕ)

/-- The local state of a loader.  `p`, `pkey`, `pvalue` and `end` are offsets into
`config->src`. -/
structure Loader where
  config : ConfigHeap
  /-- The number of calls of `JSLI` so far. -/
  inserts : ℕ
  stop : ℕ
  state : ScanState
  line : ℕ
  p : ℕ
  pkey : ℕ
  pvalue : ℕ
  copying : Option Copying

structure LoadResult where
  ret : ℤ
  config : ConfigHeap
  logged : Option LogMessage

namespace Loader

/-- The buffer that `config->src` points to. -/
def src (m : Loader) : Bytes :=
  m.config.memory.read m.config.src (m.stop + 1)

/-- Free `config->src` and leave the loader with a syntax error on the current line. -/
def fail (m : Loader) (message : ℕ → LogMessage) : Outcome Loader LoadResult :=
  .ret ⟨ERROR, { m.config.free m.config.src with lineError := m.line }, some (message m.line)⟩

/-- `JSLI` of a key, and `pool_cpy` of the bytes at a pointer into its word.  A `NULL` that is
read crashes. -/
def insertWord (answer : Malloc) (judy : ℕ → Bool) (m : Loader) (key : Bytes)
    (source : Option (ℕ × ℕ)) (continue' : Loader → Loader) : Outcome Loader LoadResult :=
  if judy m.inserts then
    match source with
    | none => .stuck
    | some (p, size) =>
        match poolCpy (answer.beside m.config.blocks) 2 m.config.pool p size with
        | none => .stuck
        | some (none, pool) =>
            let config := { m.config with data := m.config.data.insert key none, pool := pool }
            .ret ⟨ERROR, config.free config.src, some .poolCpyError⟩
        | some (some word, pool) =>
            .next (continue' { m with
              config := { m.config with
                data := m.config.data.insert key (some word)
                pool := pool }
              inserts := m.inserts + 1 })
  else
    .ret ⟨ERROR, m.config.free m.config.src, some .judyError⟩

/-- `*p = '\0'` -/
def cut (m : Loader) : Loader :=
  { m with config :=
      m.config.withMemory (m.config.memory.store (m.config.src + m.p) nul) }

/-- The string from `pvalue` to the NUL at the cursor. -/
def value (m : Loader) : Bytes :=
  cstr ((m.src.drop m.pvalue).take (m.p - m.pvalue + 1))

def key (m : Loader) : Bytes :=
  cstr (m.src.drop m.pkey)

/-- What a Judy search leaves in `index` and returns. -/
def found (index : Bytes) : Option (Bytes × Option ℕ) → Copying
  | some (key, word) => ⟨key, some word⟩
  | none => ⟨index, none⟩

/-- `JSLI` of the pending key, and `pool_cpy` of the pending value with the NUL at the cursor. -/
def insertValue (answer : Malloc) (judy : ℕ → Bool) (m : Loader)
    (continue' : Loader → Loader) : Outcome Loader LoadResult :=
  m.insertWord answer judy m.key (some (m.config.src + m.pvalue, m.p - m.pvalue + 1)) continue'

/-- The body of the main loop. -/
def scanStep (answer : Malloc) (judy : ℕ → Bool) (m : Loader) : Outcome Loader LoadResult :=
  let c := byteAt m.src m.p
  let next := { m with p := m.p + 1 }
  match m.state with
  | .space =>
      if achar c then
        .next { next with pkey := m.p, state := .paramKey }
      else if c = Ascii.space ∨ c = Ascii.tab ∨ c = Ascii.carriageReturn then
        .next next
      else if c = Ascii.newline then
        .next { next with line := m.line + 1 }
      else if c = Ascii.hash then
        .next { next with state := .comment }
      else
        m.fail (.unexpectedSymbol c)
  | .comment =>
      if c = Ascii.newline then
        .next { next with line := m.line + 1, state := .space }
      else
        .next next
  | .paramKey =>
      if achar c then
        .next next
      else if c = Ascii.space ∨ c = Ascii.tab then
        if m.p - m.pkey > CONFIG_KEY_MAX_SIZE then
          m.cut.fail (.keyTooLong m.cut.key (m.p - m.pkey))
        else
          .next { m.cut with state := .paramKeySp, p := m.p + 1 }
      else
        m.fail (.unexpectedSymbol c)
  | .paramKeySp =>
      if c = Ascii.space ∨ c = Ascii.tab then
        .next next
      else if c = Ascii.quote then
        .next { next with pvalue := m.p + 1, state := .paramQtValue }
      else if c = Ascii.atSign then
        .next { next with pvalue := m.p + 1, state := .paramCopyValue }
      else if c = Ascii.carriageReturn ∨ c = Ascii.newline then
        m.fail .unexpectedEndOfLine
      else
        .next { next with pvalue := m.p, state := .paramValue }
  | .paramValue =>
      if c = Ascii.semicolon then
        m.cut.insertValue answer judy fun m => { m with state := .space, p := m.p + 1 }
      else if c = Ascii.newline then
        m.fail .unexpectedEndOfLine
      else
        .next next
  | .paramQtValue =>
      if c = Ascii.backslash ∧ byteAt m.src (m.p + 1) = Ascii.quote then
        .next { m with p := m.p + 2 }
      else if c = Ascii.quote then
        m.cut.insertValue answer judy fun m => { m with state := .paramValueSkip, p := m.p + 1 }
      else if c = Ascii.newline then
        m.fail .unexpectedEndOfLine
      else
        .next next
  | .paramValueSkip =>
      if c = Ascii.semicolon then
        .next { next with state := .space }
      else if c = Ascii.newline then
        m.fail .unexpectedEndOfLine
      else
        .next next
  | .paramCopyValue =>
      if c = Ascii.semicolon then
        if m.p - m.pvalue > CONFIG_KEY_MAX_SIZE then
          m.cut.fail (.copyKeyTooLong (cstr (m.cut.src.drop m.pvalue)) (m.p - m.pvalue))
        else
          .next { m.cut with
            copying := some (found m.cut.value (m.config.data.firstFrom m.cut.value)) }
      else if c = Ascii.newline then
        m.fail .unexpectedEndOfLine
      else
        .next next

/-- One iteration of the copy loop, or its exit.  A key that Judy has written behind the end
of `index`, or `strcat` behind the end of `key`, is a fault. -/
def copyStep (answer : Malloc) (judy : ℕ → Bool) (m : Loader) (copying : Copying) :
    Outcome Loader LoadResult :=
  let n := m.p - m.pvalue
  let leave := { m with copying := none, state := .space, p := m.p + 1 }
  match copying.pw with
  | none => .next leave
  | some k =>
      if copying.index.length > CONFIG_KEY_MAX_SIZE then
        .stuck
      else if strncmpEq copying.index (cstr (m.src.drop m.pvalue)) n then
        let key := m.key ++ copying.index.drop n
        if key.length > CONFIG_KEY_MAX_SIZE then
          .stuck
        else
          m.insertWord answer judy key (k.map fun k => (k, m.config.memory.strlen k + 1)) fun m =>
            { m with
              copying := some (found copying.index (m.config.data.nextAfter copying.index)) }
      else
        .next leave

def step (answer : Malloc) (judy : ℕ → Bool) (m : Loader) : Outcome Loader LoadResult :=
  match m.copying with
  | some copying => m.copyStep answer judy copying
  | none =>
      if m.p < m.stop then
        m.scanStep answer judy
      else
        .ret ⟨OK, m.config.free m.config.src, none⟩

/-- The machine at the start of the buffer, of which `stop` bytes are text. -/
def start (config : ConfigHeap) (stop : ℕ) : Loader :=
  { config, inserts := 0, stop, state := .space, line := 1, p := 0, pkey := 0, pvalue := 0,
    copying := none }

end Loader

/-- `free(config->conf)` when there is one. -/
def freeConf (h : ConfigHeap) : ConfigHeap :=
  match h.conf with
  | none => h
  | some conf => { h.free conf with conf := none }

/-- The part of `config_load` before the main loop.  What `read` has delivered is lost with
`config->src` when it is not the whole file. -/
def configLoadStart (answer : Malloc) (h : ConfigHeap) (file : OpenedFile) :
    Outcome Loader LoadResult :=
  let h := { h with lineError := 0 }
  if file.opens = false then
    .ret ⟨ERROR, h, some .cantOpen⟩
  else
    match file.stSize with
    | none => .ret ⟨ERROR, h, some .cantStat⟩
    | some stSize =>
        match h.freeConf.malloc answer (stSize + 1) with
        | (none, h) => .ret ⟨ERROR, { h with src := 0 }, some .cantMalloc⟩
        | (some src, h) =>
            match { h with src := src }.calloc answer (stSize + 2) with
            | (none, h) => .ret ⟨ERROR, h, some .cantMalloc⟩
            | (some conf, h) =>
                let h := { h with conf := some conf }
                match file.content with
                | none => .ret ⟨ERROR, h.free src, some .cantRead⟩
                | some content =>
                    if content.length ≠ stSize then
                      .ret ⟨ERROR, h.free src, some .cantRead⟩
                    else
                      .next (Loader.start (h.withMemory
                        ((h.memory.write src content).memcpy conf src stSize)) stSize)

/-- `config_load`, with `fuel` steps of the byte machine. -/
def configLoad (answer : Malloc) (judy : ℕ → Bool) (h : ConfigHeap) (file : OpenedFile)
    (fuel : ℕ) : Option LoadResult :=
  run (Loader.step answer judy) fuel (h.configLoadStart answer file)

/-- The part of `config_load2` before the main loop. -/
def configLoad2Start (answer : Malloc) (h : ConfigHeap) (str : Bytes) :
    Outcome Loader LoadResult :=
  match { h with lineError := 0 }.freeConf.calloc answer (strlen str + 1) with
  | (none, h) => .ret ⟨ERROR, { h with src := 0 }, some .cantMalloc⟩
  | (some src, h) =>
      match { h with src := src }.calloc answer (strlen str + 1) with
      | (none, h) => .ret ⟨ERROR, h, some .cantMalloc⟩
      | (some conf, h) =>
          .next (Loader.start ({ h with conf := some conf }.withMemory
            ((h.memory.write src (cstr str)).memcpy conf src (strlen str))) (strlen str))

/-- `config_load2`, with `fuel` steps of the byte machine. -/
def configLoad2 (answer : Malloc) (judy : ℕ → Bool) (h : ConfigHeap) (str : Bytes)
    (fuel : ℕ) : Option LoadResult :=
  run (Loader.step answer judy) fuel (h.configLoad2Start answer str)

/-- `config_get_str` -/
def configGetStr (h : ConfigHeap) (key : Bytes) (default : Option ℕ) : Option ℕ :=
  (h.data.find? key).getD default

/-- `config_get_conf` -/
def configGetConf (h : ConfigHeap) : Option ℕ :=
  h.conf

/-- What is reported through `log_error` while a configuration is made. -/
inductive NewMessage where
  /-- `create pool error` -/
  | createPoolError
  /-- `pool calloc error` -/
  | poolCallocError
  | load (message : LogMessage)

structure NewResult where
  config : Option ConfigHeap
  /-- What has been stored in `*line_error`. -/
  lineError : Option ℕ
  memory : Memory
  blocks : List Region
  /-- The Judy array whose nodes nothing frees. -/
  abandoned : OrdMap Bytes (Option ℕ)
  logged : Option NewMessage

/-- The end of `config_new` and `config_new2`, after the load.  The pool of a load that has failed
is deleted, and the pointer to the Judy array goes with it. -/
def configLoaded (loaded : LoadResult) : Option NewResult :=
  let logged := loaded.logged.map NewMessage.load
  let lineError := some loaded.config.lineError
  if loaded.ret ≠ OK then
    (poolDelete loaded.config.pool).map fun deleted =>
      ⟨none, lineError, deleted.memory, loaded.config.blocks, loaded.config.data, logged⟩
  else
    some ⟨some loaded.config, lineError, loaded.config.memory, loaded.config.blocks, ∅, logged⟩

/-- `config_new` and `config_new2` after `pool_new`. -/
def configInPool (answer : Malloc) (load : ConfigHeap → Option LoadResult)
    (blocks : List Region) (pool : Pool) : Option NewResult :=
  (poolCalloc (answer.beside blocks) 2 pool sizeofConfig).bind fun
    | (none, pool) =>
        (poolDelete pool).map fun deleted =>
          ⟨none, none, deleted.memory, blocks, ∅, some .poolCallocError⟩
    | (some _, pool) => (load ⟨∅, pool, blocks, 0, 0, none⟩).bind configLoaded

/-- `config_new` and `config_new2`, which differ in how they load. -/
def configNewWith (answer : Malloc) (load : ConfigHeap → Option LoadResult) (memory : Memory)
    (blocks : List Region) : Option NewResult :=
  match poolNew (answer.beside blocks) memory configPoolSize configPoolRmdSize with
  | (none, memory) => some ⟨none, none, memory, blocks, ∅, some .createPoolError⟩
  | (some pool, _) => configInPool answer load blocks pool

/-- `config_new` -/
def configNew (answer : Malloc) (judy : ℕ → Bool) (memory : Memory) (blocks : List Region)
    (file : OpenedFile) (fuel : ℕ) : Option NewResult :=
  configNewWith answer (fun h => h.configLoad answer judy file fuel) memory blocks

/-- `config_new2` -/
def configNew2 (answer : Malloc) (judy : ℕ → Bool) (memory : Memory) (blocks : List Region)
    (str : Bytes) (fuel : ℕ) : Option NewResult :=
  configNewWith answer (fun h => h.configLoad2 answer judy str fuel) memory blocks

/-- `config_delete`: the memory and the blocks that are left.  `JSLFA` frees the nodes of the
Judy array. -/
def configDelete (h : ConfigHeap) : Option (Memory × List Region) :=
  (poolDelete h.pool).map fun deleted => (deleted.memory, h.blocks)

end ConfigHeap

end Libhelp
