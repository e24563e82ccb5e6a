import Libhelp.Config.HeapLoad
import Libhelp.Config.CopyStatement
import Libhelp.Config.FileLoad
import Libhelp.Config.Memory

/-!
# Configurations in memory from the first call to the last

What `config_new` and `config_new2` make of a text in memory is what the statements of the
text make of a store: each key that is bound points to its value, in the pool.  They return
wherever the statements have an effect.

The pool is gone after a load that has failed and after `config_delete`; the text that
`config->conf` points to is not in the pool, and nothing frees it.
-/

namespace Libhelp

open StepProgram CString

theorem returns_ample_of_ok {alloc : ℕ → Bool} {fuel : ℕ} {m : Loader}
    {result : Libhelp.LoadResult}
    (returned : run (Loader.step alloc) fuel (.next m) = some result) (accepted : result.ret = OK) :
    Returns (Loader.step ample) (.next m) result := by
  induction fuel generalizing m with
  | zero => simp at returned
  | succ fuel ih =>
      rw [run_next_succ] at returned
      rw [returns_next_iff]
      rcases step_memory alloc m with same | ⟨refused, left, rejected, -⟩
      · rw [same] at returned
        cases stepped : Loader.step ample m with
        | next m' =>
            rw [stepped] at returned
            exact ih returned
        | ret value =>
            rw [stepped, run_ret] at returned
            rw [returns_ret_iff]
            exact Option.some.inj returned
        | stuck =>
            rw [stepped] at returned
            simp at returned
      · rw [left, run_ret] at returned
        cases returned
        rw [accepted] at rejected
        exact absurd rejected (by decide)

/-- A load that is accepted has not run out of memory. -/
theorem loads_ample_of_ok {alloc : ℕ → Bool} {config : Config} {text : Bytes}
    {result : Libhelp.LoadResult} (loads : Loads alloc config text result)
    (accepted : result.ret = OK) : Loads ample config text result := by
  rcases loads with ⟨fuel, returned⟩
  unfold configLoad2 configLoad2Start at returned
  dsimp only at returned
  split_ifs at returned
  · rw [run_ret] at returned
    cases returned
    exact absurd (show ERROR = OK from accepted) (by decide)
  · rw [run_ret] at returned
    cases returned
    exact absurd (show ERROR = OK from accepted) (by decide)
  · exact returns_ample_of_ok returned accepted

theorem Scan.result_conf {s : Scan} {config : Config} {data : Store} :
    (s.result config data).config.conf = config.conf := by
  unfold Scan.result
  split <;> rfl

namespace ConfigHeap

variable {answer : Malloc} {judy : ℕ → Bool} {h : ConfigHeap} {config : Config}
  {live live' : List Region} {size p : ℕ} {fuel : ℕ}

section New

variable {memory : Memory} {before : List Region} {load : ConfigHeap → Option LoadResult}
  {created : NewResult}

/-- The configuration that `config_new` and `config_new2` load into. -/
structure Fresh (before : List Region) (h : ConfigHeap) (live : List Region) : Prop where
  represents : h.Represents Config.new live
  noConf : h.conf = none
  blocks : h.blocks = before

/-- No configuration has been made, and no pool is left. -/
structure NoPool (before : List Region) (created : NewResult) : Prop where
  noConfig : created.config = none
  line : created.lineError = none
  chunks : created.memory.chunks = []
  blocks : created.blocks = before
  abandoned : created.abandoned = ∅

/-- What a load comes to when it does not return `OK`: the pool is deleted, and the keys that have
been stored stay where they are. -/
structure Failed (loaded : LoadResult) (created : NewResult) : Prop where
  rejected : loaded.ret ≠ OK
  noConfig : created.config = none
  line : created.lineError = some loaded.config.lineError
  chunks : created.memory.chunks = []
  blocks : created.blocks = loaded.config.blocks
  abandoned : created.abandoned = loaded.config.data

structure Accepted (loaded : LoadResult) (created : NewResult) : Prop where
  accepted : loaded.ret = OK
  config : created.config = some loaded.config
  line : created.lineError = some loaded.config.lineError
  memory : created.memory = loaded.config.memory
  blocks : created.blocks = loaded.config.blocks
  abandoned : created.abandoned = ∅

/-- Deleting the pool of a configuration frees all its chunks. -/
theorem Represents.poolDelete (represents : h.Represents config live) :
    ∃ deleted, poolDelete h.pool = some deleted ∧ deleted.memory.chunks = [] := by
  rcases represents.holds.poolDelete represents.counted (by decide) with
    ⟨deleted, deletes, nothing, -⟩
  exact ⟨deleted, deletes, nothing.chunks.eq_nil⟩

/-- The heap of a process before `config_new`: blocks, and no pool. -/
structure Idle (memory : Memory) (before : List Region) : Prop where
  empty : memory.chunks = []
  apart : before.Pairwise Region.Apart
  nonempty : ∀ block ∈ before, block.size ≠ 0

theorem poolNew_none {after : Memory}
    (failed : poolNew answer memory size p = (none, after)) : after.chunks = memory.chunks := by
  unfold poolNew at failed
  split at failed
  case h_1 refused =>
    cases failed
    exact poolNewBlock_none refused
  case h_2 => cases failed

theorem poolCalloc_returns {pool : Pool} (holds : pool.Holds configPoolSize live)
    (answer : Malloc) (size : ℕ) : ∃ returned, poolCalloc answer 2 pool size = some returned := by
  have allocated : ∃ returned, poolAlloc answer 2 pool size = some returned :=
    holds.returns (by decide) size
  rcases allocated with ⟨returned, returns⟩
  exact ⟨_, congrArg (Option.map _) returns⟩

theorem represents_poolNew {pool : Pool} {after : Memory} (sound : answer.Sound)
    (idle : Idle memory before)
    (created : poolNew (answer.beside before) memory configPoolSize configPoolRmdSize =
      (some pool, after)) : Represents ⟨∅, pool, before, 0, 0, none⟩ Config.new [] := by
  have sound' := beside_sound sound before
  constructor
  case data => exact OrdMap.related_empty
  case lineError => rfl
  case conf => exact .none
  case holds => exact Pool.poolNew_holds sound' (by decide) idle.empty created
  case counted => exact Pool.poolNew_counted sound' idle.empty created
  case beside =>
    rcases poolNew_some created with ⟨head, createdBlock, rfl⟩
    rcases poolNewBlock_some createdBlock with ⟨answered, chunks, -⟩
    intro chunk isChunk block isBlock
    have isNew : chunk = ⟨head.addr, configPoolSize⟩ := by
      have inChunks : chunk ∈ after.chunks := isChunk
      rw [chunks, idle.empty] at inChunks
      exact List.mem_singleton.mp inChunks
    rw [isNew]
    exact sound.fresh answered block (List.mem_append_left _ isBlock)
  case apart => exact idle.apart
  case nonempty => exact idle.nonempty

theorem configLoaded_cases {loaded : LoadResult}
    (represents : loaded.config.Represents config live) : ∃ created,
    configLoaded loaded = some created ∧ (Failed loaded created ∨ Accepted loaded created) := by
  unfold configLoaded
  split_ifs with rejected
  · rcases represents.poolDelete with ⟨deleted, deletes, empty⟩
    rw [deletes]
    exact ⟨_, rfl, .inl ⟨rejected, rfl, rfl, empty, rfl, rfl⟩⟩
  · exact ⟨_, rfl, .inr ⟨not_ne_iff.mp rejected, rfl, rfl, rfl, rfl, rfl⟩⟩

/-- In a new pool there is a configuration to load into, or no memory for one. -/
theorem configInPool_cases {pool : Pool} (sound : answer.Sound)
    (represents : Represents ⟨∅, pool, before, 0, 0, none⟩ Config.new []) :
    (∃ created, configInPool answer load before pool = some created ∧ NoPool before created) ∨
      ∃ h live, Fresh before h live ∧
        configInPool answer load before pool = (load h).bind configLoaded := by
  have holds : pool.Holds configPoolSize [] := represents.holds
  rcases poolCalloc_returns holds (answer.beside before) sizeofConfig with ⟨⟨p, pool'⟩, allocated⟩
  rcases Pool.allocates_poolCalloc (beside_sound sound before) (by decide) (by decide) holds
    allocated with ⟨allocates, -⟩
  have represents' : Represents ⟨∅, pool', before, 0, 0, none⟩ Config.new _ :=
    (represents.allocates sound allocates).1
  rw [configInPool, allocated, Option.bind_some]
  cases p with
  | none =>
      have deletes : ∃ deleted, poolDelete pool' = some deleted ∧ _ := represents'.poolDelete
      rcases deletes with ⟨deleted, deletes, empty⟩
      refine .inl ⟨⟨none, none, deleted.memory, before, ∅, some .poolCallocError⟩, ?_, rfl, rfl,
        empty, rfl, rfl⟩
      simp only [deletes]
      rfl
  | some p => exact .inr ⟨_, _, ⟨represents', rfl, rfl⟩, rfl⟩

theorem configNewWith_cases (sound : answer.Sound) (idle : Idle memory before)
    (load : ConfigHeap → Option LoadResult) :
    (∃ created, configNewWith answer load memory before = some created ∧
      NoPool before created) ∨
      ∃ h live, Fresh before h live ∧
        configNewWith answer load memory before = (load h).bind configLoaded := by
  rcases new : poolNew (answer.beside before) memory configPoolSize configPoolRmdSize with
    ⟨pool, after⟩
  rw [configNewWith, new]
  cases pool with
  | none =>
      refine .inl ⟨⟨none, none, after, before, ∅, some .createPoolError⟩, rfl, rfl, rfl, ?_, rfl,
        rfl⟩
      show after.chunks = []
      rw [poolNew_none new, idle.empty]
  | some pool => exact configInPool_cases sound (represents_poolNew sound idle new)

/-- What `config_new` and `config_new2` return is read off the load. -/
theorem configNewWith_some (sound : answer.Sound) (idle : Idle memory before)
    (represented : ∀ h live loaded, Fresh before h live → load h = some loaded →
      ∃ config live', loaded.config.Represents config live')
    (returned : configNewWith answer load memory before = some created) :
    NoPool before created ∨ ∃ h live loaded, Fresh before h live ∧ load h = some loaded ∧
      (Failed loaded created ∨ Accepted loaded created) := by
  rcases configNewWith_cases sound idle load with ⟨made, same, noPool⟩ | ⟨h, live, fresh, same⟩
  · rw [same] at returned
    cases returned
    exact .inl noPool
  · rw [same] at returned
    rcases Option.bind_eq_some_iff.mp returned with ⟨loaded, loads, made⟩
    rcases represented h live loaded fresh loads with ⟨config, live', represents⟩
    rcases configLoaded_cases represents with ⟨made', same', cases⟩
    rw [same'] at made
    cases made
    exact .inr ⟨h, live, loaded, fresh, loads, cases⟩

end New

section Text

variable {memory : Memory} {before : List Region} {created : NewResult} {text : Bytes}
  {start : ConfigHeap → Outcome Loader LoadResult}

/-- A loader that reads a text: what it begins with is begun with the string of the text. -/
def Reads (before : List Region) (text : Bytes) (start : ConfigHeap → Outcome Loader LoadResult) :
    Prop :=
  ∀ h live, Fresh before h live → ∃ start', Started before live start' (start h) ∧
    ∀ alloc fuel, run (Libhelp.Loader.stepWithin alloc) fuel (start' alloc) =
      run (Libhelp.Loader.stepWithin alloc) fuel
        (Libhelp.configLoad2Start alloc Config.new text)

/-- `config_get_str` answers as a store tells, with pointers to its strings. -/
def Serves (h : ConfigHeap) (data : Store) : Prop :=
  ∀ key default, (data.find? key = none → h.configGetStr key default = default) ∧
    ∀ value, data.find? key = some (some value) →
      ∃ p, h.configGetStr key default = some p ∧ h.memory.HasString p value

theorem TextIn.string {regions : List Region} {word : Option ℕ} {string : Bytes}
    (textIn : TextIn memory regions word (some string)) :
    ∃ p, word = some p ∧ memory.HasString p string := by
  cases textIn with
  | some inRegion =>
      rcases inRegion with ⟨size, -, -, isString⟩
      exact ⟨_, rfl, isString⟩

theorem Represents.serves (represents : h.Represents config live) : h.Serves config.data := by
  intro key default
  have found := represents.data.find? key
  constructor
  · intro absent
    rw [absent] at found
    unfold ConfigHeap.configGetStr
    generalize h.data.find? key = word at found
    cases found
    rfl
  · intro value stored
    rw [stored] at found
    unfold ConfigHeap.configGetStr
    generalize h.data.find? key = word at found
    cases found with
    | some textIn => exact textIn.string

theorem Reads.represented (sound : answer.Sound) (free : NulFree text)
    (reads : Reads before text start) {loaded : LoadResult} (fresh : Fresh before h live)
    (loads : run (Loader.step answer judy) fuel (start h) = some loaded) :
    ∃ alloc result live', Loads alloc Config.new text result ∧ KeysFitIn result.config.data ∧
      loaded.Represents result live' ∧ Lost before loaded := by
  rcases reads h live fresh with ⟨start', started, same⟩
  rcases started.returned sound loads with ⟨alloc, result, live', returned, represents, lost⟩
  rw [same] at returned
  have noKeys : StoreOk Config.new.data := by simp [StoreOk, Config.new]
  have fit := storeOk_of_within noKeys free returned
  exact ⟨alloc, result, live', ⟨fuel, run_of_within returned⟩, fit.keysFitIn, represents, lost⟩

/-- An accepted text has had its effect, with keys that fit the buffers, and a text with an error
has an error on that line. -/
theorem Reads.serves (sound : answer.Sound) (idle : Idle memory before) (free : NulFree text)
    (reads : Reads before text start)
    (returned : configNewWith answer (fun h => run (Loader.step answer judy) fuel (start h))
      memory before = some created) :
    (∀ h, created.config = some h → created.lineError = some 0 ∧
      (scan text).mode.isFailed = false ∧ ∃ data, Exec ∅ (stmts text) data ∧ KeysFitIn data ∧
        h.Serves data ∧ ∃ p, h.configGetConf = some p ∧ h.memory.HasString p text) ∧
      (created.config = none → created.memory.chunks = [] ∧
        ∀ line, created.lineError = some line → line ≠ 0 →
          (scan text).mode.isFailed = true ∧ line = (scan text).line) := by
  have represented : ∀ h live loaded, Fresh before h live →
      run (Loader.step answer judy) fuel (start h) = some loaded →
        ∃ config live', loaded.config.Represents config live' := by
    intro h live loaded fresh loads
    rcases reads.represented sound free fresh loads with ⟨-, result, live', -, -, represents, -⟩
    exact ⟨result.config, live', represents.config⟩
  rcases configNewWith_some sound idle represented returned with
    noPool | ⟨h, live, loaded, fresh, loads, cases⟩
  · refine ⟨?_, ?_⟩
    · intro h isConfig
      rw [noPool.noConfig] at isConfig
      cases isConfig
    · intro _
      refine ⟨noPool.chunks, ?_⟩
      intro line isLine
      rw [noPool.line] at isLine
      cases isLine
  · rcases reads.represented sound free fresh loads with
      ⟨alloc, result, live', loadsText, fit, represents, -⟩
    rcases cases with failed | accepted
    · refine ⟨?_, ?_⟩
      · intro h isConfig
        rw [failed.noConfig] at isConfig
        cases isConfig
      · intro _
        refine ⟨failed.chunks, ?_⟩
        intro line isLine reports
        rw [failed.line, represents.config.lineError] at isLine
        cases isLine
        rcases (loads_iff free).mp (loads_ample_of_lineError loadsText reports) with
          ⟨data, -, rfl⟩
        rw [Scan.result_lineError] at reports ⊢
        cases isFailed : (scan text).mode.isFailed with
        | false =>
            rw [isFailed] at reports
            exact absurd rfl reports
        | true => exact ⟨rfl, if_pos rfl⟩
    · refine ⟨?_, ?_⟩
      · intro h isConfig
        rw [accepted.config] at isConfig
        cases isConfig
        have isOk : result.ret = OK := represents.ret.symm.trans accepted.accepted
        rcases (loads_iff free).mp (loads_ample_of_ok loadsText isOk) with ⟨data, exec, rfl⟩
        have notFailed := Scan.result_ret_ok_iff.mp isOk
        refine ⟨?_, notFailed, data, exec, ?_, ?_, ?_⟩
        · rw [accepted.line, represents.config.lineError, Scan.result_lineError, notFailed]
          rfl
        · rw [Scan.result_data] at fit
          exact fit
        · have serves := represents.config.serves
          rw [Scan.result_data] at serves
          exact serves
        · have conf := represents.config.conf
          rw [Scan.result_conf] at conf
          exact conf.string
      · intro noConfig
        rw [accepted.config] at noConfig
        cases noConfig

theorem Reads.returns (sound : answer.Sound) (judy : ℕ → Bool) (idle : Idle memory before)
    (free : NulFree text) (reads : Reads before text start) {data : Store}
    (exec : Exec ∅ (stmts text) data) (fit : KeysFitIn data) : ∃ fuel created,
      configNewWith answer (fun h => run (Loader.step answer judy) fuel (start h)) memory before =
        some created := by
  have loads : Loads ample Config.new text _ := (loads_iff free).mpr ⟨data, exec, rfl⟩
  rcases loads with ⟨fuel, returned⟩
  have within := configLoad2_within returned (by rwa [Scan.result_data])
  refine ⟨fuel, ?_⟩
  rcases configNewWith_cases sound idle fun h => run (Loader.step answer judy) fuel (start h) with
    ⟨created, same, -⟩ | ⟨h, live, fresh, same⟩
  · exact ⟨created, same⟩
  · rcases reads h live fresh with ⟨start', started, alike⟩
    rcases started.returns sound judy ((alike ample fuel).trans within) with ⟨loaded, loads⟩
    rcases started.returned sound loads with ⟨alloc, result, live', -, represents, -⟩
    rcases configLoaded_cases represents.config with ⟨created, made, -⟩
    refine ⟨created, ?_⟩
    rw [same, loads]
    exact made

end Text

end ConfigHeap

end Libhelp
