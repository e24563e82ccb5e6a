import Libhelp.Config.HeapNew
import Libhelp.Lib.Transition

/-!
# What configurations leave in the heap

A process makes configurations and deletes them, one after the other.  Each of them is
deleted without a fault, and its pool is gone then; the copy of the text that `config->conf`
points to is a block outside of the pool, which neither `config_delete` nor anything else
gives back.  A call that has failed leaves one block at most, and the Judy array of the keys
that it had stored.
-/

namespace Libhelp

open Transition StepProgram

/-- The heap of a process, and its configuration. -/
structure ConfigUser where
  memory : Memory
  blocks : List Region
  config : Option ConfigHeap
  /-- The Judy arrays with nodes that nothing points to any more. -/
  arrays : List (OrdMap Bytes (Option ℕ))

/-- The calls that return, and the `config->conf` of the configuration that they have made. -/
inductive ConfigUserEvent where
  | newFile (file : OpenedFile) (conf : Option ℕ)
  | newString (str : Bytes) (conf : Option ℕ)
  | delete

namespace ConfigUser

def receive (user : ConfigUser) (created : ConfigHeap.NewResult) : ConfigUser where
  memory := created.memory
  blocks := created.blocks
  config := created.config
  -- An array without a key is a `NULL`.
  arrays :=
    if created.abandoned.entries = [] then user.arrays else created.abandoned :: user.arrays

def madeConf (created : ConfigHeap.NewResult) : Option ℕ :=
  created.config.bind ConfigHeap.configGetConf

def step (answer : Malloc) (user : ConfigUser) : ConfigUserEvent → ConfigUser → Prop
  | .newFile file conf, after => user.config = none ∧ ∃ judy fuel created,
      ConfigHeap.configNew answer judy user.memory user.blocks file fuel = some created ∧
        madeConf created = conf ∧ after = receive user created
  | .newString str conf, after => user.config = none ∧ ∃ judy fuel created,
      ConfigHeap.configNew2 answer judy user.memory user.blocks str fuel = some created ∧
        madeConf created = conf ∧ after = receive user created
  | .delete, after => ∃ h left, user.config = some h ∧ h.configDelete = some left ∧
      after = ⟨left.1, left.2, none, user.arrays⟩

def system (answer : Malloc) : System ConfigUser ConfigUserEvent where
  init user := user.memory.chunks = [] ∧ user.blocks = [] ∧ user.config = none ∧ user.arrays = []
  step := step answer

/-- The `config->conf` of all configurations that have been made, and the number of calls that
have failed. -/
def record (_ : ConfigUser) : ConfigUserEvent → List ℕ × ℕ → List ℕ × ℕ
  | .newFile _ (some conf), (texts, failed) => (conf :: texts, failed)
  | .newString _ (some conf), (texts, failed) => (conf :: texts, failed)
  | .newFile _ none, (texts, failed) => (texts, failed + 1)
  | .newString _ none, (texts, failed) => (texts, failed + 1)
  | .delete, recorded => recorded

/-- A process without a configuration has no pool; a configuration represents one on strings. -/
structure Sound (user : ConfigUser) : Prop where
  idle : user.config = none → ConfigHeap.Idle user.memory user.blocks
  represents : ∀ h, user.config = some h → h.blocks = user.blocks ∧
    ∃ config live, h.Represents config live

variable {answer : Malloc} {user after : ConfigUser} {texts : List ℕ} {failed : ℕ}
  {before : List Region}
  {memory : Memory} {created : ConfigHeap.NewResult} {h : ConfigHeap}
  {start : ConfigHeap → Outcome ConfigHeap.Loader ConfigHeap.LoadResult}

theorem idle_of_eq {blocks : List Region} (empty : memory.chunks = []) (same : blocks = before)
    (apart : before.Pairwise Region.Apart) (nonempty : ∀ block ∈ before, block.size ≠ 0) :
    ConfigHeap.Idle memory blocks := by
  subst same
  exact ⟨empty, apart, nonempty⟩

theorem sound_of_none (none : user.config = none)
    (idle : ConfigHeap.Idle user.memory user.blocks) : user.Sound where
  idle _ := idle
  represents h isConfig := absurd (none.symm.trans isConfig) (Option.some_ne_none h ∘ Eq.symm)

theorem sound_of_some (isConfig : user.config = some h) (same : h.blocks = user.blocks)
    (represents : ∃ config live, h.Represents config live) : user.Sound where
  idle none := absurd (none.symm.trans isConfig) (Option.some_ne_none h ∘ Eq.symm)
  represents _ isConfig' :=
    Option.some.inj (isConfig.symm.trans isConfig') ▸ ⟨same, represents⟩

/-- What a call adds to the blocks: `config->conf`, or one block at most. -/
inductive Added (before : List Region) (created : ConfigHeap.NewResult) : Prop where
  | made (conf size : ℕ) (isConf : madeConf created = some conf)
      (blocks : created.blocks = ⟨conf, size⟩ :: before) (noArray : created.abandoned = ∅)
  | failed (lost : List Region) (noConf : madeConf created = none)
      (blocks : created.blocks = lost ++ before) (atMost : lost.length ≤ 1)

theorem sound_receive (sound : answer.Sound) (idle : ConfigHeap.Idle memory before) {fuel : ℕ}
    {judy : ℕ → Bool}
    (starts : ∀ h live, ConfigHeap.Fresh before h live →
      ∃ start', ConfigHeap.Started before live start' (start h))
    (returned : ConfigHeap.configNewWith answer
      (fun h => run (ConfigHeap.Loader.step answer judy) fuel (start h)) memory before =
        some created) :
    (user.receive created).Sound ∧ Added before created := by
  have represented : ∀ h live loaded, ConfigHeap.Fresh before h live →
      run (ConfigHeap.Loader.step answer judy) fuel (start h) = some loaded →
        ConfigHeap.Lost before loaded ∧ ∃ config live', loaded.config.Represents config live' := by
    intro h live loaded fresh loads
    rcases starts h live fresh with ⟨start', started⟩
    rcases started.returned sound loads with ⟨alloc, result, live', -, represents, lost⟩
    exact ⟨lost, result.config, live', represents.config⟩
  rcases ConfigHeap.configNewWith_some sound idle
    (fun h live loaded fresh loads => (represented h live loaded fresh loads).2) returned with
    noPool | ⟨h, live, loaded, fresh, loads, cases⟩
  · constructor
    · apply sound_of_none noPool.noConfig
      exact idle_of_eq noPool.chunks noPool.blocks idle.apart idle.nonempty
    · exact .failed [] (by rw [madeConf, noPool.noConfig]; rfl) noPool.blocks (Nat.zero_le _)
  · rcases represented h live loaded fresh loads with ⟨lost, config, live', represents⟩
    rcases cases with failed | accepted
    · constructor
      · apply sound_of_none failed.noConfig
        exact idle_of_eq failed.chunks failed.blocks represents.apart represents.nonempty
      · rcases lost.blocks with ⟨blocks, same, atMost⟩
        exact .failed blocks (by rw [madeConf, failed.noConfig]; rfl) (failed.blocks.trans same)
          atMost
    · rcases lost.accepted accepted.accepted with ⟨conf, size, isConf, same⟩
      constructor
      · exact sound_of_some accepted.config accepted.blocks.symm ⟨config, live', represents⟩
      · exact .made conf size (by rw [madeConf, accepted.config]; exact isConf)
          (accepted.blocks.trans same) accepted.abandoned

theorem starts_file (sound : answer.Sound) (before : List Region) (file : OpenedFile)
    (h : ConfigHeap)
    (live : List Region) (fresh : ConfigHeap.Fresh before h live) : ∃ start',
      ConfigHeap.Started before live start' (h.configLoadStart answer file) := by
  rcases ConfigHeap.configLoadStart_started sound fresh.represents fresh.noConf file with
    ⟨junk, started⟩
  rw [fresh.blocks] at started
  exact ⟨_, started⟩

theorem starts_string (sound : answer.Sound) (before : List Region) (str : Bytes) (h : ConfigHeap)
    (live : List Region) (fresh : ConfigHeap.Fresh before h live) : ∃ start',
      ConfigHeap.Started before live start' (h.configLoad2Start answer str) := by
  have started := ConfigHeap.configLoad2Start_started sound fresh.represents fresh.noConf str
  rw [fresh.blocks] at started
  exact ⟨_, started⟩

/-- The blocks are the texts and those of the calls that have failed. -/
structure Counted (user : ConfigUser) (texts : List ℕ) (failed : ℕ) : Prop where
  kept : texts.Sublist (user.blocks.map Region.addr)
  blocks : user.blocks.length ≤ texts.length + failed
  arrays : user.arrays.length ≤ failed
  nonempty : ∀ array ∈ user.arrays, array.entries ≠ []

theorem deletes (holds : user.Sound) (isConfig : user.config = some h) : ∃ left,
    h.configDelete = some left ∧ left.1.chunks = [] ∧ left.2 = user.blocks := by
  rcases holds.represents h isConfig with ⟨blocks, config, live, represents⟩
  rcases represents.poolDelete with ⟨deleted, deletes, empty⟩
  refine ⟨(deleted.memory, h.blocks), ?_, empty, blocks⟩
  rw [ConfigHeap.configDelete, deletes]
  rfl

theorem sound_delete {left : Memory × List Region} (holds : user.Sound)
    (isConfig : user.config = some h) (deleted : h.configDelete = some left) :
    left.2 = user.blocks ∧ Sound ⟨left.1, left.2, none, user.arrays⟩ := by
  rcases deletes holds isConfig with ⟨left', deleted', empty, blocks⟩
  rcases Option.some.inj (deleted'.symm.trans deleted) with rfl
  rcases holds.represents h isConfig with ⟨same, config, live, represents⟩
  refine ⟨blocks, sound_of_none rfl ?_⟩
  exact idle_of_eq empty (blocks.trans same.symm) represents.apart represents.nonempty

theorem counted_receive (counted : Counted user texts failed)
    (added : Added user.blocks created) :
    match madeConf created with
    | some conf => Counted (user.receive created) (conf :: texts) failed
    | none => Counted (user.receive created) texts (failed + 1) := by
  have nonempty : ∀ array ∈ (user.receive created).arrays, array.entries ≠ [] := by
    unfold receive
    dsimp only
    split_ifs with none
    · exact counted.nonempty
    · exact List.forall_mem_cons.mpr ⟨none, counted.nonempty⟩
  have received : (user.receive created).blocks = created.blocks := rfl
  cases added with
  | made conf size isConf blocks noArray =>
      rw [isConf]
      refine ⟨?_, ?_, ?_, nonempty⟩
      · rw [received, blocks]
        exact counted.kept.cons_cons conf
      · rw [received, blocks, List.length_cons, List.length_cons, Nat.add_right_comm]
        exact Nat.succ_le_succ counted.blocks
      · have noEntries : created.abandoned.entries = [] := by
          rw [noArray]
          rfl
        rw [receive, if_pos noEntries]
        exact counted.arrays
  | failed lost noConf blocks atMost =>
      rw [noConf]
      refine ⟨?_, ?_, ?_, nonempty⟩
      · rw [received, blocks, List.map_append]
        exact counted.kept.trans (List.sublist_append_right _ _)
      · have fewer := counted.blocks
        rw [received, blocks, List.length_append]
        omega
      · unfold receive
        dsimp only
        split_ifs
        · exact counted.arrays.trans (Nat.le_succ _)
        · exact Nat.succ_le_succ counted.arrays

/-- A step keeps the process sound, and what it leaves counted. -/
theorem kept_step {event : ConfigUserEvent} (sound : answer.Sound) (holds : user.Sound)
    (counted : Counted user texts failed) (stepped : user.step answer event after) :
    after.Sound ∧ Counted after (record user event (texts, failed)).1
      (record user event (texts, failed)).2 := by
  cases event with
  | newFile file conf =>
      rcases stepped with ⟨none, judy, fuel, created, returned, isConf, rfl⟩
      have received : (user.receive created).Sound ∧ Added user.blocks created :=
        sound_receive sound (holds.idle none) (starts_file sound user.blocks file) returned
      have counted' := counted_receive counted received.2
      rw [isConf] at counted'
      refine ⟨received.1, ?_⟩
      cases conf with
      | some conf => exact counted'
      | none => exact counted'
  | newString str conf =>
      rcases stepped with ⟨none, judy, fuel, created, returned, isConf, rfl⟩
      have received : (user.receive created).Sound ∧ Added user.blocks created :=
        sound_receive sound (holds.idle none) (starts_string sound user.blocks str) returned
      have counted' := counted_receive counted received.2
      rw [isConf] at counted'
      refine ⟨received.1, ?_⟩
      cases conf with
      | some conf => exact counted'
      | none => exact counted'
  | delete =>
      rcases stepped with ⟨h, left, isConfig, deleted, rfl⟩
      rcases sound_delete holds isConfig deleted with ⟨blocks, holds'⟩
      refine ⟨holds', ?_, ?_, counted.arrays, counted.nonempty⟩
      · exact blocks ▸ counted.kept
      · exact blocks ▸ counted.blocks

/-- In every run a configuration is deleted without a fault, after which the pool is gone; but the
blocks that `config->conf` has pointed to stay, and a call that has failed leaves one block and
one Judy array at most. -/
theorem texts_kept (sound : answer.Sound)
    (reachable : ((system answer).recording ([], 0) record).Reachable (user, texts, failed)) :
    (user.config = none → user.memory.chunks = []) ∧
      (∀ h, user.config = some h → ∃ left, h.configDelete = some left ∧ left.1.chunks = [] ∧
        left.2 = user.blocks) ∧
      texts.Sublist (user.blocks.map Region.addr) ∧ user.blocks.length ≤ texts.length + failed ∧
      user.arrays.length ≤ failed ∧ ∀ array ∈ user.arrays, array.entries ≠ [] := by
  have kept : user.Sound ∧ Counted user texts failed := by
    apply reachable.invariant (I := fun state => state.1.Sound ∧
      Counted state.1 state.2.1 state.2.2)
    · rintro ⟨user, recorded⟩ ⟨⟨chunks, blocks, none, arrays⟩, rfl⟩
      have noBlocks : user.blocks = [] := blocks
      have noArrays : user.arrays = [] := arrays
      refine ⟨sound_of_none none (idle_of_eq chunks blocks .nil (by simp)), ?_⟩
      constructor <;> simp [noBlocks, noArrays]
    · rintro ⟨before, recorded⟩ event ⟨after, recorded'⟩ ⟨holds, counted⟩ ⟨stepped, rfl⟩
      exact kept_step sound holds counted stepped
  exact ⟨fun none => (kept.1.idle none).empty, fun h isConfig => deletes kept.1 isConfig,
    kept.2.kept, kept.2.blocks, kept.2.arrays, kept.2.nonempty⟩

/-- The text `a b;!` is not accepted; then `a b;` is loaded, and the configuration deleted. -/
theorem texts_kept_deleted : ∃ (user : ConfigUser) (conf : ℕ), user.config = none ∧
    user.memory.chunks = [] ∧ [conf].Sublist (user.blocks.map Region.addr) ∧
      user.blocks.length ≤ 2 ∧ user.arrays.length = 1 := by
  have areMade : ((ConfigHeap.configNew2 PoolClient.nextMalloc ample ⟨[], 0, fun _ => 0⟩ []
      [97, 32, 98, 59, 33] 20).bind fun refused =>
        if madeConf refused = none ∧ refused.config.isSome = false ∧
            refused.abandoned.entries ≠ [] then
          (ConfigHeap.configNew2 PoolClient.nextMalloc ample refused.memory refused.blocks
            [97, 32, 98, 59] 20).bind fun created => created.config.bind fun h =>
              h.conf.map fun conf => (h, conf)
        else
          none).isSome := by
    decide +kernel
  rcases Option.isSome_iff_exists.mp areMade with ⟨made, isMade⟩
  rcases Option.bind_eq_some_iff.mp isMade with ⟨refused, first, isMade⟩
  split_ifs at isMade with isRefused
  rcases isRefused with ⟨noConf, noConfig, stored⟩
  rcases Option.bind_eq_some_iff.mp isMade with ⟨created, second, isMade⟩
  rcases Option.bind_eq_some_iff.mp isMade with ⟨h, isConfig, isMade⟩
  rcases Option.map_eq_some_iff.mp isMade with ⟨conf, isConf, -⟩
  have begun : ((system PoolClient.nextMalloc).recording ([], 0) record).Reachable
      (⟨⟨[], 0, fun _ => 0⟩, [], none, []⟩, ([], 0)) := .init ⟨⟨rfl, rfl, rfl, rfl⟩, rfl⟩
  have failed : ((system PoolClient.nextMalloc).recording ([], 0) record).Reachable
      (receive ⟨⟨[], 0, fun _ => 0⟩, [], none, []⟩ refused, ([], 1)) :=
    .step (.newString [97, 32, 98, 59, 33] none) begun
      ⟨⟨rfl, ample, 20, refused, first, noConf, rfl⟩, rfl⟩
  have loaded : ((system PoolClient.nextMalloc).recording ([], 0) record).Reachable
      (receive (receive ⟨⟨[], 0, fun _ => 0⟩, [], none, []⟩ refused) created, ([conf], 1)) :=
    .step (.newString [97, 32, 98, 59] (some conf)) failed
      ⟨⟨Option.not_isSome_iff_eq_none.mp (Bool.eq_false_iff.mp noConfig), ample, 20, created, second,
        Option.bind_eq_some_iff.mpr ⟨h, isConfig, isConf⟩, rfl⟩, rfl⟩
  rcases (texts_kept PoolClient.nextMalloc_sound loaded).2.1 h isConfig with ⟨left, deleted, -⟩
  have last : ((system PoolClient.nextMalloc).recording ([], 0) record).Reachable
      (⟨left.1, left.2, none, _⟩, ([conf], 1)) :=
    .step .delete loaded ⟨⟨h, left, isConfig, deleted, rfl⟩, rfl⟩
  rcases texts_kept PoolClient.nextMalloc_sound last with
    ⟨empty, -, kept, upper, atMost, nonempty⟩
  refine ⟨_, conf, rfl, empty rfl, kept, upper, le_antisymm atMost ?_⟩
  simp only [receive, if_neg stored]
  split_ifs <;> simp

end ConfigUser

end Libhelp
