import Libhelp.Config.HeapRefinement

/-!
# Loads in memory

The part of a load before the main loop obtains two blocks and fills them with the text, or
it is left with an error.  A load in memory then returns what the load on strings returns,
and it leaves one block at most outside of the pool: the text in `config->conf`, or
`config->src` where there is no memory for a second block.
-/

namespace Libhelp

open StepProgram CString

namespace ConfigHeap

variable {answer : Malloc} {judy : ℕ → Bool} {h after : ConfigHeap} {config : Config}
  {live live' : List Region} {size p : ℕ} {str : Bytes} {fuel : ℕ} {result : LoadResult}

section Blocks

/-- What a call of `malloc` or `calloc` leaves: a new block, or none. -/
inductive Requested (h : ConfigHeap) (config : Config) (live : List Region) (size : ℕ) :
    Option ℕ × ConfigHeap → Prop where
  | refused (after : ConfigHeap) (represents : after.Represents config live)
      (keeps : h.Keeps live after live) (blocks : after.blocks = h.blocks)
      (src : after.src = h.src) (conf : after.conf = h.conf) :
      Requested h config live size (none, after)
  | granted (p : ℕ) (after : ConfigHeap) (represents : after.Represents config live)
      (keeps : h.Keeps (live ++ h.blocks) after (live ++ h.blocks))
      (fresh : ∀ block ∈ h.blocks, block.addr ≠ p)
      (blocks : after.blocks = ⟨p, size⟩ :: h.blocks) (src : after.src = h.src)
      (conf : after.conf = h.conf) : Requested h config live size (some p, after)

theorem Represents.called (represents : h.Represents config live) {memory : Memory}
    (bytes : memory.bytes = h.memory.bytes) (chunks : memory.chunks = h.memory.chunks) :
    (h.withMemory memory).Represents config live := by
  have reads : ∀ {regions : List Region}, ∀ region ∈ regions, region ∈ regions ∧
      memory.read region.addr region.size = h.memory.read region.addr region.size := by
    intro regions region isRegion
    exact ⟨isRegion, Memory.read_congr fun _ _ => congrFun bytes _⟩
  constructor
  case data => exact represents.data.mono fun _ _ textIn => textIn.keeps reads
  case lineError => exact represents.lineError
  case conf => exact represents.conf.keeps reads
  case holds => exact represents.holds.written ⟨memory, rfl, chunks⟩
  case counted => exact represents.counted.congr rfl chunks
  case beside =>
    intro chunk isChunk
    exact represents.beside chunk (chunks ▸ isChunk)
  case apart => exact represents.apart
  case nonempty => exact represents.nonempty

theorem requested_malloc (sound : answer.Sound) (represents : h.Represents config live)
    (nonzero : size ≠ 0) : h.Requested config live size (h.malloc answer size) := by
  have called : (h.withMemory { h.memory with calls := h.memory.calls + 1 }).Represents config
      live :=
    represents.called rfl rfl
  unfold ConfigHeap.malloc
  cases answered : answer h.memory.calls (h.blocks ++ h.memory.chunks) size with
  | none => exact .refused _ called (fun _ isLive => ⟨isLive, rfl⟩) rfl rfl rfl
  | some p =>
      have apart : ∀ block ∈ h.blocks ++ h.memory.chunks, Region.Apart ⟨p, size⟩ block :=
        sound.fresh answered
      refine .granted p _ ?_ (fun _ isRegion => ⟨isRegion, rfl⟩) ?_ rfl rfl rfl
      · constructor
        case data => exact called.data
        case lineError => exact called.lineError
        case conf =>
          apply called.conf.keeps
          intro block isBlock
          exact ⟨List.mem_cons_of_mem _ isBlock, rfl⟩
        case holds => exact called.holds
        case counted => exact called.counted
        case beside =>
          intro chunk isChunk
          have new := apart chunk (List.mem_append_right _ isChunk)
          exact List.forall_mem_cons.mpr ⟨new.symm, represents.beside chunk isChunk⟩
        case apart =>
          have new : ∀ block ∈ h.blocks, Region.Apart ⟨p, size⟩ block :=
            fun block isBlock => apart block (List.mem_append_left _ isBlock)
          exact List.pairwise_cons.mpr ⟨new, represents.apart⟩
        case nonempty => exact List.forall_mem_cons.mpr ⟨nonzero, represents.nonempty⟩
      · intro block isBlock
        have new := (apart block (List.mem_append_left _ isBlock)).symm
        exact new.addr_ne (represents.nonempty block isBlock) nonzero

theorem requested_calloc (sound : answer.Sound) (represents : h.Represents config live)
    (nonzero : size ≠ 0) (noConf : h.conf = none) :
    h.Requested config live size (h.calloc answer size) ∧
      ∀ p after, h.calloc answer size = (some p, after) →
        after.memory.read p size = List.replicate size 0 := by
  have requested := requested_malloc sound represents nonzero
  unfold ConfigHeap.calloc
  generalize h.malloc answer size = returned at requested
  cases requested with
  | refused after represents keeps blocks src conf =>
      refine ⟨.refused after represents keeps blocks src conf, ?_⟩
      intro p after same
      cases same
  | granted p after represents keeps fresh blocks src conf =>
      have isBlock : ⟨p, size⟩ ∈ after.blocks := blocks ▸ List.mem_cons_self
      have noConf' : after.conf ≠ some p := by
        rw [conf, noConf]
        exact Option.some_ne_none p ∘ Eq.symm
      have zeroed := represents.written isBlock ⟨le_rfl, le_rfl⟩ noConf'
        (Memory.keepsOutside_memset after.memory p 0 size) rfl
      refine ⟨.granted p _ zeroed.1 ?_ fresh blocks src conf, ?_⟩
      · intro region isRegion
        refine ⟨isRegion, ?_⟩
        rw [← (keeps region isRegion).2]
        apply (Memory.keepsOutside_memset after.memory p 0 size).read
        rcases List.mem_append.mp isRegion with isLive | isOld
        · exact live_apart represents.holds represents.beside isLive isBlock
        · have pairwise := represents.apart
          rw [blocks] at pairwise
          exact ((List.pairwise_cons.mp pairwise).1 region isOld).symm
      · intro q after same
        cases same
        exact Memory.read_memset _ _ _ _

end Blocks

section Start

theorem cstr_append_cons_nul (bytes rest : Bytes) : cstr (bytes ++ nul :: rest) = cstr bytes := by
  induction bytes with
  | nil => rfl
  | cons byte bytes ih =>
      rw [List.cons_append, cstr, cstr, List.takeWhile_cons, List.takeWhile_cons]
      split
      · exact congrArg _ ih
      · rfl

/-- The buffers of a loader, filled with a text. -/
def filled (h : ConfigHeap) (conf : ℕ) (content : Bytes) : ConfigHeap :=
  { h with conf := some conf }.withMemory
    ((h.memory.write h.src content).memcpy conf h.src content.length)

theorem represents_filled {conf : ℕ} (content : Bytes) (represents : h.Represents config live)
    (noConf : h.conf = none) (isSrc : ⟨h.src, content.length + 1⟩ ∈ h.blocks)
    (isConf : ⟨conf, size⟩ ∈ h.blocks) (different : conf ≠ h.src) (larger : content.length < size)
    (zeros : h.memory.read conf size = List.replicate size 0) :
    Loader.Represents (Loader.start (h.filled conf content) content.length)
        { config with conf := some (cstr content) } none live ∧
      (Loader.start (h.filled conf content) content.length).src =
        content ++ [h.memory.bytes (h.src + content.length)] := by
  have notConf : ∀ p, h.conf ≠ some p := by
    intro p
    rw [noConf]
    exact Option.some_ne_none p ∘ Eq.symm
  rcases Nat.exists_eq_add_of_lt larger with ⟨rest, rfl⟩
  have apart : Region.Apart ⟨h.src, content.length + 1⟩ ⟨conf, content.length + rest + 1⟩ := by
    apply represents.apart.forall isSrc isConf
    intro same
    exact different (congrArg Region.addr same).symm
  -- The text is written to `config->src`, and copied from there to `config->conf`.
  have keepsSrc := Memory.keepsOutside_write h.memory h.src content
  have keepsConf :=
    Memory.keepsOutside_memcpy (h.memory.write h.src content) conf h.src content.length
  have srcPart := Region.inside_left h.src content.length 1
  have confPart := Region.inside_left conf content.length (rest + 1)
  rcases represents.written isSrc srcPart (notConf _) keepsSrc rfl with ⟨written, -⟩
  rcases written.written isConf confPart (notConf _) keepsConf rfl with ⟨copied, -⟩
  have inConf : ((h.memory.write h.src content).memcpy conf h.src content.length).read conf
      (content.length + rest + 1) = content ++ nul :: List.replicate rest 0 := by
    have fromConf : Region.Apart ⟨conf + content.length, rest + 1⟩ ⟨conf, content.length⟩ :=
      (Region.Apart.of_stop_le le_rfl).symm
    have fromSrc := (apart.of_inside srcPart).symm.of_inside
      (Region.inside_right conf content.length (rest + 1))
    have zerosBehind := congrArg (List.drop content.length) zeros
    rw [Memory.drop_read, List.drop_replicate, Nat.add_assoc, Nat.add_sub_cancel_left]
      at zerosBehind
    rw [Nat.add_assoc, Memory.read_add, Memory.read_memcpy, Memory.read_write,
      keepsConf.read fromConf, keepsSrc.read fromSrc, zerosBehind]
    rfl
  have inSrc : ((h.memory.write h.src content).memcpy conf h.src content.length).read h.src
      (content.length + 1) = content ++ [h.memory.bytes (h.src + content.length)] := by
    have behind : Region.Apart ⟨h.src + content.length, 1⟩ ⟨h.src, content.length⟩ :=
      (Region.Apart.of_stop_le le_rfl).symm
    rw [keepsConf.read (apart.symm.of_inside confPart).symm, Memory.read_add, Memory.read_write,
      keepsSrc.read behind]
    rfl
  refine ⟨⟨?_, .none, isSrc, ?_, le_rfl⟩, inSrc⟩
  · refine { copied with conf := .some ⟨_, isConf, ?_⟩ }
    have ended : nul ∈ ((h.memory.write h.src content).memcpy conf h.src content.length).read conf
        (content.length + rest + 1) := by
      rw [inConf]
      exact List.mem_append_right _ List.mem_cons_self
    have isString := Memory.hasString_of_read ended
    rw [inConf, cstr_append_cons_nul] at isString
    exact isString.symm
  · intro same
    exact different (Option.some.inj same)

theorem freeConf_of_none (noConf : h.conf = none) : h.freeConf = h := by
  unfold freeConf
  rw [noConf]

/-- What a load leaves of the heap outside of the pool: the text in `config->conf`, or at most
one block. -/
structure Lost (before : List Region) (result : LoadResult) : Prop where
  blocks : ∃ lost, result.config.blocks = lost ++ before ∧ lost.length ≤ 1
  accepted : result.ret = OK → ∃ conf size, result.config.conf = some conf ∧
    result.config.blocks = ⟨conf, size⟩ :: before

/-- What the part of a load before the main loop leads to in memory and on strings. -/
inductive Started (before : List Region) (live : List Region)
    (start : (ℕ → Bool) → Outcome Libhelp.Loader Libhelp.LoadResult) :
    Outcome Loader LoadResult → Prop where
  | ret (result : LoadResult) (result' : Libhelp.LoadResult) (answers : ℕ → Bool)
      (represents : result.Represents result' live) (lost : Lost before result)
      (starts : start answers = .ret result') : Started before live start (.ret result)
  | next (m : Loader) (config' : Config) (conf size : ℕ)
      (represents : m.Represents config' none live) (isConf : m.config.conf = some conf)
      (blocks : m.config.blocks = ⟨conf, size⟩ :: ⟨m.config.src, m.stop + 1⟩ :: before)
      (starts : ∀ alloc, alloc 0 = true → alloc 1 = true →
        start alloc = .next (m.view config' 2 none)) : Started before live start (.next m)

theorem failed_lost {before : List Region} {logged : Option LogMessage}
    (blocks : ∃ lost, h.blocks = lost ++ before ∧ lost.length ≤ 1) :
    Lost before ⟨ERROR, h, logged⟩ :=
  ⟨blocks, fun accepted => absurd (show ERROR = OK from accepted) (by decide)⟩

theorem Memory.bytes_of_read {memory : Memory} {value : UInt8}
    (same : memory.read p (size + 1) = List.replicate (size + 1) value) :
    memory.bytes (p + size) = value := by
  have last := congrArg (·[size]?) same
  simpa [Memory.read] using last

/-- The configuration with which a load begins. -/
def begun (config : Config) : Config :=
  { config with lineError := 0, conf := none }

theorem Represents.begun (represents : h.Represents config live) (noConf : h.conf = none) :
    Represents { h with lineError := 0 } (begun config) live := by
  refine { represents with lineError := rfl, conf := ?_ }
  show TextIn _ _ h.conf none
  rw [noConf]
  exact .none

/-- `config->src` is freed, and `config->conf` is left. -/
theorem free_src {before : List Region} {conf src size' : ℕ}
    (blocks : h.blocks = ⟨conf, size⟩ :: ⟨src, size'⟩ :: before) (different : conf ≠ src) :
    (h.free src).blocks = ⟨conf, size⟩ :: before := by
  show h.blocks.eraseP (fun block => block.addr = src) = _
  rw [blocks, List.eraseP_cons_of_neg (by simpa using different),
    List.eraseP_cons_of_pos (by simp)]

theorem configLoad2Start_started (sound : answer.Sound) (represents : h.Represents config live)
    (noConf : h.conf = none) (str : Bytes) :
    Started h.blocks live (fun alloc => Libhelp.configLoad2Start alloc config str)
      (h.configLoad2Start answer str) := by
  unfold ConfigHeap.configLoad2Start
  rw [freeConf_of_none (h := { h with lineError := 0 }) noConf]
  rcases requested_calloc sound (represents.begun noConf) (Nat.succ_ne_zero (strlen str)) noConf
    with ⟨requested, zerosSrc⟩
  generalize ConfigHeap.calloc answer { h with lineError := 0 } (strlen str + 1) = returned
    at requested zerosSrc
  cases requested with
  | refused after represents' keeps blocks src conf =>
      exact .ret _ ⟨ERROR, begun config, some .cantMalloc⟩ (fun _ => false)
        ⟨rfl, rfl, { represents' with }⟩ (failed_lost ⟨[], blocks, Nat.zero_le _⟩) rfl
  | granted src after represents' keeps fresh blocks _ conf =>
      have noConf' : after.conf = none := conf.trans noConf
      have pointed : Represents { after with src := src } (begun config) live :=
        { represents' with }
      rcases requested_calloc sound pointed (Nat.succ_ne_zero (strlen str)) noConf' with
        ⟨requested, zeros⟩
      simp only
      generalize ConfigHeap.calloc answer { after with src := src } (strlen str + 1) = returned
        at requested zeros
      cases requested with
      | refused last represents'' keeps blocks' _ conf =>
          refine .ret _ ⟨ERROR, begun config, some .cantMalloc⟩ (· = 0) ⟨rfl, rfl, represents''⟩
            (failed_lost ⟨[⟨src, strlen str + 1⟩], ?_, le_rfl⟩) rfl
          exact blocks'.trans blocks
      | granted conf' last represents'' keeps fresh' blocks' sameSrc conf =>
          have source : last.src = src := sameSrc
          subst source
          have allBlocks : last.blocks =
              ⟨conf', strlen str + 1⟩ :: ⟨last.src, strlen str + 1⟩ :: h.blocks := by
            rw [blocks']
            exact congrArg _ blocks
          have isOld : ⟨last.src, strlen str + 1⟩ ∈ after.blocks := by simp [blocks]
          have isSrc : ⟨last.src, strlen str + 1⟩ ∈ last.blocks := by simp [allBlocks]
          have isConf : ⟨conf', strlen str + 1⟩ ∈ last.blocks := by simp [allBlocks]
          rcases represents_filled (cstr str) represents'' (conf.trans noConf') isSrc
            isConf (fresh' _ isOld).symm (Nat.lt_succ_self _) (zeros conf' last rfl) with
            ⟨started, text⟩
          have behind : last.memory.bytes (last.src + strlen str) = nul := by
            have kept := (keeps _ (List.mem_append_right live isOld)).2
            exact Memory.bytes_of_read (kept.trans (zerosSrc last.src after rfl))
          have buffer : (Loader.start (last.filled conf' (cstr str)) (strlen str)).src =
              cstr str ++ [nul] := by
            rw [← behind]
            exact text
          rw [cstr_of_nulFree (nulFree_cstr str)] at started
          refine .next _ _ conf' (strlen str + 1) started rfl allBlocks ?_
          intro alloc first second
          show _ = Outcome.next (Libhelp.Loader.start _ 2
            (Loader.start (last.filled conf' (cstr str)) (strlen str)).src (strlen str))
          rw [buffer]
          unfold Libhelp.configLoad2Start
          simp only [first, second]
          rfl

/-- The byte behind the text is what `malloc` has left there. -/
theorem configLoadStart_started (sound : answer.Sound) (represents : h.Represents config live)
    (noConf : h.conf = none) (file : OpenedFile) : ∃ junk,
    Started h.blocks live (fun alloc => Libhelp.configLoadStart alloc config file junk)
      (h.configLoadStart answer file) := by
  have reported : ∀ logged, LoadResult.Represents ⟨ERROR, { h with lineError := 0 }, logged⟩
      ⟨ERROR, { config with lineError := 0 }, logged⟩ live :=
    fun logged => ⟨rfl, rfl, { represents with lineError := rfl }⟩
  have noBlocks : ∃ lost, h.blocks = lost ++ h.blocks ∧ lost.length ≤ 1 :=
    ⟨[], rfl, Nat.zero_le _⟩
  rcases file with ⟨opens, stSize, content⟩
  unfold ConfigHeap.configLoadStart Libhelp.configLoadStart
  cases opens with
  | false =>
      exact ⟨0, .ret _ _ (fun _ => false) (reported _) (failed_lost noBlocks) rfl⟩
  | true =>
      cases stSize with
      | none => exact ⟨0, .ret _ _ (fun _ => false) (reported _) (failed_lost noBlocks) rfl⟩
      | some stSize =>
          simp only [Bool.true_eq_false, if_false]
          rw [freeConf_of_none (h := { h with lineError := 0 }) noConf]
          have requested := requested_malloc sound (represents.begun noConf)
            (Nat.succ_ne_zero stSize)
          generalize ConfigHeap.malloc answer { h with lineError := 0 } (stSize + 1) = returned
            at requested
          cases requested with
          | refused after represents' keeps blocks src conf =>
              exact ⟨0, .ret _ ⟨ERROR, begun config, some .cantMalloc⟩ (fun _ => false)
                ⟨rfl, rfl, { represents' with }⟩ (failed_lost ⟨[], blocks, Nat.zero_le _⟩) rfl⟩
          | granted src after represents' keeps fresh blocks _ conf =>
              have noConf' : after.conf = none := conf.trans noConf
              have pointed : Represents { after with src := src } (begun config) live :=
                { represents' with }
              rcases requested_calloc sound pointed (Nat.succ_ne_zero (stSize + 1)) noConf' with
                ⟨requested, zeros⟩
              simp only
              generalize ConfigHeap.calloc answer { after with src := src } (stSize + 2) = returned
                at requested zeros
              cases requested with
              | refused last represents'' keeps blocks' _ conf =>
                  refine ⟨0, .ret _ ⟨ERROR, begun config, some .cantMalloc⟩ (· = 0)
                    ⟨rfl, rfl, represents''⟩ (failed_lost ⟨[⟨src, stSize + 1⟩], ?_, le_rfl⟩) rfl⟩
                  exact blocks'.trans blocks
              | granted conf' last represents'' keeps fresh' blocks' sameSrc conf =>
                  have source : last.src = src := sameSrc
                  subst source
                  have allBlocks : last.blocks =
                      ⟨conf', stSize + 2⟩ :: ⟨last.src, stSize + 1⟩ :: h.blocks := by
                    rw [blocks']
                    exact congrArg _ blocks
                  have isOld : ⟨last.src, stSize + 1⟩ ∈ after.blocks := by simp [blocks]
                  have different : conf' ≠ last.src := (fresh' _ isOld).symm
                  have isSrc : ⟨last.src, stSize + 1⟩ ∈ last.blocks := by simp [allBlocks]
                  have isConf : ⟨conf', stSize + 2⟩ ∈ last.blocks := by simp [allBlocks]
                  have inConf := zeros conf' last rfl
                  have unread : ∀ {start : (ℕ → Bool) → Outcome Libhelp.Loader Libhelp.LoadResult},
                      start ample = .ret
                        ⟨ERROR, { begun config with conf := some [] }, some .cantRead⟩ →
                      Started h.blocks live start
                        (.ret ⟨ERROR, { last with conf := some conf' }.free last.src,
                          some .cantRead⟩) := by
                    intro start starts
                    have ended : nul ∈ last.memory.read conf' (stSize + 2) := by
                      rw [inConf]
                      exact List.mem_cons_self
                    have isString := Memory.hasString_of_read ended
                    rw [inConf] at isString
                    have empty : Represents { last with conf := some conf' }
                        { begun config with conf := some [] } live :=
                      { represents'' with conf := .some ⟨_, isConf, isString.2, isString.1⟩ }
                    refine .ret _ _ ample ⟨rfl, rfl, empty.free ?_⟩ (failed_lost ?_) starts
                    · intro same
                      exact different (Option.some.inj same)
                    · exact ⟨[⟨conf', stSize + 2⟩], free_src allBlocks different, le_rfl⟩
                  cases content with
                  | none => exact ⟨0, unread rfl⟩
                  | some content =>
                      by_cases short : content.length ≠ stSize
                      · simp only [if_pos short]
                        exact ⟨0, unread rfl⟩
                      · have whole : stSize = content.length := (not_ne_iff.mp short).symm
                        subst whole
                        rcases represents_filled _ represents'' (conf.trans noConf') isSrc isConf
                          different (by omega) inConf with ⟨started, buffer⟩
                        simp only [ne_eq, not_true_eq_false, if_false]
                        refine ⟨last.memory.bytes (last.src + content.length), .next _ _ conf'
                          (content.length + 2) started rfl allBlocks ?_⟩
                        intro alloc first second
                        simp only [first, second, Bool.true_eq_false, if_false]
                        show _ = Outcome.next (Libhelp.Loader.start _ 2
                          (Loader.start (last.filled conf' content) content.length).src
                          content.length)
                        rw [buffer]
                        rfl

end Start

section Loads

variable {before : List Region} {outcome : Outcome Loader LoadResult}
  {start : (ℕ → Bool) → Outcome Libhelp.Loader Libhelp.LoadResult}

/-- What a load in memory returns the load on strings returns within its buffers, when memory is
granted and refused to it in some way. -/
theorem Started.returned (sound : answer.Sound) (started : Started before live start outcome)
    (returned : run (Loader.step answer judy) fuel outcome = some result) :
    ∃ alloc result' live', run (Libhelp.Loader.stepWithin alloc) fuel (start alloc) = some result' ∧
      result.Represents result' live' ∧ Lost before result := by
  cases started with
  | ret value result' answers represents lost starts =>
      rw [run_ret] at returned
      cases returned
      refine ⟨answers, result', live, ?_, represents, lost⟩
      rw [starts, run_ret]
  | next m config' conf size represents isConf blocks starts =>
      rcases @Loader.run_simulated _ _ _ _ 2 _ judy sound represents _ _ returned with
        ⟨result', live', answers, loaded, leaves, runs⟩
      refine ⟨fun i => if i < 2 then true else answers i, result', live', ?_, loaded, ?_⟩
      · rw [starts _ rfl rfl]
        apply runs
        intro i reached
        exact if_neg (not_lt.mpr reached)
      · have different : conf ≠ m.config.src := by
          rintro rfl
          exact represents.notConf isConf
        have left := leaves.blocks.trans (free_src blocks different)
        refine ⟨⟨[⟨conf, size⟩], left, le_rfl⟩, fun _ => ?_⟩
        exact ⟨conf, size, leaves.conf.trans isConf, left⟩

theorem Started.returns (sound : answer.Sound) (judy : ℕ → Bool)
    (started : Started before live start outcome) {value : Libhelp.LoadResult}
    (returned : run (Libhelp.Loader.stepWithin ample) fuel (start ample) = some value) :
    ∃ result, run (Loader.step answer judy) fuel outcome = some result := by
  cases started with
  | ret result result' answers represents lost starts => exact ⟨result, run_ret fuel result⟩
  | next m config' conf size represents isConf blocks starts =>
      rw [starts ample rfl rfl] at returned
      exact Loader.run_returns sound judy represents returned

end Loads

end ConfigHeap

end Libhelp
