import Libhelp.Config.FileLoad
import Libhelp.Config.Grammar

/-!
# Copy statements

A copy statement `dst @src;` on a store without `NULL` words: when its loop ends,
and what it leaves behind.  The walk of `PrefixCopy` answers both for the store,
and the byte machine of both loaders carries the walk out.
-/

namespace Libhelp

open StepProgram CString PrefixCopy

theorem nulFree_of_achar {bytes : Bytes} (allowed : KeyBytes bytes) : NulFree bytes :=
  fun mem => absurd (allowed nul mem) (by decide)

theorem Gap.nulFree (gap : Gap) : NulFree gap.bytes := by
  intro mem
  rcases gap.blank nul mem with same | same <;> exact absurd same (by decide)

theorem nulFree_copy (target : Key) (gap : Gap) (source : CopySource)
    (free : NulFree source.bytes) : NulFree (Item.copy target gap source).bytes := by
  simp only [Item.bytes, Fragment.bytes, nulFree_append, nulFree_cons, nulFree_nil, free,
    nulFree_of_achar target.allowed, gap.nulFree]
  decide

theorem Item.loads_iff {config : Config} (item : Item) (free : NulFree item.bytes)
    {result : LoadResult} :
    Loads ample config item.bytes result ↔
      ∃ data, Exec config.data item.stmts data ∧
        result = ⟨OK, { config.begin item.bytes with data := data }, none⟩ := by
  have stmtsEq : Libhelp.stmts item.bytes = item.stmts := (item.passes 1).2
  have mode : (scan item.bytes).mode = .space := (item.passes 1).1
  rw [Libhelp.loads_iff free, stmtsEq]
  simp only [Scan.result_of_not_failed (s := scan item.bytes) (by simp [mode])]

theorem NoNull.loads_copy_iff {config : Config} (noNull : NoNull config.data) (target : Key)
    (gap : Gap) (source : CopySource) (free : NulFree source.bytes) {result : LoadResult} :
    Loads ample config (Item.copy target gap source).bytes result ↔
      ∃ data, CopiesTo source.bytes target.bytes config.data data ∧
        result = ⟨OK, { config.begin (Item.copy target gap source).bytes with data := data },
          none⟩ := by
  rw [Item.loads_iff _ (nulFree_copy target gap source free)]
  simp [Item.stmts, exec_copy_iff, noNull.copied_iff]

/-- A load with enough memory leaves no `NULL` word behind. -/
theorem Exec.noNull {data last : Store} {stmts : List Stmt} (exec : Exec data stmts last)
    (noNull : NoNull data) : NoNull last := by
  induction exec with
  | nil => exact noNull
  | assign _ ih => exact ih (noNull.insert (by simp) _)
  | copy copied _ ih =>
      rcases noNull.copied_iff.mp copied with ⟨entry, exits⟩
      exact ih (exits.invariant (I := Clean) (fun _ _ => clean_body) (clean_start noNull _)).1.1

/-- The stores that loads reach from stores without `NULL` words have none. -/
theorem Loads.noNull {config : Config} {text : Bytes} {result : LoadResult} (free : NulFree text)
    (loads : Loads ample config text result) (noNull : NoNull config.data) :
    NoNull result.config.data := by
  rcases (loads_iff free).mp loads with ⟨data, exec, rfl⟩
  simpa using exec.noNull noNull

theorem loopExits_body {source target : Bytes} {cursor last : Cursor UInt8 Word}
    (exits : LoopExits (copyBody source target) cursor last) (free : ¬AtNull source last) :
    LoopExits (body source target) cursor last := by
  induction exits with
  | done stop =>
      refine .done (body_eq_none_iff.mpr ?_)
      rintro ⟨key, _ | value⟩ found starts
      · exact free ⟨key, found, starts⟩
      · rcases starts with ⟨suffix, rfl⟩
        rw [copyBody_eq_some_iff.mpr ⟨suffix, value, found, rfl⟩] at stop
        cases stop
  | more stepped _ ih =>
      rcases copyBody_eq_some_iff.mp stepped with ⟨suffix, value, found, rfl⟩
      exact .more (body_eq_some_iff.mpr ⟨suffix, some value, found, rfl⟩) (ih free)

/-- A copy loop that passes no `NULL` word is the walk of `PrefixCopy`. -/
theorem Copied.copiesTo {source target : Bytes} {data middle : Store}
    (copied : Copied source target data middle) : CopiesTo source target data middle := by
  rcases copied with ⟨entry, exits, free⟩
  exact ⟨entry, loopExits_body exits free⟩

/-- Statements that can be executed on a store can be executed on one with fewer keys. -/
theorem Exec.of_subset {small large last : Store} {stmts : List Stmt}
    (exec : Exec large stmts last) (subset : ∀ key ∈ small, key ∈ large)
    (noNull : NoNull small) : ∃ data, Exec small stmts data := by
  induction exec generalizing small with
  | nil => exact ⟨small, .nil⟩
  | @assign _ _ key value _ _ ih =>
      rcases ih (OrdMap.insert_subset subset)
        (noNull.insert (Option.some_ne_none value) key) with ⟨data, tail⟩
      exact ⟨data, .assign tail⟩
  | copy copied _ ih =>
      rcases copied.copiesTo.of_subset subset with ⟨middle, copies, keys⟩
      have copied' := noNull.copied_iff.mpr copies
      have noNull' := Exec.noNull (.copy copied' .nil) noNull
      rcases ih keys noNull' with ⟨data, tail⟩
      exact ⟨data, .copy copied' tail⟩

/-- The loop of a copy statement ends, in both loaders, exactly when its target does not
feed its source: the target is not a proper extension of the source, or it moves the
suffix of no key under the source forward. -/
theorem copy_ends_iff (config : Config) (noNull : NoNull config.data) (target : Key) (gap : Gap)
    (source : CopySource) (free : NulFree source.bytes) (junk : UInt8) :
    ((∃ result, Loads ample config (Item.copy target gap source).bytes result) ↔
      ¬SelfFeeding source.bytes target.bytes config.data) ∧
    ((∃ result, FileLoads ample config (.ofContent (Item.copy target gap source).bytes) junk
      result) ↔ ¬SelfFeeding source.bytes target.bytes config.data) := by
  have ends : (∃ result, Loads ample config (Item.copy target gap source).bytes result) ↔
      ¬SelfFeeding source.bytes target.bytes config.data := by
    rw [← exists_copiesTo_iff]
    simp only [noNull.loads_copy_iff target gap source free]
    constructor
    · rintro ⟨result, data, copies, _⟩
      exact ⟨data, copies⟩
    · rintro ⟨data, copies⟩
      exact ⟨_, data, copies, rfl⟩
  refine ⟨ends, ?_⟩
  simpa only [fileLoads_iff_loads (nulFree_copy target gap source free)] using ends

theorem copy_ends_iff_disjoint :
    ∃ result, Loads ample ⟨(∅ : Store).insert [97, 46, 120] (some [49]), 0, none⟩
      [98, 32, 64, 97, 59] result :=
  (copy_ends_iff ⟨(∅ : Store).insert [97, 46, 120] (some [49]), 0, none⟩ (by decide)
    ⟨[98], by decide, by decide, by decide⟩ ⟨[32], by decide, by decide⟩
    ⟨[97], by decide, by decide⟩ (by decide) 0).1.mpr (by decide)

/-- After `a 1;` the loop of `aa @a;` never ends: it copies `a` to `aa`, `aa` to `aaa`, and
so on. -/
theorem copy_never_ends :
    ∃ loaded, Loads ample Config.new [97, 32, 49, 59] loaded ∧ loaded.ret = OK ∧
      (∀ result, ¬Loads ample loaded.config [97, 97, 32, 64, 97, 59] result) ∧
      ∀ junk result, ¬FileLoads ample loaded.config (.ofContent [97, 97, 32, 64, 97, 59]) junk
        result := by
  have never : ∀ result,
      ¬Loads ample ⟨(∅ : Store).insert [97] (some [49]), 0, some [97, 32, 49, 59]⟩
        [97, 97, 32, 64, 97, 59] result := by
    intro result loads
    rcases (NoNull.loads_copy_iff (by decide) ⟨[97, 97], by decide, by decide, by decide⟩
      ⟨[32], by decide, by decide⟩ ⟨[97], by decide, by decide⟩ (by decide)).mp loads
      with ⟨data, copies, _⟩
    exact not_copiesTo_of_selfFeeding (by decide) copies
  refine ⟨_, ⟨20, rfl⟩, rfl, never, ?_⟩
  intro junk result
  rw [fileLoads_iff_loads (by decide)]
  exact never result

/-- A copy none of whose new keys starts with its source overlays the store with one copy
of every entry under the source. -/
theorem copy_overlays (config : Config) (noNull : NoNull config.data) (target : Key) (gap : Gap)
    (source : CopySource) (free : NulFree source.bytes)
    (fresh : ∀ suffix, source.bytes ++ suffix ∈ config.data →
      ¬source.bytes <+: target.bytes ++ suffix) :
    ∃ data, (∀ result, Loads ample config (Item.copy target gap source).bytes result ↔
        result = ⟨OK, ⟨data, 0, some (Item.copy target gap source).bytes⟩, none⟩) ∧
      data = config.data.overlay (copies source.bytes target.bytes config.data) ∧
      (∀ suffix word, config.data.find? (source.bytes ++ suffix) = some word →
        data.find? (target.bytes ++ suffix) = some word) ∧
      ∀ key, (∀ suffix, source.bytes ++ suffix ∈ config.data → key ≠ target.bytes ++ suffix) →
        data.find? key = config.data.find? key := by
  have copied := copiesTo_overlay fresh
  refine ⟨_, ?_, rfl, ?_, ?_⟩
  · intro result
    rw [noNull.loads_copy_iff target gap source free]
    constructor
    · rintro ⟨data, copies, rfl⟩
      rw [copies.unique copied]
      rfl
    · rintro rfl
      exact ⟨_, copied, rfl⟩
  · intro suffix word found
    exact find?_overlay_copies (OrdMap.find?_eq_some_iff.mp found)
  · intro key other
    exact find?_overlay_copies_of_ne other

/-- After `a.x 1; b.y 2;` the statement `b @a;` binds `b.x` to `1` and keeps `b.y`. -/
theorem copy_overlays_disjoint :
    ∃ data : Store, (∀ result, Loads ample
        ⟨((∅ : Store).insert [97, 46, 120] (some [49])).insert [98, 46, 121] (some [50]), 0, none⟩
        [98, 32, 64, 97, 59] result ↔ result = ⟨OK, ⟨data, 0, some [98, 32, 64, 97, 59]⟩, none⟩) ∧
      data.find? [98, 46, 120] = some (some [49]) ∧
      data.find? [98, 46, 121] = some (some [50]) := by
  rcases copy_overlays
    ⟨((∅ : Store).insert [97, 46, 120] (some [49])).insert [98, 46, 121] (some [50]),
      0, none⟩ (by decide) ⟨[98], by decide, by decide, by decide⟩ ⟨[32], by decide, by decide⟩
    ⟨[97], by decide, by decide⟩ (by decide)
    (by rintro suffix _ ⟨rest, same⟩; simp at same) with ⟨data, loads, rfl, _, _⟩
  exact ⟨_, loads, by decide, by decide⟩

end Libhelp
